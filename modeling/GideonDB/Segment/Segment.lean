/-
Segments (`internal/segment`): the unit of records and local indexes within a shard.

A segment gives every key an ordinal and keeps the record, its metadata postings and its
named vectors under the ordinal.  A write goes through several of these structures one
after the other and can fail between them; the functions below therefore return the
segment they leave behind together with the error.
-/
import GideonDB.Core.Record

namespace GideonDB

open Go GideonDB.Core

namespace Segment

/-- The errors of a segment. -/
inductive Error
  /-- `core.ErrNotFound`. -/
  | notFound
  /-- `core.ErrDimensionMismatch`. -/
  | dimensionMismatch
  /-- `core.ErrInvalidArgument` with a text. -/
  | invalidArgument (text : String)
  | text (text : String)
  /-- `vector field %q: %w`. -/
  | vectorField (name : GoString) (cause : Error)
deriving DecidableEq

/-! ### Vector indexes -/

/-- A vector index: the vectors it holds, by id.  How it searches does not matter to a
write. -/
structure VectorIndex where
  dimension : ℕ
  /-- A binary index does not report that an id to delete is missing. -/
  binary : Bool
  vectors : GoMap ℕ FloatVector

namespace VectorIndex

/-- `Upsert` of the flat, HNSW and binary indexes. -/
def upsert (idx : VectorIndex) (id : ℕ) (vector : FloatVector) : VectorIndex × Option Error :=
  if vector.length ≠ idx.dimension then (idx, some .dimensionMismatch)
  else ({ idx with vectors := idx.vectors.set id vector }, none)

/-- `Delete` of the flat, HNSW and binary indexes. -/
def delete (idx : VectorIndex) (id : ℕ) : VectorIndex × Option Error :=
  if idx.vectors.has id then ({ idx with vectors := idx.vectors.delete id }, none)
  else if idx.binary then (idx, none)
  else (idx, some .notFound)

/-- `Len`. -/
def len (idx : VectorIndex) : ℕ := idx.vectors.size

end VectorIndex

/-! ### Named vector fields -/

/-- `storedVector`: one vector at the storage precision of its field. -/
inductive StoredVector
  | f32 (values : List (BitVec 32))
  | u16 (codes : List (BitVec 16))

/-- As a field stores it. -/
def encodeVector : Datatype → FloatVector → StoredVector
  | .float16, vector => .u16 (vector.map float32ToFloat16)
  | .bfloat16, vector => .u16 (vector.map float32ToBFloat16)
  | .float32, vector => .f32 vector

/-- As a field returns it. -/
def StoredVector.decode (datatype : Datatype) : StoredVector → FloatVector
  | .f32 values => values
  | .u16 codes =>
    if datatype = .bfloat16 then codes.map bfloat16ToFloat32 else codes.map float16ToFloat32

/-- What a field gives back is the vector at the precision of the field. -/
lemma decode_encodeVector (datatype : Datatype) (vector : FloatVector) :
    (encodeVector datatype vector).decode datatype = roundToDatatype datatype vector := by
  cases datatype <;> simp [encodeVector, StoredVector.decode, roundToDatatype, Function.comp_def]

/-- `namedField`.  The mean-pooled vectors of a multi-vector field are left out: only
searches read them. -/
structure NamedField where
  config : VectorField
  /-- `nil` unless the field is declared with an HNSW index. -/
  index : Option VectorIndex
  dense : GoMap ℕ StoredVector
  multi : GoMap ℕ (List StoredVector)

namespace NamedField

/-- `newNamedField`. -/
def new (config : VectorField) : NamedField where
  config := config
  index := if config.indexType = .hnsw then some ⟨config.dimension, false, .empty⟩ else none
  dense := .empty
  multi := .empty

/-- `remove`. -/
def remove (f : NamedField) (ordinal : ℕ) : NamedField :=
  if !f.dense.has ordinal && !f.multi.has ordinal then f
  else { f with
    dense := f.dense.delete ordinal
    multi := f.multi.delete ordinal
    index := f.index.map fun idx => (idx.delete ordinal).1 }

/-- The dense vector of an ordinal at the precision of the field. -/
def setDense (f : NamedField) (ordinal : ℕ) (vector : FloatVector) : NamedField :=
  { f with dense := f.dense.set ordinal (encodeVector f.config.datatype vector) }

/-- The vector list of an ordinal at the precision of the field. -/
def setMulti (f : NamedField) (ordinal : ℕ) (list : List FloatVector) : NamedField :=
  { f with multi := f.multi.set ordinal (list.map (encodeVector f.config.datatype)) }

/-- The last step of `put`: the vector goes into the index of the field, if it has one. -/
def indexVector (f : NamedField) (ordinal : ℕ) (vector : FloatVector) :
    NamedField × Option Error :=
  match f.index with
  | none => (f, none)
  | some idx => ({ f with index := some (idx.upsert ordinal vector).1 },
      (idx.upsert ordinal vector).2)

/-- `put`.  The vector indexed for a list is its mean, of which only the length matters:
that of the first vector of the list. -/
def put (f : NamedField) (ordinal : ℕ) (vector : Option FloatVector)
    (list : Option (List FloatVector)) : NamedField × Option Error :=
  let f := f.remove ordinal
  if f.config.multiVector then
    match list with
    | none => (f, none)
    | some list => (f.setMulti ordinal list).indexVector ordinal (list.headD [])
  else
    match vector with
    | none => (f, none)
    | some vector => (f.setDense ordinal vector).indexVector ordinal vector

/-- `vector`. -/
def vector (f : NamedField) (ordinal : ℕ) : Option FloatVector :=
  (f.dense.get ordinal).map (StoredVector.decode f.config.datatype)

/-- `multiVector`. -/
def multiVector (f : NamedField) (ordinal : ℕ) : Option (List FloatVector) :=
  (f.multi.get ordinal).map (List.map (StoredVector.decode f.config.datatype))

end NamedField

/-- The declared fields of a segment, in the order of a `range` loop. -/
abbrev NamedFields := List (GoString × NamedField)

/-- `putNamedLocked`: stops at the first field that fails, which has stored the vector by
then. -/
def putNamed (ordinal : ℕ) (record : Record) : NamedFields → NamedFields × Option Error
  | [] => ([], none)
  | (name, field) :: rest =>
    match field.put ordinal (record.vectors name) (record.multiVectors name) with
    | (field, some err) => ((name, field) :: rest, some (.vectorField name err))
    | (field, none) => ((name, field) :: (putNamed ordinal record rest).1,
        (putNamed ordinal record rest).2)

/-- `removeNamedLocked`. -/
def removeNamed (ordinal : ℕ) (named : NamedFields) : NamedFields :=
  named.map fun field => (field.1, field.2.remove ordinal)

/-- `attachNamedLocked`. -/
def attachNamed (named : NamedFields) (ordinal : ℕ) (record : Record) : Record :=
  { record with
    vectors := fun name =>
      ((named.lookup name).bind (·.vector ordinal)).or (record.vectors name)
    multiVectors := fun name =>
      ((named.lookup name).bind (·.multiVector ordinal)).or (record.multiVectors name) }

end Segment

/-! ### Segments -/

/-- `Segment`.  The lexical index and the closer are left out. -/
structure Segment where
  index : Segment.VectorIndex
  nextID : ℕ
  records : GoMap ℕ Record
  ordinals : GoMap GoString ℕ
  metadata : Metadata.Index
  readOnly : Bool
  /-- The vectors of a segment that does not keep them in its records, by position. -/
  vectorAt : Option (ℕ → FloatVector)
  named : Segment.NamedFields

namespace Segment

/-- `New`.  Where the records hold the vectors, a DiskANN segment is a flat one. -/
def new (config : CollectionConfig) : Segment where
  index := ⟨config.dimension, config.indexType = .flat && config.binaryQuantization, .empty⟩
  nextID := 1
  records := .empty
  ordinals := .empty
  metadata := Metadata.Index.newIndex
  readOnly := false
  vectorAt := none
  named := config.vectors.toList.map fun field => (field.1, NamedField.new field.2)

/-- `s.ordinals[k]`, or the next ordinal with the counter moved on. -/
def assignOrdinal (s : Segment) (key : GoString) : ℕ × Segment :=
  match s.ordinals.get key with
  | some ordinal => (ordinal, s)
  | none => (s.nextID, { s with nextID := s.nextID + 1 })

/-- The last part of `Upsert`: the record becomes visible. -/
def store (lib : Metadata.Library) (s : Segment) (ordinal : ℕ) (record : Record) : Segment :=
  { s with
    ordinals := s.ordinals.set record.key ordinal
    records := s.records.set ordinal
      { record with vectors := fun _ => none, multiVectors := fun _ => none }
    metadata := s.metadata.upsert lib ordinal record.metadata }

/-- `Upsert`. -/
def upsert (lib : Metadata.Library) (s : Segment) (record : Record) : Segment × Option Error :=
  if s.readOnly then (s, some (.text "immutable segment cannot be mutated"))
  else if record.id = [] then (s, some (.invalidArgument "record id is required"))
  else
    let ordinal := (s.assignOrdinal record.key).1
    let s := (s.assignOrdinal record.key).2
    match s.index.upsert ordinal record.vector with
    | (_, some err) => (s, some err)
    | (index, none) =>
      match putNamed ordinal record s.named with
      | (named, some err) => ({ s with index := index, named := named }, some err)
      | (named, none) =>
        ({ s with index := index, named := named }.store lib ordinal record, none)

/-- The vector of a record that does not hold it. -/
def fetchVector (vectorAt : Option (ℕ → FloatVector)) (ordinal : ℕ) (record : Record) : Record :=
  match vectorAt with
  | some vectorAt =>
    if record.vector = [] then { record with vector := vectorAt (ordinal - 1) } else record
  | none => record

/-- The record of an ordinal with its vectors, as `Get` and `Records` return it. -/
def read (s : Segment) (ordinal : ℕ) (record : Record) : Record :=
  attachNamed s.named ordinal (fetchVector s.vectorAt ordinal record)

/-- `Get`. -/
def get (s : Segment) (ns id : GoString) : Except Error Record :=
  match s.ordinals.get (recordKey ns id) with
  | none => .error .notFound
  | some ordinal => .ok (s.read ordinal (s.records.getD ordinal default))

/-- `Has`. -/
def has (s : Segment) (ns id : GoString) : Bool := s.ordinals.has (recordKey ns id)

/-- The last part of `Delete`: what is kept under the ordinal goes. -/
def forget (lib : Metadata.Library) (s : Segment) (ordinal : ℕ) (key : GoString) : Segment :=
  { s with
    named := removeNamed ordinal s.named
    ordinals := s.ordinals.delete key
    records := s.records.delete ordinal
    metadata := s.metadata.delete lib ordinal }

/-- `Delete`. -/
def delete (lib : Metadata.Library) (s : Segment) (ns id : GoString) : Segment × Option Error :=
  if s.readOnly then (s, some (.text "immutable segment cannot be mutated"))
  else
    match s.ordinals.get (recordKey ns id) with
    | none => (s, some .notFound)
    | some ordinal =>
      match s.index.delete ordinal with
      | (_, some err) => (s, some err)
      | (index, none) => ({ s with index := index }.forget lib ordinal (recordKey ns id), none)

/-- `Records`. -/
def list (s : Segment) : List Record :=
  sortRecords (s.records.toList.map fun entry =>
    s.read (s.ordinals.getD entry.2.key 0) entry.2)

/-- `Len`. -/
def len (s : Segment) : ℕ := s.index.len

end Segment

end GideonDB
