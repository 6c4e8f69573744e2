/-
Records and collection declarations (`core/types.go`), record keys, and the order in which
segments and shards list their records.

The two maps of named vectors are functions from field names, so that two records with the
same entries are equal; a nil map entry and a missing one are not told apart by any reader,
and neither are nil and empty metadata, payload or sparse maps.
-/
import GideonDB.Core.Vectors
import GideonDB.Metadata.Index

namespace GideonDB.Core

open Go

/-- `core.Record`. -/
structure Record where
  ns : GoString
  id : GoString
  vector : FloatVector
  sparseVector : GoMap GoString (BitVec 32)
  metadata : Metadata.MetadataMap
  payload : Metadata.MetadataMap
  text : GoString
  timestamp : ℤ
  version : ℕ
  vectors : GoString → Option FloatVector
  multiVectors : GoString → Option (List FloatVector)

/-- The zero value `core.Record{}`. -/
instance : Inhabited Record :=
  ⟨⟨[], [], [], .empty, .empty, .empty, [], 0, 0, fun _ => none, fun _ => none⟩⟩

/-- `key(namespace, id)` of segments, `recordKey(namespace, id)` of shards. -/
def recordKey (ns id : GoString) : GoString := ns ++ 0 :: id

/-- The key of a record. -/
def Record.key (record : Record) : GoString := recordKey record.ns record.id

/-- `core.CollectionConfig`: what the writes of a segment read of it. -/
structure CollectionConfig where
  dimension : ℕ
  indexType : IndexType
  /-- `Index.Quantization == QuantizationBinary`. -/
  binaryQuantization : Bool
  vectors : GoMap GoString VectorField

/-- The field of this name. -/
def CollectionConfig.vectorField (config : CollectionConfig) (name : GoString) :
    Option VectorField := config.vectors.get name

/-- A record as `PrepareNamedVectors` leaves it: every named vector belongs to a declared
field of its kind, has the field's dimension, and is already rounded to the field's
precision. -/
structure Prepared (config : CollectionConfig) (record : Record) : Prop where
  vectors : ∀ name vector, record.vectors name = some vector →
    ∃ field, config.vectorField name = some field ∧ field.multiVector = false ∧
      vector.length = field.dimension ∧ roundToDatatype field.datatype vector = vector
  multiVectors : ∀ name list, record.multiVectors name = some list →
    ∃ field, config.vectorField name = some field ∧ field.multiVector = true ∧ list ≠ [] ∧
      ∀ vector ∈ list, vector.length = field.dimension ∧
        roundToDatatype field.datatype vector = vector

lemma prepared_of_none {config : CollectionConfig} {record : Record}
    (hvecs : record.vectors = fun _ => none)
    (hmulti : record.multiVectors = fun _ => none) : Prepared config record where
  vectors name vector h := by rw [hvecs] at h; cases h
  multiVectors name list h := by rw [hmulti] at h; cases h

/-- Records under their keys. -/
def entriesOf (records : List Record) : List (GoString × Record) :=
  records.map fun record => (record.key, record)

lemma map_fst_entriesOf (records : List Record) :
    (entriesOf records).map Prod.fst = records.map Record.key := by
  rw [entriesOf, List.map_map]
  rfl

lemma lookup_entriesOf_eq_some {records : List Record} (hnodup : (records.map Record.key).Nodup)
    {key : GoString} {record : Record} :
    (entriesOf records).lookup key = some record ↔ record ∈ records ∧ record.key = key := by
  rw [GoMap.lookup_eq_some (by rwa [map_fst_entriesOf]), entriesOf, List.mem_map]
  constructor
  · rintro ⟨record', hmem, heq⟩
    obtain ⟨rfl, rfl⟩ := Prod.mk.inj heq
    exact ⟨hmem, rfl⟩
  · rintro ⟨hmem, rfl⟩
    exact ⟨record, hmem, rfl⟩

/-! ### The order of records -/

/-- By namespace, then by id. -/
def RecordLE (r r' : Record) : Prop :=
  (r.ns ≠ r'.ns ∧ StringLE r.ns r'.ns) ∨ (r.ns = r'.ns ∧ StringLE r.id r'.id)
deriving Decidable

attribute [local instance] linearOrderGoString

open OrderDual (toDual)

lemma recordLE_iff (r r' : Record) : RecordLE r r' ↔
    toDual r'.ns < toDual r.ns ∨ toDual r.ns = toDual r'.ns ∧ StringLE r.id r'.id := by
  rw [RecordLE, StringLE, leString_iff, and_comm, ← lt_iff_le_and_ne]
  rfl

instance : Std.Total RecordLE := total_of_score (fun r r' => leString_total r.id r'.id) recordLE_iff

instance : IsTrans Record RecordLE :=
  isTrans_of_score (fun r s _ (h : StringLE r.id s.id) => leString_trans h) recordLE_iff

lemma key_eq_of_recordLE {r r' : Record} (h : RecordLE r r') (h' : RecordLE r' r) :
    r.key = r'.key := by
  obtain ⟨hns, hle, hle'⟩ := tie_of_score recordLE_iff h h'
  rw [Record.key, Record.key, OrderDual.toDual_inj.1 hns, leString_antisymm hle hle']

/-- `sort.Slice` by namespace and id. -/
def sortRecords (records : List Record) : List Record := records.insertionSort RecordLE

lemma perm_sortRecords (records : List Record) : (sortRecords records).Perm records :=
  List.perm_insertionSort _ _

lemma mem_sortRecords {records : List Record} {r : Record} :
    r ∈ sortRecords records ↔ r ∈ records := (perm_sortRecords records).mem_iff

lemma sortRecords_eq_of_perm {records records' : List Record} (hperm : records.Perm records')
    (hnodup : (records.map Record.key).Nodup) : sortRecords records = sortRecords records' := by
  refine insertionSort_eq_of_perm hperm fun r hr r' hr' hle hle' => ?_
  exact List.inj_on_of_nodup_map hnodup hr hr' (key_eq_of_recordLE hle hle')

end GideonDB.Core
