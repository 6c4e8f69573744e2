/-
The files of a shard (`internal/storage/segmentfile`, `internal/engine/multisegment.go`).

A checkpoint is a manifest that refers to column files.  A file is written to a temporary
name, synced and renamed, so that a name holds either what it held before or all of the new
content; a file is modelled by what its reader decodes.  Legacy manifests of format 1 are left
out, the engine does not write them.
-/
import GideonDB.Metadata.Persistence
import GideonDB.Segment.Segment

namespace GideonDB.Engine

open Go GideonDB.Core

/-- The errors of the engine. -/
inductive Error
  /-- An error of the collection. -/
  | shard (cause : Segment.Error)
  /-- `core.ErrInvalidArgument` with a text. -/
  | invalidArgument (text : String)
  /-- `core.ErrReplicationCompacted`. -/
  | replicationCompacted
  /-- `core.ErrReplicationConflict`. -/
  | replicationConflict
  /-- `core.ErrReplicationGap`. -/
  | replicationGap (expected received : ℕ)
  /-- `core.ErrIdempotencyConflict`. -/
  | idempotencyConflict
  /-- `json.Marshal` fails. -/
  | json
  /-- A file operation fails. -/
  | io
  /-- `os.ErrNotExist`. -/
  | notExist
  /-- `metadata.LoadBinary` fails. -/
  | filter (cause : Metadata.LoadError)
  /-- `sparse_vector value for %q must be finite`. -/
  | sparseValue (term : GoString)
  /-- `record %d: %w`. -/
  | record (position : ℕ) (cause : Error)
  /-- `record %q dimension mismatch`. -/
  | recordDimension (id : GoString)
  /-- `batch partially committed before shard %d: %w`. -/
  | partialBatch (shardID : ℕ) (cause : Error)
  | text (text : String)
deriving DecidableEq

/-! ### Names -/

/-- What a file holds. -/
inductive Kind
  | records | vectors | tombstones | filter | graph | pq | diskann
deriving DecidableEq

/-- A file name without its suffix. -/
inductive Stem
  /-- `segment-%020d`, written by `InstallReplicaSnapshot`. -/
  | base (sequence : ℕ)
  /-- `segment-%020d-delta`. -/
  | delta (lsn : ℕ)
  /-- `segment-%020d-compact-%020d`. -/
  | compact (lsn sequence : ℕ)
  /-- `segment-%020d-view`. -/
  | segmentView (lsn : ℕ)
  /-- `view-%020d`. -/
  | view (lsn : ℕ)
deriving DecidableEq

/-- The name of a file. -/
structure FileName where
  stem : Stem
  kind : Kind
deriving DecidableEq

def FileName.orphanCandidate (name : FileName) : Bool :=
  match name.stem with
  | .view _ => false
  | _ => true

/-! ### Contents -/

/-- What a file holds.  The number of items of a column is in its header, and so is the LSN. -/
inductive Content
  /-- `storedRecord`s: records without their vectors. -/
  | records (lsn : ℕ) (items : List Record)
  | vectors (lsn dimension : ℕ) (items : List FloatVector)
  | tombstones (lsn : ℕ) (keys : List GoString)
  | filter (lsn count : ℕ) (data : Metadata.PersistedIndex)
  /-- An HNSW graph, of which only the dimension and the number of nodes matter here. -/
  | graph (dimension count : ℕ)
  /-- Product quantization data.  Readers do without it. -/
  | pq
  /-- A DiskANN file with its vectors. -/
  | diskann (dimension : ℕ) (tag : UInt64) (items : List FloatVector)

/-- A directory. -/
abbrev Files := GoMap FileName Content

/-- `SegmentRef`. -/
structure SegmentRef where
  records : FileName
  vectors : FileName
  graph : Option FileName
  filter : Option FileName
  tombstones : Option FileName
  dimension : ℕ
  maxLSN : ℕ
  recordCount : ℕ
  sizeBytes : ℕ

/-- The segments of a manifest. -/
inductive Layout
  /-- Format 2: one bundle of columns. -/
  | column (records vectors : FileName)
  /-- Format 3: segments from the oldest to the newest. -/
  | segments (refs : List SegmentRef)

/-- `Manifest`. -/
structure Manifest where
  layout : Layout
  graph : Option FileName
  filter : Option FileName
  pq : Option FileName
  dimension : ℕ
  maxLSN : ℕ
  recordCount : ℕ

/-- The files of a segment. -/
def SegmentRef.names (ref : SegmentRef) : List FileName :=
  [ref.records, ref.vectors] ++ ref.graph.toList ++ ref.filter.toList ++ ref.tombstones.toList

/-- The names that `CleanupOrphans` takes for referenced. -/
def Manifest.referenced (manifest : Manifest) : List FileName :=
  manifest.graph.toList ++ manifest.filter.toList ++ manifest.pq.toList ++
    match manifest.layout with
    | .column records vectors => [records, vectors]
    | .segments refs => refs.flatMap SegmentRef.names

/-- The checks that `LoadManifest` makes of the segments, given the LSN before. -/
def checkSegments (manifest : Manifest) : ℕ → Option ℕ → List SegmentRef → Except Error Unit
  | _, previous, [] =>
    if previous = some manifest.maxLSN then .ok ()
    else .error (.text "multi-segment manifest LSN mismatch")
  | position, previous, ref :: refs =>
    if ref.dimension ≠ manifest.dimension ∨ previous.any (ref.maxLSN ≤ ·) ∨
        manifest.maxLSN < ref.maxLSN then
      .error (.text s!"invalid multi-segment entry {position}")
    else checkSegments manifest (position + 1) (some ref.maxLSN) refs

/-- `LoadManifest` on a manifest that exists.  Its names are as the engine makes them, so the
checks of names are left out. -/
def checkManifest (manifest : Manifest) : Except Error Unit :=
  match manifest.layout with
  | .column _ _ =>
    if manifest.dimension = 0 then .error (.text "invalid column segment manifest") else .ok ()
  | .segments refs =>
    if refs = [] ∨ 16 < refs.length ∨ manifest.dimension = 0 then
      .error (.text "invalid multi-segment manifest")
    else checkSegments manifest 0 none refs

/-! ### Reading columns -/

section Read

variable (files : Files)

/-- `ReadRecords`. -/
def readRecords (name : FileName) : Except Error (ℕ × List Record) :=
  match files.get name with
  | some (.records lsn items) => .ok (lsn, items)
  | some _ => .error (.text "invalid column magic")
  | none => .error .notExist

/-- `ReadVectors`. -/
def readVectors (name : FileName) (dimension : ℕ) : Except Error (ℕ × List FloatVector) :=
  match files.get name with
  | some (.vectors lsn dimension' items) =>
    if dimension' = dimension then .ok (lsn, items)
    else .error (.text "column dimension mismatch")
  | some _ => .error (.text "invalid column magic")
  | none => .error .notExist

/-- `ReadBundle`. -/
def readBundle (records vectors : FileName) (dimension maxLSN recordCount : ℕ) :
    Except Error (List Record) := do
  let (recordLSN, stored) ← readRecords files records
  let (vectorLSN, items) ← readVectors files vectors dimension
  if stored.length ≠ recordCount ∨ items.length ≠ recordCount ∨ recordLSN ≠ maxLSN ∨
      vectorLSN ≠ maxLSN then
    .error (.text "column bundle manifest mismatch")
  else
    .ok (List.zipWith (fun (record : Record) vector => { record with vector := vector })
      stored items)

def readRecordColumn (records : FileName) (maxLSN recordCount : ℕ) :
    Except Error (List Record) := do
  let (recordLSN, stored) ← readRecords files records
  if stored.length ≠ recordCount ∨ recordLSN ≠ maxLSN then
    .error (.text "record column manifest mismatch")
  else .ok stored

def openMappedVectors (vectors : FileName) (dimension recordCount maxLSN : ℕ) :
    Except Error (List FloatVector) := do
  let (vectorLSN, items) ← readVectors files vectors dimension
  if items.length ≠ recordCount ∨ vectorLSN ≠ maxLSN then
    .error (.text "mapped vector column manifest mismatch")
  else .ok items

/-- The keys of a tombstone file are not empty, and each is greater than the one before. -/
def checkKeys : Option GoString → List GoString → Bool
  | _, [] => true
  | previous, key :: keys =>
    key ≠ [] && previous.all (fun previous => !leString key previous) && checkKeys (some key) keys

/-- `ReadTombstones`. -/
def readTombstones (name : FileName) (maxLSN : ℕ) : Except Error (List GoString) :=
  match files.get name with
  | some (.tombstones lsn keys) =>
    if lsn ≠ maxLSN then .error (.text "tombstone LSN mismatch")
    else if checkKeys none keys then .ok keys
    else .error (.text "tombstones must be unique and sorted")
  | some _ => .error (.text "invalid column magic")
  | none => .error .notExist

/-- The tombstones of a segment, if it has a file for them. -/
def refTombstones (ref : SegmentRef) : Except Error (List GoString) :=
  match ref.tombstones with
  | some name => readTombstones files name ref.maxLSN
  | none => .ok []

/-- `ReadFilter`. -/
def readFilter (name : FileName) (maxLSN recordCount : ℕ) :
    Except Error Metadata.PersistedIndex :=
  match files.get name with
  | some (.filter lsn count data) =>
    if count = recordCount ∧ lsn = maxLSN then .ok data
    else .error (.text "filter index manifest mismatch")
  | some _ => .error (.text "invalid column magic")
  | none => .error .notExist

/-! ### Reading segments -/

/-- One segment of `materializeSegments`: its records are set, then its tombstones deleted. -/
def materializeStep (acc : GoMap GoString Record × GoMap GoString Unit) (ref : SegmentRef) :
    Except Error (GoMap GoString Record × GoMap GoString Unit) := do
  let items ← readBundle files ref.records ref.vectors ref.dimension ref.maxLSN ref.recordCount
  let keys ← refTombstones files ref
  .ok ((acc.1.setAll (entriesOf items)).deleteAll keys,
    (acc.2.deleteAll ((entriesOf items).map Prod.fst)).setAll (keys.map fun key => (key, ())))

def materializeSegments (refs : List SegmentRef) : Except Error (List Record × List GoString) := do
  let (records, deleted) ← refs.foldlM (materializeStep files) (.empty, .empty)
  .ok (sortRecords (records.toList.map Prod.snd), sortStrings deleted.keys)

/-- `selectedRecord`: a record and where its vector is. -/
structure Selected where
  record : Record
  segment : ℕ
  ordinal : ℕ

/-- Where each record is. -/
def selectedEntries (segment : ℕ) (items : List Record) : List (GoString × Selected) :=
  items.zipIdx.map fun item => (item.1.key, ⟨item.1, segment, item.2⟩)

/-- One segment is resolved. -/
def resolveStep (acc : GoMap GoString Selected) (ref : SegmentRef × ℕ) :
    Except Error (GoMap GoString Selected) := do
  let items ← readRecordColumn files ref.1.records ref.1.maxLSN ref.1.recordCount
  let keys ← refTombstones files ref.1
  .ok ((acc.setAll (selectedEntries ref.2 items)).deleteAll keys)

/-- `resolveMappedSegments`, with the locations in the values. -/
def resolveMappedSegments (refs : List SegmentRef) : Except Error (List Selected) := do
  let selected ← refs.zipIdx.foldlM (resolveStep files) .empty
  .ok ((selected.toList.map Prod.snd).insertionSort fun a b => RecordLE a.record b.record)

/-- The vector there. -/
def vectorOf (sources : List (List FloatVector)) (value : Selected) : Option FloatVector :=
  sources[value.segment]?.bind (·[value.ordinal]?)

/-- `OpenCompositeMappedVectors`: the vectors by position. -/
def openCompositeMappedVectors (refs : List SegmentRef) (values : List Selected) :
    Except Error (ℕ → FloatVector) := do
  if refs = [] then .error (.text "composite mapping requires at least one segment")
  else if refs.any (fun ref => some ref.dimension ≠ refs.head?.map SegmentRef.dimension) then
    .error (.text "composite vector dimension mismatch")
  else do
    let sources ← refs.mapM fun ref =>
      openMappedVectors files ref.vectors ref.dimension ref.recordCount ref.maxLSN
    if values.any (fun value => (vectorOf sources value).isNone) then
      .error (.text "invalid composite vector location")
    else .ok fun position => (values[position]?.bind (vectorOf sources)).getD []

end Read

end GideonDB.Engine
