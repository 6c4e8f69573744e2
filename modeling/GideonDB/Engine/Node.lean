/-
The engine operations on one shard (`internal/engine/engine.go`, `internal/wal/wal.go`,
`internal/engine/idempotency.go`), as programs of file operations.

The state is what the engine has in memory for the shard together with its files.  Reads of
files do not fail.  An append that fails leaves the log as it was: the rollback is taken to
succeed.  The temporary files of atomic writes are left out, and so are pinned readers.
Records to upsert come as `PrepareUpsert` returns them.
-/
import GideonDB.Engine.Compaction
import GideonDB.Engine.Mutation
import GideonDB.Store.Program

namespace GideonDB.Engine

open Go GideonDB.Core Segment Store
open Prog (update state ofExcept file)

/-! ### State -/

/-- `idempotencyEntry`, without its key. -/
structure LedgerEntry where
  digest : ℕ
  records : List Record
  completed : Bool
  sequence : ℕ

/-- What a shard has on disk. -/
structure Disk where
  wal : List WalRecord
  manifest : Option Manifest
  files : Files
  /-- The idempotency ledger. -/
  ledger : GoMap GoString LedgerEntry

/-- The manifest's LSN. -/
def Disk.checkpoint (disk : Disk) : ℕ := (disk.manifest.map Manifest.maxLSN).getD 0

/-- A keyed batch that was appended to the log. -/
structure Commit where
  key : GoString
  records : List Record
  sequence : ℕ

/-- A shard of the engine. -/
structure Node where
  shard : Shard
  nextLSN : ℕ
  checkpointLSN : ℕ
  /-- Mutations since the last checkpoint. -/
  mutations : ℕ
  /-- `walDigests`. -/
  digests : GoMap ℕ ℕ
  /-- `idempotency`. -/
  ledger : GoMap GoString LedgerEntry
  disk : Disk
  /-- Not part of the program: the keyed batches in the order of their appends. -/
  commits : List Commit

/-- A program on a node. -/
abbrev Action (α : Type) := Prog Node Error α

namespace Node

/-- An empty directory. -/
def new (env : Env) : Node where
  shard := Shard.new env.config
  nextLSN := 1
  checkpointLSN := 0
  mutations := 0
  digests := .empty
  ledger := .empty
  disk := ⟨[], none, .empty, .empty⟩
  commits := []

/-- `LastLSN`. -/
def lastLSN (n : Node) : ℕ := n.nextLSN - 1

/-- Writes a file. -/
def setFile (name : FileName) (content : Content) (n : Node) : Node :=
  { n with disk := { n.disk with files := n.disk.files.set name content } }

/-- Removes a file. -/
def removeFile (name : FileName) (n : Node) : Node :=
  { n with disk := { n.disk with files := n.disk.files.delete name } }

/-- A new manifest. -/
def setManifest (manifest : Manifest) (n : Node) : Node :=
  { n with disk := { n.disk with manifest := some manifest } }

/-- Replaces the log. -/
def setWal (wal : List WalRecord) (n : Node) : Node := { n with disk := { n.disk with wal := wal } }

/-- A new ledger file. -/
def setLedgerFile (ledger : GoMap GoString LedgerEntry) (n : Node) : Node :=
  { n with disk := { n.disk with ledger := ledger } }

/-- Changes the shard. -/
def setShard (f : Shard → Shard) (n : Node) : Node := { n with shard := f n.shard }

end Node

/-! ### The log -/

/-- `Log.Append`, write and sync in one file operation.  `rollbackLocked` ignores its errors; here
it succeeds (what follows if it does not is in `Wal.Rollback`). -/
def append (env : Env) (mutation : Mutation) : Action ℕ := do
  match env.encode mutation with
  | none => .throw .json
  | some payload =>
    if env.fits payload = false then .throw (.text "WAL payload exceeds 67108864 bytes")
    else do
      let n ← state
      let ok ← Prog.attempt fun n' => n'.setWal (n.disk.wal ++ [⟨n.nextLSN, payload⟩])
      if ok then do
        update fun n' => { n' with nextLSN := n.nextLSN + 1 }
        pure n.nextLSN
      else do
        update fun n' => n'.setWal n.disk.wal
        .throw .io

/-- `Log.Reset`. -/
def reset : ℕ → Action Unit
  | 0 => .throw (.text "next LSN must be positive")
  | last + 1 => do
      file .io (Node.setWal [])
      file .io id
      update fun n => { n with nextLSN := last + 1 }

/-! ### Writing files -/

section Write

variable (env : Env)

/-- `writeAtomic`. -/
def writeFile (name : FileName) (content : Content) : Action Unit :=
  file .io (Node.setFile name content)

/-- `SaveManifest`. -/
def saveManifest (manifest : Manifest) : Action Unit := file .io (Node.setManifest manifest)

/-- `WriteBundle`. -/
def writeBundle (stem : Stem) (records : List Record) (maxLSN : ℕ) : Action Unit :=
  if env.config.dimension = 0 then .throw (.text "invalid vector dimension 0")
  else
    match records.find? (fun record => record.vector.length ≠ env.config.dimension) with
    | some record => .throw (.recordDimension record.id)
    | none =>
      match records.mapM (fun record => env.codec (withoutVector record)) with
      | none => .throw .json
      | some stored => do
          writeFile ⟨stem, .records⟩ (.records maxLSN stored)
          writeFile ⟨stem, .vectors⟩
            (.vectors maxLSN env.config.dimension (records.map Record.vector))

/-- The size of the files. -/
def statAll (names : List FileName) : Action ℕ := do
  let n ← state
  match names.mapM n.disk.files.get with
  | some contents => pure (contents.map env.fileSize).sum
  | none => .throw .notExist

def writeTombstones (stem : Stem) (tombstones : List GoString) (maxLSN : ℕ) :
    Action (Option FileName) :=
  if tombstones = [] then pure none
  else do
    writeFile ⟨stem, .tombstones⟩ (.tombstones maxLSN (tombstones.map coerceUTF8))
    pure (some ⟨stem, .tombstones⟩)

def writeSegmentRef (stem : Stem) (records : List Record) (tombstones : List GoString)
    (maxLSN : ℕ) : Action SegmentRef := do
  writeBundle env stem records maxLSN
  let name ← writeTombstones stem tombstones maxLSN
  let sizeBytes ← statAll env ([⟨stem, .records⟩, ⟨stem, .vectors⟩] ++ name.toList)
  pure ⟨⟨stem, .records⟩, ⟨stem, .vectors⟩, none, none, name, env.config.dimension, maxLSN,
    records.length, sizeBytes⟩

def refFromManifest (manifest : Manifest) (records vectors : FileName) : Action SegmentRef := do
  let sizeBytes ← statAll env
    ([records, vectors] ++ manifest.graph.toList ++ manifest.filter.toList)
  pure ⟨records, vectors, manifest.graph, manifest.filter, none, manifest.dimension,
    manifest.maxLSN, manifest.recordCount, sizeBytes⟩

/-- The last part of `compactSegmentRefs`: the merged segment in the place of its inputs. -/
def replaceRefs (refs : List SegmentRef) (selected : SegmentRef → Bool) (merged : SegmentRef) :
    List SegmentRef :=
  let remaining := refs.filter fun ref => !selected ref
  let insertAt := (refs.takeWhile fun ref => !selected ref).length
  remaining.take insertAt ++ merged :: remaining.drop insertAt

def compactSegmentRefs (refs : List SegmentRef) (sequence : ℕ) : Action (List SegmentRef) := do
  let plan ← ofExcept (Compaction.defaultPolicy.select
    (refs.map fun ref => ⟨ref.records, ref.maxLSN, ref.sizeBytes⟩))
  if plan = [] then pure refs
  else do
    let selected : SegmentRef → Bool := fun ref =>
      (plan.map Compaction.Segment.id).contains ref.records
    let inputs := refs.filter selected
    let n ← state
    let (records, tombstones) ← ofExcept (materializeSegments n.disk.files inputs)
    let maxLSN := (inputs.getLast?.map SegmentRef.maxLSN).getD 0
    let merged ← writeSegmentRef env (.compact maxLSN sequence) records tombstones maxLSN
    pure (replaceRefs refs selected merged)

/-- It gets a PQ index. -/
def usesPQ (count : ℕ) : Bool :=
  env.config.indexType = .flat && env.productQuantization && 1024 ≤ count

/-- The checks of `buildViewPQ`.  The training itself is left out. -/
def buildViewPQ (refs : List SegmentRef) (records : List Record) : Action Unit := do
  let n ← state
  let values ← ofExcept (resolveMappedSegments n.disk.files refs)
  if values.all fun value => (records.map Record.key).contains value.record.key then pure ()
  else .throw (.text "multi-segment view record missing from live records")

/-- The index files of a view, by name, and the filter index as it is decoded. -/
structure Indexes where
  filter : FileName
  graph : Option FileName
  pq : Option FileName
  data : Metadata.PersistedIndex

/-- `diskANNTag`. -/
def diskANNTag (records : List Record) : UInt64 :=
  fnv64a (records.flatMap fun record => record.key ++ [0xff])

/-- The HNSW graph. -/
def writeGraph (name : FileName) (records : List Record) : Action (Option FileName) :=
  if env.config.indexType = .hnsw then
    if records.all fun record => record.vector.length = env.config.dimension then do
      writeFile name (.graph env.config.dimension records.length)
      pure (some name)
    else .throw (.shard .dimensionMismatch)
  else pure none

/-- The DiskANN graph. -/
def writeDiskANN (name : FileName) (records : List Record) (current : Option FileName) :
    Action (Option FileName) :=
  if env.config.indexType ≠ .diskann ∨ records = [] then pure current
  else if records.all fun record => record.vector.length = env.config.dimension then do
    writeFile name (.diskann env.config.dimension (diskANNTag records) (records.map Record.vector))
    pure (some name)
  else .throw (.shard .dimensionMismatch)

/-- The PQ index. -/
def writePQ (name : FileName) (check : Action Unit) (count : ℕ) : Action (Option FileName) :=
  if usesPQ env count then do
    check
    writeFile name .pq
    pure (some name)
  else pure none

/-- The index files that a checkpoint and a snapshot write: filter, graph, PQ and DiskANN. -/
def writeIndexes (stem diskannStem : Stem) (checkPQ : Action Unit) (records : List Record)
    (maxLSN : ℕ) : Action Indexes := do
  match Metadata.Index.marshalRecords env.lib (records.map Record.metadata) with
  | none => .throw .json
  | some file => do
      writeFile ⟨stem, .filter⟩ (.filter maxLSN records.length (file.throughJSON env.lib))
      let graph ← writeGraph env ⟨stem, .graph⟩ records
      let pq ← writePQ env ⟨stem, .pq⟩ checkPQ records.length
      let graph ← writeDiskANN env ⟨diskannStem, .diskann⟩ records graph
      pure ⟨⟨stem, .filter⟩, graph, pq, file.throughJSON env.lib⟩

/-- File after file. -/
def removeAll : List FileName → Action Unit
  | [] => pure ()
  | name :: names => do
      file .io (Node.removeFile name)
      removeAll names

/-- `CleanupOrphans`. -/
def cleanupOrphans (manifest : Manifest) : Action Unit := do
  let n ← state
  removeAll (n.disk.files.keys.filter fun name =>
    !manifest.referenced.contains name && name.orphanCandidate)

end Write

/-! ### Building the immutable segment -/

section Base

variable (env : Env)

/-- An error of a segment. -/
def ofSegment : Except Segment.Error Segment → Except Error Segment
  | .ok s => .ok s
  | .error err => .error (.shard err)

/-- All are of this shard. -/
def allRouted (records : List Record) : Bool :=
  records.all fun record => env.routesHere record.ns record.id

/-- `InstallRecordsShardWithPQ`: the segment it installs. -/
def recordsBase (records : List Record) (metadataIndex : Option Metadata.Index) :
    Except Error Segment :=
  if allRouted env records then ofSegment (newImmutable env.lib env.config records metadataIndex)
  else .error (.text "snapshot record routed to wrong shard")

/-- `InstallMappedShardWithPQ`: the segment it installs. -/
def mappedBase (dimension : ℕ) (records : List Record) (vectorAt : ℕ → FloatVector)
    (metadataIndex : Option Metadata.Index) : Except Error Segment :=
  if allRouted env records = false then
    .error (.text "mapped segment record routed to wrong shard")
  else if dimension ≠ env.config.dimension then
    .error (.invalidArgument "mapped source dimension mismatch")
  else ofSegment (newMapped env.lib env.config records vectorAt metadataIndex)

/-- `InstallHNSWShardWithMetadata`: the segment it installs. -/
def hnswBase (records : List Record) (dimension count : ℕ)
    (metadataIndex : Option Metadata.Index) : Except Error Segment :=
  if env.config.indexType ≠ .hnsw then
    .error (.invalidArgument "graph checkpoints require an hnsw index")
  else if allRouted env records = false then
    .error (.text "hnsw segment record routed to wrong shard")
  else if count ≠ records.length then
    .error (.text "hnsw graph length or record count mismatch")
  else if dimension ≠ env.config.dimension then
    .error (.text "hnsw graph configuration mismatch")
  else if records.all fun record => record.vector.length = env.config.dimension then
    ofSegment (newHNSWFromGraph env.lib env.config records metadataIndex)
  else .error (.text "invalid hnsw graph node")

/-- `InstallDiskANNShardWithMetadata`: the segment it installs. -/
def diskANNBase (files : Files) (name : FileName) (records : List Record)
    (metadataIndex : Option Metadata.Index) : Except Error Segment :=
  if allRouted env records = false then
    .error (.text "diskann segment record routed to wrong shard")
  else
    match files.get name with
    | some (.diskann dimension tag items) =>
      if dimension ≠ env.config.dimension ∨ items.length ≠ records.length ∨
          tag ≠ diskANNTag records then
        .error (.text "diskann file does not match its segment")
      else
        .ok (newDiskANN env.lib env.config records (fun position => (items[position]?).getD [])
          metadataIndex)
    | some _ => .error (.text "invalid diskann magic")
    | none => .error .notExist

/-- The mapped segment of a list of segments. -/
def compositeBase (files : Files) (refs : List SegmentRef)
    (metadataIndex : Option Metadata.Index) : Except Error Segment := do
  let values ← resolveMappedSegments files refs
  let vectorAt ← openCompositeMappedVectors files refs values
  mappedBase env ((refs.head?.map SegmentRef.dimension).getD 0) (values.map Selected.record)
    vectorAt metadataIndex

/-- `LoadBinary` on the filter data of a manifest. -/
def loadFilter (data : Metadata.PersistedIndex) (count : ℕ) : Except Error Metadata.Index :=
  match Metadata.loadBinary env.lib data count with
  | .ok idx => .ok idx
  | .error err => .error (.filter err)

end Base

/-! ### Checkpoints -/

section Checkpoint

variable (env : Env)

/-- `LoadManifest`. -/
def loadManifest (disk : Disk) : Except Error (Option Manifest) :=
  match disk.manifest with
  | none => .ok none
  | some manifest => do
      checkManifest manifest
      .ok (some manifest)

lemma loadManifest_eq_ok {disk : Disk} {manifest : Option Manifest} :
    loadManifest disk = .ok manifest ↔
      disk.manifest = manifest ∧ ∀ m, disk.manifest = some m → checkManifest m = .ok () := by
  rw [loadManifest]
  cases disk.manifest with
  | none => simp
  | some m =>
    change (checkManifest m >>= fun _ => .ok (some m)) = .ok manifest ↔ _
    cases hcheck : checkManifest m with
    | error err =>
      constructor
      · intro h
        cases h
      · rintro ⟨-, h⟩
        have := hcheck.symm.trans (h m rfl)
        cases this
    | ok _ =>
      constructor
      · intro h
        cases h
        exact ⟨rfl, fun m' hm' => by cases hm'; exact hcheck⟩
      · rintro ⟨rfl, -⟩
        rfl

/-- The segments so far. -/
def oldRefs : Option Manifest → Action (List SegmentRef)
  | none => pure []
  | some manifest =>
    match manifest.layout with
    | .column records vectors => do
        let ref ← refFromManifest env manifest records vectors
        pure [ref]
    | .segments refs => pure refs

/-- The segments of the new manifest: those before, the changes since then, compacted. -/
def stageSegments (old : Option Manifest) (delta : List Record) (tombstones : List GoString)
    (maxLSN : ℕ) : Action (List SegmentRef) := do
  let refs ← oldRefs env old
  if old.isNone ∨ delta ≠ [] ∨ tombstones ≠ [] then do
    let ref ← writeSegmentRef env (.delta maxLSN) delta tombstones maxLSN
    compactSegmentRefs env (refs ++ [ref]) maxLSN
  else compactSegmentRefs env refs maxLSN

/-- A checkpoint that is ready to be published. -/
structure Plan where
  refs : List SegmentRef
  records : List Record
  indexes : Indexes
  maxLSN : ℕ

/-- The manifest to publish. -/
def Plan.manifest (plan : Plan) : Manifest where
  layout := .segments plan.refs
  graph := plan.indexes.graph
  filter := some plan.indexes.filter
  pq := plan.indexes.pq
  dimension := env.config.dimension
  maxLSN := plan.maxLSN
  recordCount := plan.records.length

/-- It lists segments. -/
def Manifest.isMulti (manifest : Manifest) : Bool :=
  match manifest.layout with
  | .segments _ => true
  | .column _ _ => false

/-- The files of a checkpoint: its segments and the indexes over the whole view. -/
def stageCheckpoint (old : Option Manifest) (delta : List Record) (tombstones : List GoString)
    (records : List Record) (maxLSN : ℕ) : Action Plan := do
  let refs ← stageSegments env old delta tombstones maxLSN
  let indexes ← writeIndexes env (.view maxLSN) (.segmentView maxLSN) (buildViewPQ refs records)
    records maxLSN
  pure ⟨refs, records, indexes, maxLSN⟩

/-- The manifest is up to date: there is nothing to checkpoint. -/
def upToDate (old : Option Manifest) (lastLSN : ℕ) (delta : List Record)
    (tombstones : List GoString) : Bool :=
  old.any (fun manifest => manifest.isMulti && lastLSN = manifest.maxLSN) && delta.isEmpty &&
    tombstones.isEmpty

/-- `checkpointShardLocked` up to `SaveManifest`. -/
def prepareCheckpoint : Action (Option Plan) := do
  file .io id
  let n ← state
  if n.lastLSN < n.checkpointLSN then .throw (.text "WAL LSN regressed below checkpoint")
  else do
    let old ← ofExcept (loadManifest n.disk)
    if upToDate old n.lastLSN n.shard.checkpointDelta.1 n.shard.checkpointDelta.2 then pure none
    else do
      let plan ← stageCheckpoint env old n.shard.checkpointDelta.1 n.shard.checkpointDelta.2
        n.shard.list n.lastLSN
      pure (some plan)

/-- The immutable segment of a checkpoint. -/
def checkpointBase (files : Files) (plan : Plan) (metadataIndex : Metadata.Index) :
    Except Error Segment :=
  match env.config.indexType, plan.indexes.graph with
  | .hnsw, _ =>
    hnswBase env plan.records env.config.dimension plan.records.length (some metadataIndex)
  | .diskann, some name => diskANNBase env files name plan.records (some metadataIndex)
  | .diskann, none => recordsBase env plan.records (some metadataIndex)
  | .flat, _ => compositeBase env files plan.refs (some metadataIndex)

/-- The last part of `checkpointShardLocked`: the checkpoint becomes the immutable segment. -/
def installCheckpoint (plan : Plan) : Action Unit := do
  update fun n => { n with digests := .empty }
  let metadataIndex ← ofExcept (loadFilter env plan.indexes.data plan.records.length)
  let n ← state
  let base ← ofExcept (checkpointBase env n.disk.files plan metadataIndex)
  update fun n => { n.setShard (·.installImmutable base) with
    checkpointLSN := plan.maxLSN
    mutations := 0 }
  cleanupOrphans (plan.manifest env)

/-- `checkpointShardLocked` from `SaveManifest` on. -/
def publishCheckpoint (plan : Plan) : Action Unit := do
  saveManifest (plan.manifest env)
  reset (plan.maxLSN + 1)
  installCheckpoint env plan

/-- `checkpointShardLocked`. -/
def checkpointShard : Action Unit := do
  match ← prepareCheckpoint env with
  | none => pure ()
  | some plan => publishCheckpoint env plan

/-- `afterMutationLocked`, with the number of mutations. -/
def afterMutation (count : ℕ) : Action Unit := do
  update fun n => { n with mutations := n.mutations + count }
  let n ← state
  if 0 < env.checkpointEvery ∧ env.checkpointEvery ≤ n.mutations then checkpointShard env
  else pure ()

end Checkpoint

/-! ### Mutations -/

section Mutations

variable (env : Env)

/-- A write in memory. -/
def mutateShard (f : Shard → Shard × Option Segment.Error) : Action Unit := do
  let n ← state
  update (Node.setShard fun sh => (f sh).1)
  match (f n.shard).2 with
  | none => pure ()
  | some err => .throw (.shard err)

/-- `ApplyUpsert` of each record. -/
def upsertAll : List Record → Action Unit
  | [] => pure ()
  | record :: records => do
      mutateShard fun sh => sh.upsert env.lib record
      upsertAll records

/-- `Restore` of each record. -/
def restoreAll : List Record → Action Unit
  | [] => pure ()
  | record :: records => do
      ofExcept (validateRecord env.config record)
      mutateShard fun sh => sh.upsert env.lib record
      restoreAll records

/-- `Upsert`. -/
def upsert (record : Record) : Action Record := do
  let _ ← append env (.upsert record)
  mutateShard fun sh => sh.upsert env.lib record
  afterMutation env 1
  pure record

/-- The part of `BatchUpsert` for one shard, and `BatchUpsertShardIdempotent` without a key. -/
def batchUpsert (records : List Record) : Action (List Record × ℕ) := do
  let sequence ← append env (.batchUpsert records)
  upsertAll env records
  afterMutation env records.length
  pure (records, sequence)

/-- `Delete` and `DeleteShardWithSequence`. -/
def delete (ns id : GoString) : Action ℕ := do
  let n ← state
  match n.shard.get ns id with
  | .error err => .throw (.shard err)
  | .ok _ => do
      let sequence ← append env (.delete ns id)
      mutateShard fun sh => sh.delete env.lib ns id
      afterMutation env 1
      pure sequence

/-- The JSON form of a ledger entry as it is decoded. -/
def encodeEntry (entry : GoString × LedgerEntry) : Option (GoString × LedgerEntry) :=
  (entry.2.records.mapM env.codec).map fun records => (entry.1, { entry.2 with records := records })

/-- The ledger through JSON. -/
def encodeLedger (ledger : GoMap GoString LedgerEntry) : Option (GoMap GoString LedgerEntry) :=
  (ledger.toList.mapM (encodeEntry env)).map GoMap.empty.setAll

/-- `persistIdempotencyLocked`, and whether it succeeds. -/
def persistIdempotency : Action Bool := do
  let n ← state
  match encodeLedger env n.ledger with
  | none => pure false
  | some ledger => Prog.attempt (Node.setLedgerFile ledger)

/-- `commitReservedBatchLocked`. -/
def commitReservedBatch (key : GoString) (entry : LedgerEntry) : Action (List Record × ℕ) := do
  let sequence ← append env (.batchUpsert entry.records)
  update fun n => { n with commits := n.commits ++ [⟨key, entry.records, sequence⟩] }
  restoreAll env entry.records
  update fun n => { n with
    ledger := n.ledger.set key { entry with completed := true, sequence := sequence } }
  let ok ← persistIdempotency env
  if ok then do
    afterMutation env entry.records.length
    pure (entry.records, sequence)
  else .throw .io

def keyByte (b : UInt8) : Bool :=
  (48 ≤ b && b ≤ 57) || (65 ≤ b && b ≤ 90) || (97 ≤ b && b ≤ 122) || b = 46 || b = 95 || b = 58 ||
    b = 45

def validIdempotencyKey (key : GoString) : Bool :=
  key.all keyByte && key.length ≤ 128 &&
    key.head?.any fun b => b ≠ 46 && b ≠ 95 && b ≠ 58 && b ≠ 45

/-- `BatchUpsertShardIdempotent` with a key of the ledger. -/
def retryBatch (key : GoString) (request : List Record) (retained : LedgerEntry) :
    Action (List Record × ℕ) :=
  if retained.digest ≠ env.requestDigest request then .throw .idempotencyConflict
  else if retained.completed then pure (retained.records, retained.sequence)
  else commitReservedBatch env key retained

/-- `BatchUpsertShardIdempotent` with a new key: the entry is stored before the batch is
committed. -/
def reserveBatch (key : GoString) (entry : LedgerEntry) : Action (List Record × ℕ) := do
  update fun n => { n with ledger := n.ledger.set key entry }
  let ok ← persistIdempotency env
  if ok then commitReservedBatch env key entry
  else do
    update fun n => { n with ledger := n.ledger.delete key }
    .throw .io

/-- `BatchUpsertShardIdempotent` with a key: the request, and its records as `PrepareUpsert`
returns them. -/
def batchUpsertIdempotent (key : GoString) (request prepared : List Record) :
    Action (List Record × ℕ) := do
  if validIdempotencyKey key = false then
    .throw (.invalidArgument ("Idempotency-Key must be 1-128 characters using letters, " ++
      "digits, '.', '_', ':', or '-'"))
  else do
    let n ← state
    match n.ledger.get key with
    | some retained => retryBatch env key request retained
    | none => reserveBatch env key ⟨env.requestDigest request, prepared, false, 0⟩

end Mutations

/-! ### Replicas -/

section Replica

variable (env : Env)

/-- The checks of one record of a replica batch. -/
def checkReplicaRecord (item : Record × ℕ) : Except Error Unit :=
  if item.1.id = [] ∨ item.1.version = 0 ∨ item.1.timestamp = 0 ∨
      env.routesHere item.1.ns item.1.id = false then
    .error (.invalidArgument "invalid prepared replica record")
  else
    match validateRecord env.config item.1 with
    | .ok () => .ok ()
    | .error err => .error (.record item.2 err)

/-- What a replica does with a mutation at a sequence: a repeated one is compared with the
retained digest, a later one than the next is refused. -/
def applyReplica (sequence : ℕ) (mutation : Mutation) (apply : Action Unit) (count : ℕ) :
    Action Unit := do
  match env.encode mutation with
  | none => .throw .json
  | some payload => do
      let n ← state
      if sequence ≤ n.lastLSN then
        match n.digests.get sequence with
        | none => .throw .replicationCompacted
        | some retained =>
          if retained ≠ env.digest payload then .throw .replicationConflict else pure ()
      else if sequence ≠ n.lastLSN + 1 then
        .throw (.replicationGap (n.lastLSN + 1) sequence)
      else do
        let _ ← append env mutation
        apply
        update fun n => { n with
          digests := n.digests.set sequence (env.digest payload)
          mutations := n.mutations + count }

def applyReplicaBatch (sequence : ℕ) (records : List Record) : Action Unit := do
  if sequence = 0 ∨ records = [] ∨ 10000 < records.length then
    .throw (.invalidArgument "invalid replica batch")
  else do
    ofExcept (records.zipIdx.forM (checkReplicaRecord env))
    applyReplica env sequence (.batchUpsert records) (restoreAll env records) records.length

/-- `ApplyDelete` where a missing record is no error. -/
def deleteIfPresent (ns id : GoString) : Action Unit :=
  mutateShard fun sh =>
    match sh.delete env.lib ns id with
    | (sh, some .notFound) => (sh, none)
    | result => result

def applyReplicaDelete (sequence : ℕ) (ns id : GoString) : Action Unit := do
  if sequence = 0 ∨ id = [] then .throw (.invalidArgument "invalid replica delete")
  else if env.routesHere ns id = false then
    .throw (.invalidArgument "delete does not route to shard")
  else applyReplica env sequence (.delete ns id) (deleteIfPresent env ns id) 1

def exportReplicaSnapshot (n : Node) : ℕ × List Record := (n.lastLSN, n.shard.list)

/-- The checks of one record of a snapshot, with the keys seen before. -/
def checkSnapshotRecord (seen : GoMap GoString Unit) (item : Record × ℕ) :
    Except Error (GoMap GoString Unit) :=
  if item.1.id = [] ∨ item.1.version = 0 ∨ item.1.timestamp = 0 ∨
      env.routesHere item.1.ns item.1.id = false then
    .error (.invalidArgument "invalid snapshot record")
  else if seen.has item.1.key then .error (.invalidArgument "duplicate snapshot record")
  else
    match validateRecord env.config item.1 with
    | .ok () => .ok (seen.set item.1.key ())
    | .error err => .error (.record item.2 err)

/-- A snapshot's manifest. -/
def snapshotManifest (sequence : ℕ) (records : List Record) (indexes : Indexes) : Manifest where
  layout := .column ⟨.base sequence, .records⟩ ⟨.base sequence, .vectors⟩
  graph := indexes.graph
  filter := some indexes.filter
  pq := indexes.pq
  dimension := env.config.dimension
  maxLSN := sequence
  recordCount := records.length

/-- `InstallReplicaSnapshot` up to `SaveManifest`. -/
def prepareSnapshot (sequence : ℕ) (records : List Record) : Action Indexes := do
  let n ← state
  if sequence = 0 then .throw (.invalidArgument "snapshot sequence must be positive")
  else if sequence < n.lastLSN then .throw .replicationConflict
  else do
    let _ ← ofExcept (records.zipIdx.foldlM (checkSnapshotRecord env) .empty)
    let _ ← ofExcept (loadManifest n.disk)
    writeBundle env (.base sequence) records sequence
    writeIndexes env (.base sequence) (.base sequence) (pure ()) records sequence

/-- A snapshot's segment. -/
def snapshotBase (files : Files) (records : List Record) (indexes : Indexes) :
    Except Error Segment :=
  match env.config.indexType, indexes.graph with
  | .diskann, some name => do
      let metadataIndex ← loadFilter env indexes.data records.length
      diskANNBase env files name records (some metadataIndex)
  | _, _ => recordsBase env records none

/-- `InstallReplicaSnapshot` from `SaveManifest` on: the snapshot becomes the checkpoint and
the log goes on after it. -/
def cutOver (sequence : ℕ) (records : List Record) (indexes : Indexes) : Action Unit := do
  saveManifest (snapshotManifest env sequence records indexes)
  reset (sequence + 1)

/-- After the cutover. -/
def installSnapshot (sequence : ℕ) (records : List Record) (indexes : Indexes) : Action Unit := do
  let n ← state
  let base ← ofExcept (snapshotBase env n.disk.files records indexes)
  update fun n => { n.setShard (·.installImmutable base) with
    checkpointLSN := sequence
    mutations := 0
    digests := .empty }
  cleanupOrphans (snapshotManifest env sequence records indexes)

def installReplicaSnapshot (sequence : ℕ) (records : List Record) : Action Unit := do
  let indexes ← prepareSnapshot env sequence records
  cutOver env sequence records indexes
  installSnapshot env sequence records indexes

end Replica

/-! ### Opening -/

section Open

variable (env : Env)

/-- What is left when the process ends: the files. -/
def Node.restarted (n : Node) : Node :=
  { Node.new env with ledger := n.disk.ledger, disk := n.disk, commits := n.commits }

/-- What a manifest loads: an immutable segment, or records to restore. -/
structure Loaded where
  base : Option Segment
  records : List Record

/-- The manifest's filter. -/
def manifestFilter (files : Files) (manifest : Manifest) : Except Error (Option Metadata.Index) :=
  match manifest.filter with
  | none => .ok none
  | some name => do
      let data ← readFilter files name manifest.maxLSN manifest.recordCount
      let idx ← loadFilter env data manifest.recordCount
      .ok (some idx)

/-- `ReadGraph` and the header of the graph. -/
def readGraph (files : Files) (name : FileName) : Except Error (ℕ × ℕ) :=
  match files.get name with
  | some (.graph dimension count) => .ok (dimension, count)
  | some _ => .error (.text "invalid hnsw graph magic")
  | none => .error .notExist

/-- The records of the segments of format 3.  A flat index and a DiskANN index keep the vectors
in files. -/
def multiRecords (files : Files) (manifest : Manifest) (refs : List SegmentRef) :
    Except Error (List Record) :=
  if env.config.indexType = .flat || (env.config.indexType = .diskann && manifest.graph.isSome) then
    (resolveMappedSegments files refs).map fun values => values.map Selected.record
  else (materializeSegments files refs).map Prod.fst

/-- The immutable segment of the segments of format 3. -/
def multiBase (files : Files) (manifest : Manifest) (refs : List SegmentRef)
    (records : List Record) (metadataIndex : Option Metadata.Index) : Except Error Segment :=
  match env.config.indexType, manifest.graph with
  | .flat, _ => compositeBase env files refs metadataIndex
  | .hnsw, some name => do
      let (dimension, count) ← readGraph files name
      hnswBase env records dimension count metadataIndex
  | .diskann, some name => diskANNBase env files name records metadataIndex
  | _, none => recordsBase env records metadataIndex

/-- The part of `loadSegments` for format 3. -/
def loadMulti (files : Files) (manifest : Manifest) (refs : List SegmentRef) :
    Except Error Loaded := do
  let records ← multiRecords env files manifest refs
  if records.length ≠ manifest.recordCount then
    .error (.text "multi-segment live record count mismatch")
  else do
    let metadataIndex ← manifestFilter env files manifest
    if allRouted env records = false then
      .error (.text "multi-segment record routed to wrong shard")
    else do
      let base ← multiBase env files manifest refs records metadataIndex
      .ok ⟨some base, []⟩

/-- The part of `loadSegments` for format 2. -/
def loadColumn (files : Files) (manifest : Manifest) (records vectors : FileName) :
    Except Error Loaded := do
  if manifest.dimension ≠ env.config.dimension then .error (.text "segment dimension mismatch")
  else if env.config.indexType = .flat then do
    let items ← readRecordColumn files records manifest.maxLSN manifest.recordCount
    let metadataIndex ← manifestFilter env files manifest
    let mapped ← openMappedVectors files vectors manifest.dimension manifest.recordCount
      manifest.maxLSN
    let base ← mappedBase env manifest.dimension items
      (fun position => (mapped[position]?).getD []) metadataIndex
    .ok ⟨some base, []⟩
  else do
    let items ← readBundle files records vectors manifest.dimension manifest.maxLSN
      manifest.recordCount
    let metadataIndex ← manifestFilter env files manifest
    match manifest.graph with
    | none => .ok ⟨none, items⟩
    | some name =>
      if env.config.indexType = .diskann then do
        let base ← diskANNBase env files name items metadataIndex
        .ok ⟨some base, []⟩
      else do
        let (dimension, count) ← readGraph files name
        let base ← hnswBase env items dimension count metadataIndex
        .ok ⟨some base, []⟩

/-- The records and the immutable segment of a manifest. -/
def loadBase (files : Files) (manifest : Manifest) : Except Error Loaded :=
  match manifest.layout with
  | .segments refs => loadMulti env files manifest refs
  | .column records vectors => loadColumn env files manifest records vectors

/-- The records of a manifest without an immutable segment. -/
def restoreRouted : List Record → Action Unit
  | [] => pure ()
  | record :: records =>
    if env.routesHere record.ns record.id then do
      restoreAll env [record]
      restoreRouted records
    else .throw (.text "segment record routed to wrong shard")

/-- Opening, up to the log. -/
def loadSegments : Action Unit := do
  let n ← state
  match loadManifest n.disk with
  | .error err => .throw err
  | .ok none => pure ()
  | .ok (some manifest) => do
      let loaded ← ofExcept (loadBase env n.disk.files manifest)
      update (Node.setShard fun sh =>
        match loaded.base with
        | some base => sh.installImmutable base
        | none => sh)
      restoreRouted env loaded.records
      cleanupOrphans manifest
      update fun n => { n with checkpointLSN := manifest.maxLSN }

/-- What the replay of the log keeps: the last LSN, the shard and the digests. -/
structure Recovery where
  lastLSN : ℕ
  shard : Shard
  digests : GoMap ℕ ℕ

/-- One record of the loop of `recoverFile`. -/
def recoverStep (replayAfter : ℕ) (acc : Recovery) (record : WalRecord) : Except Error Recovery :=
  if acc.lastLSN ≠ 0 ∧ record.lsn ≠ acc.lastLSN + 1 then
    .error (.text "WAL corruption: non-contiguous LSN")
  else if replayAfter < record.lsn then do
    let shard ← replay env acc.shard record.mutation
    .ok ⟨record.lsn, shard, acc.digests.set record.lsn (env.digest record.mutation)⟩
  else .ok { acc with lastLSN := record.lsn }

/-- `openCollectionLogs`. -/
def openLog : Action Unit := do
  let n ← state
  let recovered ← ofExcept (n.disk.wal.foldlM (recoverStep env n.checkpointLSN)
    ⟨0, n.shard, n.digests⟩)
  update fun n => { n with
    shard := recovered.shard
    digests := recovered.digests
    nextLSN := if recovered.lastLSN = 0 then n.checkpointLSN + 1 else recovered.lastLSN + 1 }

/-- Opening the engine on the files of a shard. -/
def openShard : Action Unit := do
  update (Node.restarted env)
  loadSegments env
  openLog env

end Open

end GideonDB.Engine
