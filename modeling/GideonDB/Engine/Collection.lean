/-
A collection: its shards and the counter of versions.

The operations of the engine on a collection prepare the records, give them versions, and then do
on each shard what the operations of a shard do.  All shards are owned here.  A request comes with
its named vectors as `PrepareNamedVectors` leaves them and with the time at which it is prepared.

The constructors of immutable segments raise the counter to the versions of their records.  At a
checkpoint it has reached them all, so this is left out there; where the collection is opened,
the counter starts at zero and it is part of the model.
-/
import GideonDB.Engine.Restart
import GideonDB.Store.Zoom

namespace GideonDB.Engine

open Go GideonDB.Core Store
open Prog (update state ofExcept file)

/-- The parameters of one shard of the collection. -/
def Env.ofShard (env : Env) (shardID : ℕ) : Env := { env with shardID := shardID }

/-- The shard of a record. -/
def Env.route (env : Env) (ns id : GoString) : ℕ := routeShard env.shardCount ns id

/-- `collection.Collection` with the logs and files of its shards. -/
structure Collection where
  /-- The counter of versions. -/
  version : ℕ
  shards : ℕ → Node
  /-- The versions that `PrepareUpsert` has assigned, in order; the code does not keep them. -/
  assigned : List ℕ

/-- Programs on a collection. -/
abbrev Task (α : Type) := Prog Collection Error α

namespace Collection

/-- Every shard is new. -/
def new (env : Env) : Collection := ⟨0, fun shardID => Node.new (env.ofShard shardID), []⟩

/-- One shard of a collection. -/
def shard (shardID : ℕ) : Part Collection Node where
  get c := c.shards shardID
  put c n := { c with shards := Function.update c.shards shardID n }
  same c c' := ∀ other, other ≠ shardID → c'.shards other = c.shards other
  get_put c n := Function.update_self ..
  put_get c := by simp
  put_put c n n' := by simp
  same_put c n := fun other hother => Function.update_of_ne hother ..
  same_refl c := fun _ _ => rfl
  same_trans h h' := fun other hother => (h' other hother).trans (h other hother)

@[simp] lemma shards_put (shardID : ℕ) (c : Collection) (n : Node) :
    ((shard shardID).put c n).shards shardID = n := (shard shardID).get_put c n

/-- The counter is raised. -/
def raise (c : Collection) (record : Record) : Collection :=
  { c with version := max c.version record.version }

/-- `Get`. -/
def get (env : Env) (c : Collection) (ns id : GoString) : Except Segment.Error Record :=
  (c.shards (env.route ns id)).shard.get ns id

/-- `Records`. -/
def records (env : Env) (c : Collection) : List Record :=
  (List.range env.shardCount).flatMap fun shardID => (c.shards shardID).shard.list

/-- `Count`. -/
def count (env : Env) (c : Collection) : ℤ :=
  ((List.range env.shardCount).map fun shardID => (c.shards shardID).shard.len).sum

/-- The records that a filtered search looks at. -/
def matching (env : Env) (c : Collection) (filter : Metadata.Expr) (ns : GoString) : List Record :=
  (List.range env.shardCount).flatMap fun shardID =>
    (c.shards shardID).shard.matching env.lib filter ns

end Collection

/-! ### Operations -/

section Operations

variable (env : Env)

/-- An action on one shard. -/
def onShard {α : Type} (shardID : ℕ) (p : Action α) : Task α := p.zoom (Collection.shard shardID)

/-- A record to be written, and the time at which it is prepared. -/
structure Item where
  record : Record
  now : ℤ

/-- What is stored. -/
def Item.stored (item : Item) (version : ℕ) : Record :=
  { item.record with version := version, timestamp := item.now }

/-- The checks of `PrepareUpsert`. -/
def checkUpsert (record : Record) : Except Error Unit := do
  validateRecord env.config record
  if record.id = [] then .error (.invalidArgument "record id is required") else .ok ()

/-- The rest of `PrepareUpsert`. -/
def assignVersion (item : Item) : Task Record := do
  let c ← state
  update fun c => { c with
    version := c.version + 1, assigned := c.assigned ++ [c.version + 1] }
  pure (item.stored (c.version + 1))

/-- `PrepareUpsert`. -/
def prepareUpsert (item : Item) : Task Record := do
  ofExcept (checkUpsert env item.record)
  assignVersion item

/-- `PrepareUpsert` of each record of a batch, from a position on. -/
def prepareAll (position : ℕ) : List Item → Task (List Record)
  | [] => pure []
  | item :: items => do
      let stored ← (prepareUpsert env item).mapError (.record position)
      let rest ← prepareAll (position + 1) items
      pure (stored :: rest)

/-- `Upsert`. -/
def Collection.upsert (item : Item) : Task Record := do
  let stored ← prepareUpsert env item
  let shardID := env.route stored.ns stored.id
  onShard shardID (Engine.upsert (env.ofShard shardID) stored)

/-- The part of `BatchUpsert` for one shard. -/
def commitGroup (shardID : ℕ) (group : List Record) : Task Unit := do
  let _ ← (onShard shardID (append (env.ofShard shardID) (.batchUpsert group))).mapError
    (.partialBatch shardID)
  onShard shardID (upsertAll (env.ofShard shardID) group)
  onShard shardID (afterMutation (env.ofShard shardID) group.length)

/-- The loop of `BatchUpsert`. -/
def commitGroups (prepared : List Record) : List ℕ → Task Unit
  | [] => pure ()
  | shardID :: shardIDs => do
      commitGroup env shardID (prepared.filter fun record => env.route record.ns record.id = shardID)
      commitGroups prepared shardIDs

/-- The shards of a batch. -/
def shardsOf (prepared : List Record) : List ℕ :=
  (List.range env.shardCount).filter fun shardID =>
    prepared.any fun record => env.route record.ns record.id = shardID

/-- `BatchUpsert`. -/
def Collection.batchUpsert (items : List Item) : Task (List Record) := do
  if items = [] ∨ 10000 < items.length then
    .throw (.invalidArgument "batch size must be between 1 and 10000")
  else do
    let prepared ← prepareAll env 0 items
    commitGroups env prepared (shardsOf env prepared)
    pure prepared

/-- `Delete`. -/
def Collection.delete (ns id : GoString) : Task ℕ := do
  let shardID := env.route ns id
  let c ← state
  match (c.shards shardID).shard.get ns id with
  | .error err => .throw (.shard err)
  | .ok _ => do
      let sequence ← onShard shardID (append (env.ofShard shardID) (.delete ns id))
      onShard shardID (mutateShard fun sh => sh.delete env.lib ns id)
      update fun c => { c with version := c.version + 1 }
      onShard shardID (afterMutation (env.ofShard shardID) 1)
      pure sequence

def deleteShardWithSequence (shardID : ℕ) (ns id : GoString) : Task ℕ := do
  if id = [] then .throw (.invalidArgument "record id is required")
  else if env.shardCount ≤ shardID ∨ env.route ns id ≠ shardID then
    .throw (.invalidArgument s!"delete does not route to shard {shardID}")
  else Collection.delete env ns id

/-- `Restore` of each record. -/
def Collection.restoreAll (shardID : ℕ) : List Record → Task Unit
  | [] => pure ()
  | record :: records => do
      ofExcept (validateRecord env.config record)
      update fun c => c.raise record
      onShard shardID (mutateShard fun sh => sh.upsert env.lib record)
      Collection.restoreAll shardID records

/-- `commitReservedBatchLocked`. -/
def Collection.commitReservedBatch (shardID : ℕ) (key : GoString) (entry : LedgerEntry) :
    Task (List Record × ℕ) := do
  let sequence ← onShard shardID (append (env.ofShard shardID) (.batchUpsert entry.records))
  onShard shardID (update fun n =>
    { n with commits := n.commits ++ [⟨key, entry.records, sequence⟩] })
  Collection.restoreAll env shardID entry.records
  onShard shardID (update fun n => { n with
    ledger := n.ledger.set key { entry with completed := true, sequence := sequence } })
  let ok ← onShard shardID (persistIdempotency (env.ofShard shardID))
  if ok then do
    onShard shardID (afterMutation (env.ofShard shardID) entry.records.length)
    pure (entry.records, sequence)
  else .throw .io

/-- The check of one record. -/
def checkShardRecord (shardID : ℕ) (entry : Item × ℕ) : Except Error Unit :=
  let record := entry.1.record
  if record.id = [] ∨ env.route record.ns record.id ≠ shardID then
    .error (.invalidArgument s!"record {entry.2} does not route to shard {shardID}")
  else
    match validateRecord env.config record with
    | .ok () => .ok ()
    | .error err => .error (.record entry.2 err)

/-- `BatchUpsertShardIdempotent` with a key that the ledger has. -/
def Collection.retryBatch (shardID : ℕ) (key : GoString) (items : List Item)
    (retained : LedgerEntry) : Task (List Record × ℕ) :=
  if retained.digest ≠ env.requestDigest (items.map Item.record) then .throw .idempotencyConflict
  else if retained.completed then pure (retained.records, retained.sequence)
  else Collection.commitReservedBatch env shardID key retained

/-- `BatchUpsertShardIdempotent` with a new key. -/
def Collection.reserveBatch (shardID : ℕ) (key : GoString) (entry : LedgerEntry) :
    Task (List Record × ℕ) := do
  onShard shardID (update fun n => { n with ledger := n.ledger.set key entry })
  let ok ← onShard shardID (persistIdempotency (env.ofShard shardID))
  if ok then Collection.commitReservedBatch env shardID key entry
  else do
    onShard shardID (update fun n => { n with ledger := n.ledger.delete key })
    .throw .io

/-- The checks and the preparation of `BatchUpsertShardIdempotent`. -/
def prepareShardBatch (shardID : ℕ) (items : List Item) : Task (List Record) := do
  ofExcept (items.zipIdx.forM (checkShardRecord env shardID))
  prepareAll env 0 items

def batchUpsertShardIdempotent (shardID : ℕ) (items : List Item) (key : GoString) :
    Task (List Record × ℕ) := do
  if items = [] ∨ 10000 < items.length then
    .throw (.invalidArgument "batch size must be between 1 and 10000")
  else if env.shardCount ≤ shardID then .throw (.invalidArgument "shard ID out of range")
  else if key = [] then do
    let prepared ← prepareShardBatch env shardID items
    onShard shardID (Engine.batchUpsert (env.ofShard shardID) prepared)
  else if validIdempotencyKey key = false then
    .throw (.invalidArgument ("Idempotency-Key must be 1-128 characters using letters, " ++
      "digits, '.', '_', ':', or '-'"))
  else do
    let c ← state
    match (c.shards shardID).ledger.get key with
    | some retained => Collection.retryBatch env shardID key items retained
    | none => do
        let prepared ← prepareShardBatch env shardID items
        Collection.reserveBatch env shardID key
          ⟨env.requestDigest (items.map Item.record), prepared, false, 0⟩

/-- Checkpoints shard after shard. -/
def checkpointAll : List ℕ → Task Unit
  | [] => pure ()
  | shardID :: shardIDs => do
      onShard shardID (checkpointShard (env.ofShard shardID))
      checkpointAll shardIDs

/-- `Checkpoint`. -/
def Collection.checkpoint : Task Unit := checkpointAll env (List.range env.shardCount)

end Operations

/-! ### Opening -/

section Open

variable (env : Env)

/-- Loads shard after shard. -/
def loadAll : List ℕ → Task Unit
  | [] => pure ()
  | shardID :: shardIDs => do
      onShard shardID (loadSegments (env.ofShard shardID))
      update fun c => (c.shards shardID).shard.list.foldl Collection.raise c
      loadAll shardIDs

/-- The counter, raised to the versions of some records. -/
def raised (version : ℕ) (records : List Record) : ℕ :=
  records.foldl (fun version record => max version record.version) version

/-- The counter after a mutation has been replayed on a shard. -/
def replayVersion (sh : Shard) (version : ℕ) : Mutation → ℕ
  | .upsert record => max version record.version
  | .delete ns id => if (sh.delete env.lib ns id).2 = none then version + 1 else version
  | .batchUpsert records => raised version records

/-- The version counter after replay. -/
def recoverVersion (replayAfter : ℕ) : Shard → ℕ → List WalRecord → ℕ
  | _, version, [] => version
  | sh, version, record :: wal =>
    if replayAfter < record.lsn then
      match replay env sh record.mutation with
      | .ok sh' => recoverVersion replayAfter sh' (replayVersion env sh version record.mutation) wal
      | .error _ => version
    else recoverVersion replayAfter sh version wal

/-- The counter after the log of a shard has been replayed. -/
def Collection.recount (shardID : ℕ) (c : Collection) : Collection :=
  let n := c.shards shardID
  { c with version :=
      recoverVersion (env.ofShard shardID) n.checkpointLSN n.shard c.version n.disk.wal }

/-- The loop of `openCollectionLogs`. -/
def openLogs : List ℕ → Task Unit
  | [] => pure ()
  | shardID :: shardIDs => do
      update (Collection.recount env shardID)
      onShard shardID (openLog (env.ofShard shardID))
      openLogs shardIDs

/-- What is left of a collection when the process ends. -/
def Collection.restarted (c : Collection) : Collection :=
  { c with version := 0, shards := fun shardID => (c.shards shardID).restarted (env.ofShard shardID) }

/-- Opening the engine on the files of a collection. -/
def openCollection : Task Unit := do
  update (Collection.restarted env)
  loadAll env (List.range env.shardCount)
  openLogs env (List.range env.shardCount)

end Open

end GideonDB.Engine
