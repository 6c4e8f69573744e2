/-
What a shard of the engine writes to its log, and how it is applied.

The engine (`internal/engine`) appends every mutation to the write-ahead log of the shard
before it applies it, and applies the log again when it is opened.  `Sound` collects what a
record must be for the log and the files to give it back unchanged.

JSON keeps a record with UTF-8 strings and `float64` metadata and changes others; what it
gives back of a record is a parameter.  So are the digests, the limit on the size of a log
record and the sizes of files.
-/
import GideonDB.Engine.Files
import GideonDB.Metadata.RoundTrip
import GideonDB.Segment.Build
import GideonDB.Shard.Refinement

namespace GideonDB.Engine

open Go GideonDB.Core Store List

/-! ### Routing -/

/-- `hash/fnv`, 64 bits, FNV-1a. -/
def fnv64a (data : GoString) : UInt64 :=
  data.foldl (fun hash b => (hash ^^^ b.toUInt64) * 1099511628211) 14695981039346656037

/-- `RouteShard` with the given number of shards. -/
def routeShard (shardCount : ℕ) (ns id : GoString) : ℕ :=
  (fnv64a (recordKey ns id)).toNat % shardCount

/-! ### Mutations -/

/-- `walMutation` with its operation. -/
inductive Mutation
  | upsert (record : Record)
  | delete (ns id : GoString)
  | batchUpsert (records : List Record)

/-- `wal.Record`, with the payload decoded. -/
structure WalRecord where
  lsn : ℕ
  mutation : Mutation

/-- What one shard is opened with. -/
structure Env where
  lib : Metadata.Library
  config : CollectionConfig
  /-- `Index.Quantization == QuantizationPQ`. -/
  productQuantization : Bool
  shardCount : ℕ
  shardID : ℕ
  checkpointEvery : ℕ
  /-- What `json.Unmarshal` gives back of what `json.Marshal` makes of a record. -/
  codec : Record → Option Record
  /-- Whether the payload of a log record is within `maximumPayload`. -/
  fits : Mutation → Bool
  /-- `sha256.Sum256` of the payload of a log record. -/
  digest : Mutation → ℕ
  /-- `idempotencyDigest`. -/
  requestDigest : List Record → ℕ
  /-- The size of a file. -/
  fileSize : Content → ℕ

namespace Env

variable (env : Env)

/-- It is of this shard. -/
def routesHere (ns id : GoString) : Bool := routeShard env.shardCount ns id = env.shardID

/-- The payload of a log record as it is decoded. -/
def encode : Mutation → Option Mutation
  | .upsert record => (env.codec record).map .upsert
  | .delete ns id => some (.delete (coerceUTF8 ns) (coerceUTF8 id))
  | .batchUpsert records => (records.mapM env.codec).map .batchUpsert

end Env

/-! ### Validation -/

/-- Neither NaN nor an infinity. -/
def isFinite32 (bits : BitVec 32) : Bool := bits.extractLsb' 23 8 ≠ 0xff

/-- `ValidateVector`. -/
def validateVector (vector : FloatVector) (dimension : ℕ) : Except Error Unit :=
  if vector.length ≠ dimension then .error (.shard .dimensionMismatch)
  else
    match vector.findIdx? (fun value => !isFinite32 value) with
    | some position =>
      .error (.invalidArgument s!"vector value at position {position} must be finite")
    | none => .ok ()

/-- One term. -/
def validateTerm (term : GoString × BitVec 32) : Except Error Unit :=
  if term.1 = [] then .error (.invalidArgument "sparse_vector terms must not be empty")
  else if isFinite32 term.2 then .ok ()
  else .error (.sparseValue term.1)

/-- `ValidateSparseVector` on a map that is not empty. -/
def validateSparseVector (vector : GoMap GoString (BitVec 32)) : Except Error Unit :=
  if 10000 < vector.size then
    .error (.invalidArgument "sparse_vector cannot exceed 10000 terms")
  else vector.toList.forM validateTerm

/-- `ValidateText`. -/
def validateText (text : GoString) : Except Error Unit :=
  if 2 ^ 20 < text.length then .error (.invalidArgument "text cannot exceed 1048576 bytes")
  else .ok ()

/-- The checks that `Restore` makes, and the replica operations for each record. -/
def validateRecord (config : CollectionConfig) (record : Record) : Except Error Unit := do
  validateVector record.vector config.dimension
  if record.sparseVector.size ≠ 0 then validateSparseVector record.sparseVector
  validateText record.text

/-! ### Application -/

/-- The shard, or the error. -/
def applied : Shard × Option Segment.Error → Except Error Shard
  | (sh, none) => .ok sh
  | (_, some err) => .error (.shard err)

/-- `Restore`.  The version counter of the collection is left out: only `PrepareUpsert` reads
it, and the versions it gives out are part of the records here. -/
def restore (env : Env) (sh : Shard) (record : Record) : Except Error Shard := do
  validateRecord env.config record
  applied (sh.upsert env.lib record)

/-- `ApplyDelete` where a missing record is no error. -/
def applyDelete (env : Env) (sh : Shard) (ns id : GoString) : Except Error Shard :=
  match sh.delete env.lib ns id with
  | (sh, some .notFound) => .ok sh
  | result => applied result

/-- The function that `openCollectionLogs` applies to every log record after the checkpoint. -/
def replay (env : Env) (sh : Shard) : Mutation → Except Error Shard
  | .upsert record =>
    if env.routesHere record.ns record.id then restore env sh record
    else .error (.text "upsert routed to wrong shard")
  | .delete ns id =>
    if id = [] ∨ env.routesHere ns id = false then .error (.text "delete routed to wrong shard")
    else applyDelete env sh ns id
  | .batchUpsert records =>
    if records = [] ∨ 10000 < records.length then .error (.text "invalid batch WAL payload")
    else records.foldlM (fun sh record =>
      if env.routesHere record.ns record.id then restore env sh record
      else .error (.text "batch record routed to wrong shard")) sh

/-! ### The effect of a mutation -/

/-- Records by key. -/
abbrev Live := GoString → Option Record

namespace Mutation

/-- The live records after it. -/
def apply (live : Live) : Mutation → Live
  | .upsert record => Function.update live record.key (some record)
  | .delete ns id => Function.update live (recordKey ns id) none
  | .batchUpsert records =>
    records.foldl (fun live record => Function.update live record.key (some record)) live

/-- The layer over the immutable segment after a mutation.  Of a record that only the layer had
a deletion leaves nothing. -/
def applyLayer (base : Live) (layer : Layer GoString Record) : Mutation → Layer GoString Record
  | .upsert record => Function.update layer record.key (some (some record))
  | .delete ns id => Function.update layer (recordKey ns id)
      (if (base (recordKey ns id)).isSome then some none else none)
  | .batchUpsert records => records.foldl
      (fun layer record => Function.update layer record.key (some (some record))) layer

lemma applyLayer_upsert_ne (record : Record) (base : Live) (layer : Layer GoString Record) :
    (Mutation.upsert record).applyLayer base layer ≠ fun _ => none := by
  intro h
  have hkey := congrFun h record.key
  rw [applyLayer, Function.update_self] at hkey
  cases hkey

lemma isSome_foldl_update {records : List Record} {layer : Layer GoString Record} {key : GoString}
    (h : (layer key).isSome ∨ ∃ record ∈ records, record.key = key) :
    ((records.foldl (fun layer record => Function.update layer record.key (some (some record)))
      layer : Layer GoString Record) key).isSome := by
  induction records generalizing layer with
  | nil => exact h.resolve_right fun ⟨_, hmem, _⟩ => by cases hmem
  | cons record records ih =>
    rw [foldl_cons]
    refine ih ?_
    rw [Function.update_apply]
    by_cases hkey : key = record.key
    · exact .inl (by rw [if_pos hkey]; rfl)
    · rw [if_neg hkey]
      refine h.imp_right fun ⟨record', hmem, hkey'⟩ => ⟨record', ?_, hkey'⟩
      rcases mem_cons.1 hmem with rfl | hmem
      · exact absurd hkey'.symm hkey
      · exact hmem

lemma applyLayer_batch_ne {records : List Record} (hne : records ≠ []) (base : Live)
    (layer : Layer GoString Record) :
    (Mutation.batchUpsert records).applyLayer base layer ≠ fun _ => none := by
  intro h
  obtain ⟨record, hmem⟩ := exists_mem_of_ne_nil _ hne
  have hsome := @isSome_foldl_update records layer record.key (.inr ⟨record, hmem, rfl⟩)
  have hnone := congrFun h record.key
  rw [applyLayer] at hnone
  rw [hnone] at hsome
  cases hsome

end Mutation

/-- A record that the log and the files of the shard give back unchanged, and whose metadata
the filter index can be read back for. -/
structure Sound (env : Env) (record : Record) : Prop where
  id : record.id ≠ []
  valid : validateRecord env.config record = .ok ()
  prepared : Prepared env.config record
  routed : env.routesHere record.ns record.id = true
  /-- JSON keeps it, with its vector as in the log and without as in the record column. -/
  log : env.codec record = some record
  column : env.codec (Segment.withoutVector record) = some (Segment.withoutVector record)
  key : validUTF8 record.key = true
  filter : ∀ field value, record.metadata.get field = some value →
    env.lib.isScalar value = true → Metadata.Survives env.lib field value

/-- Its records are sound. -/
def Mutation.Sound (env : Env) : Mutation → Prop
  | .upsert record => Engine.Sound env record
  | .delete ns id => id ≠ [] ∧ env.routesHere ns id = true ∧ validUTF8 ns = true ∧
      validUTF8 id = true
  | .batchUpsert records => records ≠ [] ∧ records.length ≤ 10000 ∧
      ∀ record ∈ records, Engine.Sound env record

section Sound

variable {env : Env} {record : Record}

lemma Sound.dimension (h : Sound env record) : record.vector.length = env.config.dimension := by
  have hvalid := h.valid
  rw [validateRecord, validateVector] at hvalid
  split at hvalid
  · cases hvalid
  · rename_i hlength
    exact not_ne_iff.1 hlength

lemma mapM_codec_of_sound {records : List Record} (h : ∀ record ∈ records, Sound env record) :
    records.mapM env.codec = some records := by
  induction records with
  | nil => rfl
  | cons record records ih =>
    rw [mapM_cons, (h record mem_cons_self).log,
      ih (forall_mem_cons.1 h).2]
    rfl

lemma Mutation.Sound.encode {mutation : Mutation} (h : mutation.Sound env) :
    env.encode mutation = some mutation := by
  cases mutation with
  | upsert record => rw [Env.encode, Engine.Sound.log h, Option.map_some]
  | delete ns id =>
    obtain ⟨-, -, hns, hid⟩ := h
    rw [Env.encode, coerceUTF8_eq_self hns, coerceUTF8_eq_self hid]
  | batchUpsert records => rw [Env.encode, mapM_codec_of_sound h.2.2, Option.map_some]

end Sound

end GideonDB.Engine
