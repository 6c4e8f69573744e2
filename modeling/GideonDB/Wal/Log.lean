/-
The write-ahead log of a shard, in bytes (`internal/wal/wal.go`).

A record is a header of 28 bytes and a payload.  `append` writes one record after the other;
`recoverFile` reads them back and stops, without an error, at the first record that is not there
in full.  The checksum `crc32.Update` is an arbitrary function.  Sequence numbers are `uint64` and
wrap around.  All operations on the file succeed here.

Opening a cut log recovers the records that are in it in full and nothing else.  The number of the
next record is the successor of the last one, except that a last number of zero is taken for an
empty log (`open_prefix_iff`).
-/
import GideonDB.Go.Endian
import GideonDB.Go.Loop

namespace GideonDB.Wal

open Go List

/-- `SyncMode`; other values are refused. -/
inductive SyncMode
  | always | async
  | other (name : GoString)
deriving DecidableEq

/-- `wal.Record`. -/
structure Record where
  lsn : UInt64
  operation : UInt8
  payload : GoString
deriving DecidableEq

/-- `OperationUpsert`, `OperationDelete` and `OperationBatchUpsert`. -/
def validOperation (operation : UInt8) : Bool := operation == 1 || operation == 2 || operation == 3

/-- `VDBW`. -/
def magic : GoString := [86, 68, 66, 87]

/-- The size of a header. -/
def headerSize : ℕ := 28

/-- The limit of a payload. -/
def maximumPayload : ℕ := 67108864

/-- The errors of a log. -/
inductive Error
  /-- `unsupported WAL sync mode %q`. -/
  | syncMode (mode : SyncMode)
  /-- `invalid WAL operation %d`. -/
  | invalidOperation (operation : UInt8)
  /-- `WAL payload exceeds %d bytes`. -/
  | payloadSize
  /-- `WAL corruption at offset %d: invalid magic`. -/
  | magic (offset : ℕ)
  /-- `WAL version %d is unsupported`. -/
  | version (version : ℕ)
  /-- `WAL corruption at offset %d: reserved fields are nonzero`. -/
  | reserved (offset : ℕ)
  /-- `WAL corruption at offset %d: payload length %d`. -/
  | payloadLength (offset length : ℕ)
  /-- `WAL corruption at offset %d: operation %d`. -/
  | operation (offset : ℕ) (operation : UInt8)
  /-- `WAL corruption at offset %d: non-contiguous LSN %d after %d`. -/
  | contiguity (offset : ℕ) (lsn lastLSN : UInt64)
  /-- `WAL corruption at offset %d: checksum mismatch`. -/
  | checksum (offset : ℕ)
  /-- `apply WAL LSN %d: %w`. -/
  | apply (lsn : UInt64)
  /-- The loop of the model was given too few rounds. -/
  | rounds
deriving DecidableEq

/-- `Log`; the offset of the file is at its end. -/
structure Log where
  file : GoString
  mode : SyncMode
  nextLSN : UInt64
deriving DecidableEq

/-- `OpenOptions`. -/
structure OpenOptions where
  syncMode : SyncMode
  initialLSN : UInt64
  replayAfter : UInt64

section Functions

variable (crc : UInt32 → GoString → UInt32)

/-- The part of the header that the checksum covers. -/
def headerBody (lsn : UInt64) (operation : UInt8) (payload : GoString) : GoString :=
  littleEndian 2 1 ++ [0, 0] ++ littleEndian 4 payload.length ++ littleEndian 8 lsn.toNat ++
    [operation, 0, 0, 0]

/-- The header of a record. -/
def encodeHeader (lsn : UInt64) (operation : UInt8) (payload : GoString) : GoString :=
  let body := headerBody lsn operation payload
  magic ++ body ++ littleEndian 4 (crc (crc 0 body) payload).toNat

/-- What `Append` writes. -/
def encode (record : Record) : GoString :=
  encodeHeader crc record.lsn record.operation record.payload ++ record.payload

/-- `Append`. -/
def Log.append (log : Log) (operation : UInt8) (payload : GoString) : Except Error (UInt64 × Log) :=
  if validOperation operation = false then .error (.invalidOperation operation)
  else if maximumPayload < payload.length then .error .payloadSize
  else .ok (log.nextLSN, { log with
    file := log.file ++ encode crc ⟨log.nextLSN, operation, payload⟩
    nextLSN := log.nextLSN + 1 })

/-- The loop of `recoverFile`: the records that are left are in `rest`. -/
def recoverLoop {S : Type} (apply : Option (S → Record → Except Error S)) (replayAfter : UInt64) :
    ℕ → S → UInt64 → ℕ → GoString → Except Error (S × UInt64 × ℕ)
  | 0, _, _, _, _ => .error .rounds
  | rounds + 1, s, lastLSN, validBytes, rest =>
    let header := rest.take headerSize
    let version := ofLittleEndian (slice header 4 6)
    let length := ofLittleEndian (slice header 8 12)
    let lsn := UInt64.ofNat (ofLittleEndian (slice header 12 20))
    let operation := (slice header 20 21).headD 0
    let body := rest.drop headerSize
    let payload := body.take length
    if rest.length < headerSize then .ok (s, lastLSN, validBytes)
    else if slice header 0 4 ≠ magic then .error (.magic validBytes)
    else if version ≠ 1 then .error (.version version)
    else if ofLittleEndian (slice header 6 8) ≠ 0 ∨ slice header 21 24 ≠ [0, 0, 0] then
      .error (.reserved validBytes)
    else if maximumPayload < length then .error (.payloadLength validBytes length)
    else if validOperation operation = false then .error (.operation validBytes operation)
    else if lastLSN ≠ 0 ∧ lsn ≠ lastLSN + 1 then .error (.contiguity validBytes lsn lastLSN)
    else if body.length < length then .ok (s, lastLSN, validBytes)
    else if (crc (crc 0 (slice header 4 24)) payload).toNat ≠ ofLittleEndian (slice header 24 28) then
      .error (.checksum validBytes)
    else do
      let s ← match apply with
        | some apply => if replayAfter < lsn then apply s ⟨lsn, operation, payload⟩ else .ok s
        | none => .ok s
      recoverLoop apply replayAfter rounds s lsn (validBytes + headerSize + length)
        (body.drop length)

/-- `recoverFile`: the state that `apply` leaves, the last sequence number and the number of valid
bytes.  A round takes at least a header from the file. -/
def recoverFile {S : Type} (apply : Option (S → Record → Except Error S)) (replayAfter : UInt64)
    (s : S) (file : GoString) : Except Error (S × UInt64 × ℕ) :=
  recoverLoop crc apply replayAfter (file.length + 1) s 0 0 file

/-- The initial sequence number, which is 1 if it is not set. -/
def OpenOptions.initial (options : OpenOptions) : UInt64 :=
  if options.initialLSN = 0 then 1 else options.initialLSN

/-- `OpenWithOptions`, on the bytes of the file (none if it has just been created). -/
def openWithOptions {S : Type} (options : OpenOptions)
    (apply : Option (S → Record → Except Error S)) (s : S) (file : GoString) :
    Except Error (S × Log) := do
  match options.syncMode with
    | .other name => .error (.syncMode (.other name))
    | _ => pure ()
  let (s, lastLSN, validBytes) ← recoverFile crc apply options.replayAfter s file
  let nextLSN := if lastLSN = 0 then options.initial else lastLSN + 1
  return (s, ⟨file.take validBytes, options.syncMode, nextLSN⟩)

end Functions

/-! ### A record in the file -/

section Records

variable {crc : UInt32 → GoString → UInt32}

/-- What a successful `Append` has checked. -/
structure Record.Valid (record : Record) : Prop where
  operation : validOperation record.operation = true
  payload : record.payload.length ≤ maximumPayload

@[simp] lemma length_encodeHeader (lsn : UInt64) (operation : UInt8) (payload : GoString) :
    (encodeHeader crc lsn operation payload).length = headerSize := rfl

@[simp] lemma length_encode (record : Record) :
    (encode crc record).length = headerSize + record.payload.length := by
  rw [encode, length_append, length_encodeHeader]

variable (lsn : UInt64) (operation : UInt8) (payload : GoString)

lemma slice_magic : slice (encodeHeader crc lsn operation payload) 0 4 = magic := rfl

lemma slice_version : slice (encodeHeader crc lsn operation payload) 4 6 = littleEndian 2 1 := rfl

lemma slice_reserved : slice (encodeHeader crc lsn operation payload) 6 8 = [0, 0] := rfl

lemma slice_length : slice (encodeHeader crc lsn operation payload) 8 12 =
    littleEndian 4 payload.length := rfl

lemma slice_lsn : slice (encodeHeader crc lsn operation payload) 12 20 =
    littleEndian 8 lsn.toNat := rfl

lemma slice_operation : slice (encodeHeader crc lsn operation payload) 20 21 = [operation] := rfl

lemma slice_padding : slice (encodeHeader crc lsn operation payload) 21 24 = [0, 0, 0] := rfl

lemma slice_body : slice (encodeHeader crc lsn operation payload) 4 24 =
    headerBody lsn operation payload := rfl

lemma slice_checksum : slice (encodeHeader crc lsn operation payload) 24 28 =
    littleEndian 4 (crc (crc 0 (headerBody lsn operation payload)) payload).toNat := rfl

end Records

/-! ### One round of the loop -/

section Loop

variable {crc : UInt32 → GoString → UInt32} {S : Type} (f : S → Record → S) (replayAfter : UInt64)

/-- A callback that never fails. -/
def applying : Option (S → Record → Except Error S) := some fun s record => .ok (f s record)

/-- Applies only newer records. -/
def replay (s : S) (record : Record) : S := if replayAfter < record.lsn then f s record else s

variable {f replayAfter} {record : Record} {lastLSN : UInt64} {s : S} {rounds validBytes : ℕ}
  (hrec : record.Valid) (hlsn : lastLSN ≠ 0 → record.lsn = lastLSN + 1)

include hrec hlsn

lemma recoverLoop_encodeHeader (body : GoString) :
    recoverLoop crc (applying f) replayAfter (rounds + 1) s lastLSN validBytes
        (encodeHeader crc record.lsn record.operation record.payload ++ body) =
      if body.length < record.payload.length then .ok (s, lastLSN, validBytes)
      else if crc (crc 0 (headerBody record.lsn record.operation record.payload))
            (body.take record.payload.length) ≠
          crc (crc 0 (headerBody record.lsn record.operation record.payload)) record.payload then
        .error (.checksum validBytes)
      else recoverLoop crc (applying f) replayAfter rounds
        (replay f replayAfter s { record with payload := body.take record.payload.length })
        record.lsn (validBytes + headerSize + record.payload.length)
        (body.drop record.payload.length) := by
  have htake : (encodeHeader crc record.lsn record.operation record.payload ++ body).take headerSize =
      encodeHeader crc record.lsn record.operation record.payload :=
    take_left' (length_encodeHeader _ _ _)
  have hdrop : (encodeHeader crc record.lsn record.operation record.payload ++ body).drop headerSize =
      body := drop_left' (length_encodeHeader _ _ _)
  have hlength : record.payload.length % 256 ^ 4 = record.payload.length :=
    Nat.mod_eq_of_lt (by have := hrec.payload; simp only [maximumPayload] at this; omega)
  have hnum : UInt64.ofNat (record.lsn.toNat % 256 ^ 8) = record.lsn := by
    rw [Nat.mod_eq_of_lt (b := 256 ^ 8) (UInt64.toNat_lt record.lsn), UInt64.ofNat_toNat]
  have hsum (c : UInt32) : c.toNat % 256 ^ 4 = c.toNat := Nat.mod_eq_of_lt (UInt32.toNat_lt c)
  have hshort : ¬ (encodeHeader crc record.lsn record.operation record.payload ++ body).length <
      headerSize := by
    rw [length_append, length_encodeHeader]
    omega
  have hresv : ¬ (ofLittleEndian [0, 0] ≠ 0 ∨ ([0, 0, 0] : GoString) ≠ [0, 0, 0]) := by decide
  have hoper : ¬ validOperation record.operation = false := by simp [hrec.operation]
  have hcontiguous : ¬ (lastLSN ≠ 0 ∧ record.lsn ≠ lastLSN + 1) := fun h => h.2 (hlsn h.1)
  rw [recoverLoop]
  simp only [htake, hdrop, slice_magic, slice_version, slice_reserved, slice_length, slice_lsn,
    slice_operation, slice_padding, slice_body, slice_checksum, ofLittleEndian_littleEndian,
    hlength, hnum, hsum, headD_cons]
  rw [if_neg hshort, if_neg (by simp), if_neg (by simp), if_neg hresv,
    if_neg (Nat.not_lt.mpr hrec.payload), if_neg hoper, if_neg hcontiguous]
  simp only [ne_eq, UInt32.toNat_inj, applying, replay]
  split_ifs <;> rfl

lemma recoverLoop_encode (rest : GoString) :
    recoverLoop crc (applying f) replayAfter (rounds + 1) s lastLSN validBytes
        (encode crc record ++ rest) =
      recoverLoop crc (applying f) replayAfter rounds (replay f replayAfter s record) record.lsn
        (validBytes + (encode crc record).length) rest := by
  have htake : (record.payload ++ rest).take record.payload.length = record.payload :=
    take_left' rfl
  rw [encode, append_assoc, recoverLoop_encodeHeader hrec hlsn, htake,
    drop_left' rfl, if_neg (by simp), if_neg (by simp), ← encode, length_encode, Nat.add_assoc]

lemma recoverLoop_take_encode {n : ℕ} (hn : n < (encode crc record).length) :
    recoverLoop crc (applying f) replayAfter (rounds + 1) s lastLSN validBytes
      ((encode crc record).take n) = .ok (s, lastLSN, validBytes) := by
  rw [length_encode] at hn
  by_cases hheader : n < headerSize
  · have hshort : ((encode crc record).take n).length < headerSize :=
      Nat.lt_of_le_of_lt (length_take_le _ _) hheader
    rw [recoverLoop]
    simp only [hshort, if_true]
  · have hcut : (encode crc record).take n =
        encodeHeader crc record.lsn record.operation record.payload ++
          record.payload.take (n - headerSize) := by
      rw [encode, take_append, length_encodeHeader, take_of_length_le]
      rw [length_encodeHeader]
      omega
    rw [hcut, recoverLoop_encodeHeader hrec hlsn, if_pos]
    exact Nat.lt_of_le_of_lt (length_take_le _ _) (by omega)

end Loop

/-! ### A cut log -/

section Cut

variable (crc : UInt32 → GoString → UInt32)

/-- The bytes of the records. -/
def encodeAll (records : List Record) : GoString := records.flatMap (encode crc)

/-- The records of a run of `Append`s, with the sequence numbers that they get. -/
def numbered : UInt64 → List (UInt8 × GoString) → List Record
  | _, [] => []
  | lsn, call :: calls => ⟨lsn, call.1, call.2⟩ :: numbered (lsn + 1) calls

/-- A run of `Append`s, which ends at the first error. -/
def Log.appendAll (log : Log) : List (UInt8 × GoString) → Except Error Log
  | [] => .ok log
  | call :: calls => do
      let (_, log) ← log.append crc call.1 call.2
      log.appendAll calls

/-- How many records lie wholly within the first `n` bytes. -/
def wholeRecords : List Record → ℕ → ℕ
  | [], _ => 0
  | record :: records, n =>
    if (encode crc record).length ≤ n then
      wholeRecords records (n - (encode crc record).length) + 1
    else 0

/-- The number of the last record, or `lsn` if there is none. -/
def lastLSN (lsn : UInt64) (records : List Record) : UInt64 :=
  (records.getLast?.map Record.lsn).getD lsn

variable {crc}

@[simp] lemma encodeAll_cons (record : Record) (records : List Record) :
    encodeAll crc (record :: records) = encode crc record ++ encodeAll crc records := rfl

/-- The records of a log are valid and consecutive. -/
inductive Consecutive : UInt64 → List Record → Prop
  | nil {lsn : UInt64} : Consecutive lsn []
  | cons {record : Record} {records : List Record} (valid : record.Valid)
      (rest : Consecutive (record.lsn + 1) records) : Consecutive record.lsn (record :: records)

lemma lastLSN_cons (lsn : UInt64) (record : Record) (records : List Record) :
    lastLSN lsn (record :: records) = lastLSN record.lsn records := by
  rw [lastLSN, lastLSN, List.getLast?_cons]
  cases records.getLast? <;> rfl

lemma length_le_encodeAll (records : List Record) :
    records.length ≤ (encodeAll crc records).length := by
  induction records with
  | nil => exact Nat.zero_le _
  | cons record records ih =>
    rw [encodeAll_cons, length_append, length_encode, length_cons, headerSize]
    omega

variable {S : Type} {f : S → Record → S} {replayAfter last start : UInt64}
  {before after records : List Record} {rest : GoString}

lemma recoverLoop_encodeAll_append (hrecs : Consecutive start (before ++ after))
    (hlast : last ≠ 0 → start = last + 1) (s : S) (rounds validBytes : ℕ) :
    recoverLoop crc (applying f) replayAfter (before.length + rounds) s last validBytes
        (encodeAll crc before ++ rest) =
      recoverLoop crc (applying f) replayAfter rounds (before.foldl (replay f replayAfter) s)
        (lastLSN last before) (validBytes + (encodeAll crc before).length) rest := by
  induction before generalizing start last s validBytes with
  | nil => simp [encodeAll, lastLSN]
  | cons record before ih =>
    cases hrecs with
    | cons hvalid hrest =>
      rw [length_cons, Nat.add_right_comm, encodeAll_cons, append_assoc,
        recoverLoop_encode hvalid hlast, ih hrest fun _ => rfl, lastLSN_cons, length_append,
        Nat.add_assoc]
      rfl

variable (crc f replayAfter) in
/-- The loop stops here, without an error. -/
def Stops (last : UInt64) (rest : GoString) : Prop :=
  ∀ s rounds validBytes, recoverLoop crc (applying f) replayAfter (rounds + 1) s last validBytes
    rest = .ok (s, last, validBytes)

lemma stops_nil : Stops crc f replayAfter last [] := fun _ _ _ => rfl

lemma recoverFile_append (hrecs : Consecutive start (before ++ after))
    (hstop : Stops crc f replayAfter (lastLSN 0 before) rest) (s : S) :
    recoverFile crc (applying f) replayAfter s (encodeAll crc before ++ rest) =
      .ok (before.foldl (replay f replayAfter) s, lastLSN 0 before,
        (encodeAll crc before).length) := by
  have hle := @length_le_encodeAll crc before
  obtain ⟨k, hk⟩ : ∃ k, (encodeAll crc before ++ rest).length + 1 = before.length + (k + 1) :=
    ⟨(encodeAll crc before ++ rest).length - before.length, by rw [length_append]; omega⟩
  rw [recoverFile, hk, recoverLoop_encodeAll_append hrecs fun h => absurd rfl h, hstop,
    Nat.zero_add]

variable (crc) in
/-- What is there in full. -/
def recovered (records : List Record) (n : ℕ) : List Record :=
  records.take (wholeRecords crc records n)

lemma Consecutive.recovered_append (h : Consecutive start records) (n : ℕ) : Consecutive start
      (recovered crc records n ++ records.drop (wholeRecords crc records n)) := by
  rwa [recovered, take_append_drop]

lemma exists_take_encodeAll (hrecs : Consecutive start records)
    (hlast : last ≠ 0 → start = last + 1) (n : ℕ) :
    ∃ rest, (encodeAll crc records).take n = encodeAll crc (recovered crc records n) ++ rest ∧
      Stops crc f replayAfter (lastLSN last (recovered crc records n)) rest := by
  induction hrecs generalizing last n with
  | nil => exact ⟨[], take_nil, stops_nil⟩
  | @cons record records hvalid _ ih =>
    rw [recovered, wholeRecords, encodeAll_cons, take_append]
    by_cases hwhole : (encode crc record).length ≤ n
    · obtain ⟨rest, htake, hstop⟩ := @ih record.lsn (fun _ => rfl) (n - (encode crc record).length)
      rw [if_pos hwhole, take_of_length_le hwhole, htake, take_succ_cons, encodeAll_cons,
        ← append_assoc, lastLSN_cons]
      exact ⟨rest, rfl, hstop⟩
    · rw [if_neg hwhole, show n - (encode crc record).length = 0 by omega, take_zero,
        append_nil]
      exact ⟨_, rfl, fun _ _ _ =>
        recoverLoop_take_encode hvalid hlast (Nat.lt_of_not_le hwhole)⟩

lemma appendAll_eq_ok {log log' : Log} {calls : List (UInt8 × GoString)}
    (h : log.appendAll crc calls = .ok log') :
    Consecutive log.nextLSN (numbered log.nextLSN calls) ∧
      log'.file = log.file ++ encodeAll crc (numbered log.nextLSN calls) := by
  induction calls generalizing log with
  | nil =>
    cases h
    exact ⟨.nil, (append_nil _).symm⟩
  | cons call calls ih =>
    rw [Log.appendAll, bind_eq_ok] at h
    obtain ⟨⟨lsn, next⟩, hnext, hrest⟩ := h
    rw [Log.append] at hnext
    split_ifs at hnext with hoper hpay
    cases hnext
    obtain ⟨hconsecutive, hfile⟩ := ih hrest
    have hvalid : (⟨log.nextLSN, call.1, call.2⟩ : Record).Valid :=
      ⟨by simpa using hoper, Nat.le_of_not_lt hpay⟩
    refine ⟨.cons hvalid hconsecutive, ?_⟩
    rw [hfile, numbered, encodeAll_cons, append_assoc]

end Cut

/-! ### Opening a cut log -/

section Opening

variable (crc : UInt32 → GoString → UInt32) {S : Type}

/-- The number that the record after `records` should get. -/
def followingLSN (options : OpenOptions) (records : List Record) : UInt64 :=
  match records.getLast? with
  | none => options.initial
  | some record => record.lsn + 1

/-- Opening `file` recovers `records`: it succeeds, applies those after `ReplayAfter` in order,
leaves the file with these records, and the next `Append` gets the number after the last one. -/
def Recovers (options : OpenOptions) (f : S → Record → S) (s : S) (file : GoString)
    (records : List Record) : Prop :=
  ∃ log, openWithOptions crc options (applying f) s file =
      .ok ((records.filter (options.replayAfter < ·.lsn)).foldl f s, log) ∧
    log.file = encodeAll crc records ∧
    ∀ operation payload, validOperation operation = true → payload.length ≤ maximumPayload →
      ∃ log', log.append crc operation payload = .ok (followingLSN options records, log')

variable {crc} {options : OpenOptions} {f : S → Record → S} {records : List Record} {start : UInt64}

lemma foldl_replay (replayAfter : UInt64) (records : List Record) (s : S) :
    records.foldl (replay f replayAfter) s = (records.filter (replayAfter < ·.lsn)).foldl f s := by
  rw [foldl_filter]
  simp only [decide_eq_true_eq]
  rfl

lemma openWithOptions_append (hmode : ∀ name, options.syncMode ≠ .other name)
    {before after : List Record} (hrecs : Consecutive start (before ++ after)) {rest : GoString}
    (hstop : Stops crc f options.replayAfter (lastLSN 0 before) rest) (s : S) :
    openWithOptions crc options (applying f) s (encodeAll crc before ++ rest) =
      .ok ((before.filter (options.replayAfter < ·.lsn)).foldl f s,
        ⟨encodeAll crc before, options.syncMode,
          if lastLSN 0 before = 0 then options.initial else lastLSN 0 before + 1⟩) := by
  rw [openWithOptions, recoverFile_append hrecs hstop]
  cases hm : options.syncMode with
  | other name => exact absurd hm (hmode name)
  | always | async =>
    dsimp only [Bind.bind, Except.bind, Pure.pure, Except.pure]
    rw [take_left' rfl, foldl_replay]

lemma openWithOptions_encodeAll (hmode : ∀ name, options.syncMode ≠ .other name)
    (hrecs : Consecutive start records) (s : S) :
    ∃ next, openWithOptions crc options (applying f) s (encodeAll crc records) =
      .ok ((records.filter (options.replayAfter < ·.lsn)).foldl f s,
        ⟨encodeAll crc records, options.syncMode, next⟩) := by
  rw [← append_nil records] at hrecs
  have hopen := openWithOptions_append hmode hrecs (@stops_nil crc S f _ _) s
  rw [append_nil] at hopen
  exact ⟨_, hopen⟩

lemma append_next_iff (log : Log) (lsn : UInt64) :
    (∀ operation payload, validOperation operation → payload.length ≤ maximumPayload →
      ∃ log', log.append crc operation payload = .ok (lsn, log')) ↔ log.nextLSN = lsn := by
  constructor
  · intro h
    obtain ⟨log', hlog'⟩ := h 1 [] rfl (Nat.zero_le _)
    exact congrArg Prod.fst (Except.ok.inj hlog')
  · rintro rfl operation payload hoper hpay
    rw [Log.append, if_neg (by simp [hoper]), if_neg (Nat.not_lt.mpr hpay)]
    exact ⟨_, rfl⟩

/-- The number chosen by `OpenWithOptions` is the one that follows, unless the last number is zero
and the initial number does not happen to be one. -/
lemma next_eq_followingLSN_iff (records : List Record) :
    (if lastLSN 0 records = 0 then options.initial else lastLSN 0 records + 1) =
        followingLSN options records ↔
      ∀ record, records.getLast? = some record → record.lsn = 0 → options.initial = 1 := by
  rw [lastLSN, followingLSN]
  cases records.getLast? with
  | none => simp
  | some record =>
    simp only [Option.map_some, Option.getD_some, Option.some.injEq, forall_eq']
    by_cases hzero : record.lsn = 0 <;> simp [hzero]

lemma openWithOptions_nil {created : OpenOptions} {log : Log}
    (h : openWithOptions crc created (none : Option (Unit → Record → Except Error Unit)) () [] =
      .ok ((), log)) : log = ⟨[], created.syncMode, created.initial⟩ := by
  cases hm : created.syncMode <;>
    simp [openWithOptions, hm, recoverFile, recoverLoop, headerSize, Bind.bind, Except.bind,
      Pure.pure, Except.pure] at h
  all_goals exact h.symm

/-- The first `n` bytes of a log that was created and appended to are recovered as they should be
if and only if the last whole record does not have the number zero, or the initial number is the
one that follows it.  The code takes a last number of zero for an empty log. -/
theorem open_prefix_iff (created options : OpenOptions) (calls : List (UInt8 × GoString))
    {empty log : Log}
    (hcreated : openWithOptions crc created (none : Option (Unit → Record → Except Error Unit)) ()
      [] = .ok ((), empty))
    (hcalls : empty.appendAll crc calls = .ok log)
    (hmode : ∀ name, options.syncMode ≠ .other name) (f : S → Record → S) (s : S) (n : ℕ) :
    Recovers crc options f s (log.file.take n) (recovered crc (numbered created.initial calls) n) ↔
      ∀ record, (recovered crc (numbered created.initial calls) n).getLast? = some record →
        record.lsn = 0 → options.initial = 1 := by
  obtain rfl := openWithOptions_nil hcreated
  obtain ⟨hrecs, hfile⟩ := appendAll_eq_ok hcalls
  obtain ⟨rest, htake, hstop⟩ := exists_take_encodeAll hrecs (fun h => absurd rfl h) n
  rw [hfile, nil_append, htake, Recovers,
    openWithOptions_append hmode (hrecs.recovered_append n) hstop]
  dsimp only
  rw [← next_eq_followingLSN_iff]
  constructor
  · rintro ⟨opened, hopened, -, hnext⟩
    obtain rfl := (Prod.mk.inj (Except.ok.inj hopened)).2
    exact (append_next_iff _ _).mp hnext
  · intro hnext
    exact ⟨_, rfl, rfl, (append_next_iff _ _).mpr hnext⟩

/-- Two records are cut in the payload of the second one, and the first is recovered. -/
theorem open_prefix_iff_two_records :
    Recovers (fun _ _ => 0) ⟨.always, 7, 0⟩ (fun s record => s ++ [record]) []
      ((encodeAll (fun _ _ => 0) [⟨7, 1, [5]⟩, ⟨8, 2, [6, 6]⟩]).take 58) [⟨7, 1, [5]⟩] :=
  (@open_prefix_iff (fun _ _ => 0) _ ⟨.always, 7, 0⟩ ⟨.always, 7, 0⟩ [(1, [5]), (2, [6, 6])] _ _
    rfl rfl (by intro name h; cases h) _ [] 58).mpr (by
      rintro record hrec hzero
      cases hrec
      exact absurd hzero (by decide))

/-- The options of a log that starts with the largest number. -/
def largestFirst : OpenOptions := ⟨.always, 18446744073709551615, 0⟩

/-- The largest number is given out first and the next one is zero.  When both records are there,
opening the log again gives out the largest number a second time. -/
theorem open_wraps_to_initial :
    ∃ empty log,
      openWithOptions (fun _ _ => 0) largestFirst
        (none : Option (Unit → Record → Except Error Unit)) () [] = .ok ((), empty) ∧
      empty.appendAll (fun _ _ => 0) [(1, []), (1, [])] = .ok log ∧
      (recovered (fun _ _ => 0) (numbered largestFirst.initial [(1, []), (1, [])])
        log.file.length).map Record.lsn = [18446744073709551615, 0] ∧
      ¬ Recovers (fun _ _ => 0) largestFirst (fun s record => s ++ [record]) []
        (log.file.take log.file.length)
        (recovered (fun _ _ => 0) (numbered largestFirst.initial [(1, []), (1, [])])
          log.file.length) := by
  refine ⟨_, _, rfl, rfl, rfl, ?_⟩
  rintro ⟨opened, hopened, -, hnext⟩
  have hgiven : (18446744073709551615 : UInt64) = opened.nextLSN :=
    congrArg (fun result => result.2.nextLSN) (Except.ok.inj hopened)
  have hdue := (append_next_iff _ _).mp hnext
  rw [← hgiven] at hdue
  exact absurd hdue (by decide)

end Opening

end GideonDB.Wal
