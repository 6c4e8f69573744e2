/-
Appends that fail (`Append`, `writeTo` and `rollbackLocked` of `internal/wal/wal.go`).

A write may stop after any number of bytes and `Sync` may fail.  `rollbackLocked` then cuts the
file and moves the offset back, and ignores the errors of both.  The next record is written at
whatever offset the file has.  If every rollback that has something to undo succeeds, opening
the log again replays the records whose `Append` returned (`failed_appends_leave_log`).
-/
import GideonDB.Wal.Log

namespace GideonDB.Wal

open Go List

/-- An open file: its bytes and the offset. -/
structure OpenFile where
  bytes : GoString
  offset : ℕ
deriving DecidableEq

/-- What `Truncate` makes of the bytes. -/
def truncated (bytes : GoString) (n : ℕ) : GoString :=
  (bytes ++ replicate (n - bytes.length) 0).take n

/-- Bytes written at the offset; a gap before it is filled with zeros. -/
def OpenFile.write (file : OpenFile) (data : GoString) : OpenFile :=
  if data = [] then file
  else ⟨truncated file.bytes file.offset ++ data ++ file.bytes.drop (file.offset + data.length),
    file.offset + data.length⟩

/-- What goes wrong during an `Append`: the write stops after some bytes, or another call fails. -/
structure Faults where
  stopAfter : Option ℕ
  sync : Bool
  truncate : Bool
  seek : Bool

/-- `rollbackLocked`. -/
def OpenFile.rollback (file : OpenFile) (faults : Faults) (offset : ℕ) : OpenFile :=
  ⟨if faults.truncate then file.bytes else truncated file.bytes offset,
    if faults.seek then file.offset else offset⟩

/-- How an append fails. -/
inductive AppendError
  | refused (error : Error)
  /-- `append WAL %s: %w`. -/
  | write
  /-- `sync WAL %s: %w`. -/
  | sync
deriving DecidableEq

/-- `Log`, with the offset of its file. -/
structure FileLog where
  file : OpenFile
  mode : SyncMode
  nextLSN : UInt64

/-- The arguments of an `Append`, and what goes wrong. -/
structure AppendCall where
  operation : UInt8
  payload : GoString
  faults : Faults

section Append

variable (crc : UInt32 → GoString → UInt32)

/-- `Append`. -/
def FileLog.append (log : FileLog) (call : AppendCall) : Except AppendError UInt64 × FileLog :=
  let data := encode crc ⟨log.nextLSN, call.operation, call.payload⟩
  if validOperation call.operation = false then
    (.error (.refused (.invalidOperation call.operation)), log)
  else if maximumPayload < call.payload.length then (.error (.refused .payloadSize), log)
  else match call.faults.stopAfter with
    | some n =>
      (.error .write, { log with
        file := (log.file.write (data.take n)).rollback call.faults log.file.offset })
    | none =>
      if log.mode = .always ∧ call.faults.sync = true then
        (.error .sync, { log with
          file := (log.file.write data).rollback call.faults log.file.offset })
      else (.ok log.nextLSN, { log with file := log.file.write data, nextLSN := log.nextLSN + 1 })

/-- Some `Append`s, and the records of those that returned no error. -/
def FileLog.appendEach (log : FileLog) : List AppendCall → FileLog × List Record
  | [] => (log, [])
  | call :: calls =>
    let next := log.append crc call
    let (log', records) := next.2.appendEach calls
    match next.1 with
    | .ok lsn => (log', ⟨lsn, call.operation, call.payload⟩ :: records)
    | .error _ => (log', records)

/-- The append fails behind some bytes it has written, and the rollback fails as well. -/
def Faults.Leaves (mode : SyncMode) (faults : Faults) : Prop :=
  (match faults.stopAfter with
    | some n => n ≠ 0
    | none => mode = .always ∧ faults.sync = true) ∧
  (faults.truncate = true ∨ faults.seek = true)

/-- The file has these records, and the next one follows them. -/
structure FileLog.Holds (log : FileLog) (start : UInt64) (records : List Record) : Prop where
  file : log.file = ⟨encodeAll crc records, (encodeAll crc records).length⟩
  next : ∀ rest, Consecutive log.nextLSN rest → Consecutive start (records ++ rest)

variable {crc} {log : FileLog} {start : UInt64} {records : List Record} {bytes data : GoString}
  {faults : Faults}

lemma truncated_append (bytes data : GoString) : truncated (bytes ++ data) bytes.length = bytes := by
  rw [truncated, append_assoc, take_left' rfl]

lemma write_end (bytes data : GoString) : OpenFile.write ⟨bytes, bytes.length⟩ data =
    ⟨bytes ++ data, (bytes ++ data).length⟩ := by
  rw [OpenFile.write]
  split_ifs with hdata
  · rw [hdata, append_nil]
  · have htrunc := truncated_append bytes []
    rw [append_nil] at htrunc
    rw [htrunc, drop_eq_nil_of_le (Nat.le_add_right _ _), append_nil, length_append]

lemma rollback_write (h : data = [] ∨ faults.truncate = false ∧ faults.seek = false) :
    (OpenFile.write ⟨bytes, bytes.length⟩ data).rollback faults bytes.length =
      ⟨bytes, bytes.length⟩ := by
  rw [write_end, OpenFile.rollback, truncated_append]
  rcases h with rfl | ⟨htrunc, hseek⟩
  · simp
  · simp [htrunc, hseek]

lemma FileLog.Holds.append (h : log.Holds crc start records) {call : AppendCall}
    (hcall : ¬ call.faults.Leaves log.mode) :
    (log.append crc call).2.mode = log.mode ∧ (log.append crc call).2.Holds crc start
      (match (log.append crc call).1 with
        | .ok lsn => records ++ [⟨lsn, call.operation, call.payload⟩]
        | .error _ => records) := by
  rw [Faults.Leaves, not_and, not_or, Bool.not_eq_true, Bool.not_eq_true] at hcall
  rw [FileLog.append]
  split
  · exact ⟨rfl, h⟩
  rename_i hoper
  split
  · exact ⟨rfl, h⟩
  rename_i hpay
  cases hstop : call.faults.stopAfter with
  | some n =>
    rw [hstop] at hcall
    refine ⟨rfl, ⟨?_, h.next⟩⟩
    rw [h.file]
    refine rollback_write ?_
    by_cases hn : n = 0
    · exact .inl (by rw [hn, take_zero])
    · exact .inr (hcall hn)
  | none =>
    rw [hstop] at hcall
    dsimp only
    split_ifs with hsync
    · refine ⟨rfl, ⟨?_, h.next⟩⟩
      rw [h.file]
      exact rollback_write (.inr (hcall hsync))
    · have hvalid : (⟨log.nextLSN, call.operation, call.payload⟩ : Record).Valid :=
        ⟨Bool.eq_true_of_not_eq_false hoper, Nat.le_of_not_lt hpay⟩
      refine ⟨rfl, ⟨?_, fun rest hrest => ?_⟩⟩
      · rw [h.file, write_end]
        simp [encodeAll]
      · rw [append_assoc]
        exact h.next _ (.cons hvalid hrest)

lemma FileLog.Holds.appendEach (h : log.Holds crc start records) {calls : List AppendCall}
    (hcalls : ∀ call ∈ calls, ¬ call.faults.Leaves log.mode) :
    (log.appendEach crc calls).1.Holds crc start (records ++ (log.appendEach crc calls).2) := by
  induction calls generalizing log records with
  | nil => rwa [FileLog.appendEach, append_nil]
  | cons call calls ih =>
    obtain ⟨hmode, hnext⟩ := h.append (hcalls call mem_cons_self)
    have hrest := ih hnext fun call hmem => hmode ▸ hcalls call (mem_cons_of_mem _ hmem)
    rw [FileLog.appendEach]
    dsimp only
    cases hres : (log.append crc call).1 with
    | error err =>
      rw [hres] at hrest
      exact hrest
    | ok lsn =>
      rw [hres, append_assoc] at hrest
      exact hrest

/-- Any `Append`s on an empty log, of which none fails behind bytes that the rollback leaves.
Opening the log again replays the records whose `Append` returned no error, in this order. -/
theorem failed_appends_leave_log {S : Type} {mode : SyncMode} {first : UInt64}
    {calls : List AppendCall} {log : FileLog} {records : List Record}
    (hrun : (⟨⟨[], 0⟩, mode, first⟩ : FileLog).appendEach crc calls = (log, records))
    (hcalls : ∀ call ∈ calls, ¬ call.faults.Leaves mode) {options : OpenOptions}
    (hmode : ∀ name, options.syncMode ≠ .other name)
    (hreplay : ∀ record ∈ records, options.replayAfter < record.lsn) (f : S → Record → S) (s : S) :
    ∃ reopened, openWithOptions crc options (applying f) s log.file.bytes =
      .ok (records.foldl f s, reopened) := by
  have hempty : (⟨⟨[], 0⟩, mode, first⟩ : FileLog).Holds crc first [] := ⟨rfl, fun _ h => h⟩
  have hholds := hempty.appendEach hcalls
  rw [hrun, nil_append] at hholds
  have hcons := hholds.next [] .nil
  rw [append_nil] at hcons
  obtain ⟨next, hopen⟩ := openWithOptions_encodeAll hmode hcons s
  rw [filter_eq_self.2 (by simpa using hreplay)] at hopen
  exact ⟨_, by rw [hholds.file]; exact hopen⟩

/-- Three appends, of which the second stops after 30 bytes and is undone. -/
def undoneCalls : List AppendCall :=
  [⟨1, [5], ⟨none, false, false, false⟩⟩, ⟨1, [6, 6, 6], ⟨some 30, false, false, false⟩⟩,
    ⟨2, [7], ⟨none, false, true, true⟩⟩]

/-- The theorem for these appends. -/
theorem failed_append_is_undone : ∃ log reopened,
    (⟨⟨[], 0⟩, .always, 1⟩ : FileLog).appendEach (fun _ _ => 0) undoneCalls =
      (log, [⟨1, 1, [5]⟩, ⟨2, 2, [7]⟩]) ∧
    openWithOptions (fun _ _ => 0) ⟨.always, 1, 0⟩ (applying fun s record => s ++ [record]) []
      log.file.bytes = .ok ([⟨1, 1, [5]⟩, ⟨2, 2, [7]⟩], reopened) := by
  obtain ⟨reopened, hopen⟩ := @failed_appends_leave_log (fun _ _ => 0) _ .always 1 undoneCalls _
    [⟨1, 1, [5]⟩, ⟨2, 2, [7]⟩] rfl (by simp [undoneCalls, Faults.Leaves]) ⟨.always, 1, 0⟩
    (by intro name h; cases h) (by decide) (fun s record => s ++ [record]) []
  exact ⟨_, reopened, rfl, hopen⟩

/-- A record of 28 zeros is written, but neither the file is synced nor cut.  A shorter record
takes its place, and the log cannot be opened again. -/
theorem failed_append_poisons_log : ∃ log,
    (⟨⟨[], 0⟩, .always, 1⟩ : FileLog).appendEach (fun _ _ => 0)
      [⟨1, replicate 28 0, ⟨none, true, true, false⟩⟩, ⟨1, [], ⟨none, false, false, false⟩⟩] =
        (log, [⟨1, 1, []⟩]) ∧
    openWithOptions (fun _ _ => 0) ⟨.always, 1, 0⟩ (applying fun s record => s ++ [record]) []
      log.file.bytes = .error (.magic 28) :=
  ⟨_, rfl, rfl⟩

end Append

end GideonDB.Wal
