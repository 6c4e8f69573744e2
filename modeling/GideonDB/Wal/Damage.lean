/-
Damaged records in the log.

`recoverFile` checks the fields of a header one by one, then that the payload is there, and the
checksum last.  A damaged length field that points behind the end of the file therefore looks like
a record that was being written when the process stopped, and `OpenWithOptions` cuts the file
there, with all records that follow.  Every other damage that the checksum can tell is an error
(`damage_detected_iff`).
-/
import GideonDB.Wal.Log

namespace GideonDB.Wal

open Go List

/-- The length in a header. -/
def lengthField (rest : GoString) : ℕ := ofLittleEndian (slice (rest.take headerSize) 8 12)

/-- The fields of a header that are checked before the payload is read. -/
structure Plausible (lastLSN : UInt64) (header : GoString) : Prop where
  magic : slice header 0 4 = magic
  version : ofLittleEndian (slice header 4 6) = 1
  reserved : ofLittleEndian (slice header 6 8) = 0 ∧ slice header 21 24 = [0, 0, 0]
  length : ofLittleEndian (slice header 8 12) ≤ maximumPayload
  operation : validOperation ((slice header 20 21).headD 0) = true
  lsn : lastLSN ≠ 0 → UInt64.ofNat (ofLittleEndian (slice header 12 20)) = lastLSN + 1

/-- The bytes from here on look like a record that was cut: a header that is accepted so far, and
a length that points behind the end of the file. -/
def Overruns (lastLSN : UInt64) (rest : GoString) : Prop :=
  Plausible lastLSN (rest.take headerSize) ∧ (rest.drop headerSize).length < lengthField rest

section Damage

variable (crc : UInt32 → GoString → UInt32)

/-- The bytes from here on start with a record that has the right checksum. -/
def Passes (rest : GoString) : Prop :=
  slice (rest.take headerSize) 0 4 = magic ∧ lengthField rest ≤ (rest.drop headerSize).length ∧
    (crc (crc 0 (slice (rest.take headerSize) 4 24))
      ((rest.drop headerSize).take (lengthField rest))).toNat =
        ofLittleEndian (slice (rest.take headerSize) 24 28)

/-- The checksum detects every changed record it is computed for: what has the right checksum in
the place of a record is the record. -/
def Detects (records : List Record) (file : GoString) : Prop :=
  ∀ before record after rest, records = before ++ record :: after →
    file = encodeAll crc before ++ rest → Passes crc rest → encode crc record <+: rest

/-- Behind some whole records comes one that looks cut. -/
def Misleads (lastLSN : UInt64) (records : List Record) (file : GoString) : Prop :=
  ∃ before rest, before <+: records ∧ file = encodeAll crc before ++ rest ∧
    Overruns (Wal.lastLSN lastLSN before) rest

/-- Opening `file` fails, or it recovers all of `records` and keeps the file as it is. -/
def FailsOrRecovers {S : Type} (options : OpenOptions) (f : S → Record → S) (s : S)
    (file : GoString) (records : List Record) : Prop :=
  (∃ err, openWithOptions crc options (applying f) s file = .error err) ∨
    ∃ log, openWithOptions crc options (applying f) s file =
        .ok ((records.filter (options.replayAfter < ·.lsn)).foldl f s, log) ∧
      log.file = encodeAll crc records ∧ log.file = file

variable {crc} {S : Type} {f : S → Record → S} {replayAfter last : UInt64} {s : S}
  {rounds validBytes : ℕ} {rest file damaged : GoString} {record : Record} {start : UInt64}
  {init before after : List Record}

lemma error_or_of_ite {ε α : Type} {c p : Prop} [Decidable c] {e : ε} {x : Except ε α}
    (h : ¬ c → (∃ err, x = .error err) ∨ p) :
    (∃ err, (if c then .error e else x) = .error err) ∨ p := by
  split_ifs with hc
  · exact .inl ⟨e, rfl⟩
  · exact h hc

lemma recoverLoop_round (hlen : headerSize ≤ rest.length) :
    (∃ err, recoverLoop crc (applying f) replayAfter (rounds + 1) s last validBytes rest =
      .error err) ∨ Overruns last rest ∨ Passes crc rest := by
  rw [recoverLoop]
  dsimp only
  rw [if_neg (Nat.not_lt.2 hlen)]
  refine error_or_of_ite fun hmagic => error_or_of_ite fun hversion => error_or_of_ite fun hresv =>
    error_or_of_ite fun hmax => error_or_of_ite fun hoper => error_or_of_ite fun hlsn => ?_
  by_cases hshort : (rest.drop headerSize).length < lengthField rest
  · rw [not_or, not_not, not_not] at hresv
    exact .inr (.inl ⟨⟨not_not.1 hmagic, not_not.1 hversion, hresv, Nat.le_of_not_lt hmax,
      Bool.eq_true_of_not_eq_false hoper, fun hne => not_not.1 fun h => hlsn ⟨hne, h⟩⟩, hshort⟩)
  · rw [← lengthField, if_neg hshort]
    exact error_or_of_ite fun hsum =>
      .inr (.inr ⟨not_not.1 hmagic, Nat.le_of_not_lt hshort, not_not.1 hsum⟩)

lemma stops_of_overruns (h : Overruns last rest) : Stops crc f replayAfter last rest := by
  intro s rounds validBytes
  obtain ⟨⟨hmagic, hversion, hresv, hmax, hoper, hlsn⟩, hshort⟩ := h
  rw [recoverLoop]
  dsimp only
  by_cases hlen : rest.length < headerSize
  · rw [if_pos hlen]
  · rw [if_neg hlen, if_neg (not_not.2 hmagic), if_neg (not_not.2 hversion), if_neg fun h =>
      h.elim (absurd hresv.1) (absurd hresv.2), if_neg (Nat.not_lt.2 hmax), if_neg fun h =>
        Bool.false_ne_true (h.symm.trans hoper), if_neg fun h => h.2 (hlsn h.1), ← lengthField,
      if_pos hshort]

/-- Unless it is misled, the loop fails at the first damaged record.  The induction is on the
records before the last, which is not damaged. -/
lemma recoverLoop_damaged (hrecs : Consecutive start (init ++ [record]))
    (hlast : last ≠ 0 → start = last + 1) (hlen : damaged.length = (encodeAll crc init).length)
    (hdetects : Detects crc (init ++ [record]) (damaged ++ encode crc record))
    (hnot : ¬ Misleads crc last (init ++ [record]) (damaged ++ encode crc record))
    (hrounds : init.length < rounds) :
    (∃ err, recoverLoop crc (applying f) replayAfter rounds s last validBytes
      (damaged ++ encode crc record) = .error err) ∨ damaged = encodeAll crc init := by
  induction init generalizing start last s validBytes rounds damaged with
  | nil => exact .inr (length_eq_zero_iff.1 hlen)
  | cons first init ih =>
    obtain ⟨rounds, rfl⟩ : ∃ k, rounds = k + 1 := ⟨rounds - 1, by omega⟩
    rw [encodeAll_cons, length_append] at hlen
    have hheader : headerSize ≤ (damaged ++ encode crc record).length := by
      rw [length_append, length_encode record]
      omega
    rcases @recoverLoop_round crc S f replayAfter last s rounds validBytes _ hheader with
      herr | hover | hpasses
    · exact .inl herr
    · exact absurd ⟨[], _, nil_prefix, rfl, hover⟩ hnot
    · have hprefix := hdetects [] first _ _ rfl rfl hpasses
      obtain ⟨damaged, rfl⟩ := prefix_of_prefix_length_le hprefix
        (prefix_append damaged (encode crc record)) (by omega)
      rw [length_append] at hlen
      cases hrecs with
      | cons hvalid hrest =>
        rw [append_assoc] at hdetects hnot ⊢
        rw [recoverLoop_encode hvalid hlast, encodeAll_cons, append_cancel_left_eq]
        refine ih hrest (fun _ => rfl) (by omega) ?_ ?_ (Nat.lt_of_succ_lt_succ hrounds)
        · intro before other after rest hsplit hfile
          refine hdetects (first :: before) other after rest (congrArg (first :: ·) hsplit) ?_
          rw [hfile, encodeAll_cons, append_assoc]
        · rintro ⟨before, rest, hbefore, hfile, hover⟩
          refine hnot ⟨first :: before, rest, prefix_cons_inj first |>.2 hbefore, ?_, ?_⟩
          · rw [hfile, encodeAll_cons, append_assoc]
          · rwa [lastLSN_cons]

/-- Bytes of a log are changed, but not those of the last record, and the checksum detects the
change.  `OpenWithOptions` fails or recovers all records if and only if no damaged length field
with a plausible header points behind the end of the file. -/
theorem damage_detected_iff {log log' : Log} {calls : List (UInt8 × GoString)} {init : List Record}
    {record : Record} {damaged : GoString} (hempty : log.file = [])
    (hcalls : log.appendAll crc calls = .ok log')
    (hrecs : numbered log.nextLSN calls = init ++ [record])
    (hlen : (damaged ++ encode crc record).length = log'.file.length)
    (hdetects : Detects crc (init ++ [record]) (damaged ++ encode crc record))
    {options : OpenOptions} (hmode : ∀ name, options.syncMode ≠ .other name) (f : S → Record → S)
    (s : S) :
    FailsOrRecovers crc options f s (damaged ++ encode crc record) (init ++ [record]) ↔
      ¬ Misleads crc 0 (init ++ [record]) (damaged ++ encode crc record) := by
  obtain ⟨hcons, hfile⟩ := appendAll_eq_ok hcalls
  have hall : encodeAll crc (init ++ [record]) = encodeAll crc init ++ encode crc record := by
    simp [encodeAll]
  rw [hrecs] at hcons hfile
  have hsame : damaged.length = (encodeAll crc init).length := by
    simpa [hfile, hempty, hall] using hlen
  constructor
  · -- The loop stops behind `before`, and the file is cut there.
    rintro hopen ⟨before, rest, ⟨after, hafter⟩, hsplit, hover⟩
    rw [FailsOrRecovers, hsplit,
      openWithOptions_append hmode (hafter ▸ hcons) (stops_of_overruns hover)] at hopen
    rcases hopen with ⟨err, herr⟩ | ⟨log, hlog, -, hkept⟩
    · cases herr
    · obtain rfl := (Prod.mk.inj (Except.ok.inj hlog)).2
      obtain rfl := self_eq_append_right.1 hkept
      exact absurd hover.1.magic (by decide)
  · intro hnot
    have hle := @length_le_encodeAll crc init
    rcases recoverLoop_damaged hcons (fun h => absurd rfl h) hsame hdetects hnot
      (show init.length < (damaged ++ encode crc record).length + 1 by
        rw [length_append]
        omega) with ⟨err, herr⟩ | rfl
    · refine .inl ⟨err, ?_⟩
      rw [openWithOptions, recoverFile, herr]
      cases hm : options.syncMode with
      | other name => exact absurd hm (hmode name)
      | always | async => rfl
    · obtain ⟨next, hok⟩ := openWithOptions_encodeAll hmode hcons s
      rw [← hall]
      exact .inr ⟨_, hok, rfl, rfl⟩

lemma before_eq_nil {records : List Record} (hne : ¬ encode crc record <+: file)
    (hbefore : before <+: record :: records) (hfile : file = encodeAll crc before ++ rest) :
    before = [] := by
  cases before with
  | nil => rfl
  | cons other before =>
    obtain ⟨rfl, -⟩ := cons_prefix_cons.1 hbefore
    rw [encodeAll_cons, append_assoc] at hfile
    exact absurd ⟨_, hfile.symm⟩ hne

lemma detects_of_first {records : List Record} (hpass : ¬ Passes crc file)
    (hne : ¬ encode crc record <+: file) : Detects crc (record :: records) file := by
  intro before other after rest hsplit hfile h
  obtain rfl := before_eq_nil hne ⟨_, hsplit.symm⟩ hfile
  subst hfile
  exact absurd h hpass

/-- A record with another byte at position `i`. -/
def changedAt (i : ℕ) (value : UInt8) : GoString := (encode (fun _ _ => 0) ⟨1, 1, []⟩).set i value

/-- A log of two records, with a wrong byte in the magic of the first, is not opened. -/
theorem damage_detected_magic : FailsOrRecovers (fun _ _ => 0) ⟨.always, 1, 0⟩
    (fun s record => s ++ [record]) [] (changedAt 0 0 ++ encode (fun _ _ => 0) ⟨2, 1, []⟩)
    [⟨1, 1, []⟩, ⟨2, 1, []⟩] := by
  have hne : ¬ encode (fun _ _ => 0) ⟨1, 1, []⟩ <+:
      changedAt 0 0 ++ encode (fun _ _ => 0) ⟨2, 1, []⟩ := by decide
  refine (@damage_detected_iff (fun _ _ => 0) _ ⟨[], .always, 1⟩ _ [(1, []), (1, [])] [⟨1, 1, []⟩]
    ⟨2, 1, []⟩ (changedAt 0 0) rfl rfl rfl rfl (detects_of_first (fun h => absurd h.1 (by decide)) hne)
    ⟨.always, 1, 0⟩ (by intro name h; cases h) _ []).2 ?_
  rintro ⟨before, rest, hbefore, hfile, hover⟩
  obtain rfl := before_eq_nil hne hbefore hfile
  subst hfile
  exact absurd hover.1.magic (by decide)

/-- A wrong byte in the length field of the first record: the log is opened as an empty one, and
both records are gone. -/
theorem damaged_length_cuts_log :
    Detects (fun _ _ => 0) [⟨1, 1, []⟩, ⟨2, 1, []⟩]
      (changedAt 8 200 ++ encode (fun _ _ => 0) ⟨2, 1, []⟩) ∧
    (changedAt 8 200 ++ encode (fun _ _ => 0) ⟨2, 1, []⟩).length =
      (encodeAll (fun _ _ => 0) [⟨1, 1, []⟩, ⟨2, 1, []⟩]).length ∧
    openWithOptions (fun _ _ => 0) ⟨.always, 1, 0⟩ (applying fun s record => s ++ [record]) []
      (changedAt 8 200 ++ encode (fun _ _ => 0) ⟨2, 1, []⟩) = .ok ([], ⟨[], .always, 1⟩) :=
  ⟨detects_of_first (fun h => absurd h.2.1 (by decide)) (by decide), rfl, rfl⟩

end Damage

end GideonDB.Wal
