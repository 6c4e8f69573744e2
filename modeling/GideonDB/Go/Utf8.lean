/-
What `encoding/json` does to a Go string.

A Go string may hold any bytes, JSON text is UTF-8.  `json.Marshal` writes every byte
that is not part of a well-formed UTF-8 sequence as U+FFFD and everything else so that
`json.Unmarshal` reads it back.  `coerceUTF8` is the string that comes out of such a
round trip: it leaves the well-formed strings alone and always gives a well-formed one,
so the strings that survive the trip are the well-formed ones.
-/
import GideonDB.Go.Strings

namespace GideonDB.Go

/-- What a first byte announces: the number of bytes that follow and the range of the
first of them.  The others range over `0x80` to `0xBF`. -/
def leadingByte (b : UInt8) : Option (ℕ × UInt8 × UInt8) :=
  if b ≤ 0x7F then some (0, 0x80, 0xBF)
  else if b < 0xC2 then none
  else if b ≤ 0xDF then some (1, 0x80, 0xBF)
  else if b = 0xE0 then some (2, 0xA0, 0xBF)
  else if b = 0xED then some (2, 0x80, 0x9F)
  else if b ≤ 0xEF then some (2, 0x80, 0xBF)
  else if b = 0xF0 then some (3, 0x90, 0xBF)
  else if b ≤ 0xF3 then some (3, 0x80, 0xBF)
  else if b = 0xF4 then some (3, 0x80, 0x8F)
  else none

/-- The bytes after a first byte are as many as announced and in range. -/
def acceptTail (k : ℕ) (low high : UInt8) (tail : GoString) : Bool :=
  tail.length == k && tail.head?.all (fun c => low ≤ c && c ≤ high) &&
    tail.tail.all (fun c => 0x80 ≤ c && c ≤ 0xBF)

/-- The number of bytes after the first one of the rune that starts with `b` and goes on
in `s`; `none` where `utf8.DecodeRuneInString` reports `RuneError` and a width of one. -/
def runeTail (b : UInt8) (s : GoString) : Option ℕ :=
  match leadingByte b with
  | none => none
  | some (k, low, high) => if acceptTail k low high (s.take k) then some k else none

/-- Copies the next `k` bytes as they are and the rest rune by rune, with U+FFFD for
every byte that starts no rune. -/
def coerceFrom : ℕ → GoString → GoString
  | _, [] => []
  | k + 1, b :: s => b :: coerceFrom k s
  | 0, b :: s =>
    match runeTail b s with
    | some k => b :: coerceFrom k s
    | none => 0xEF :: 0xBF :: 0xBD :: coerceFrom 0 s

/-- The string that is read back after `json.Marshal` and `json.Unmarshal`. -/
def coerceUTF8 (s : GoString) : GoString := coerceFrom 0 s

/-! ### Coercing twice -/

variable {b : UInt8} {s : GoString} {k : ℕ}

lemma length_take_of_runeTail (h : runeTail b s = some k) : (s.take k).length = k := by
  rw [runeTail] at h
  split at h
  · cases h
  · split at h
    · rename_i haccept
      cases h
      simp only [acceptTail, Bool.and_eq_true, beq_iff_eq] at haccept
      exact haccept.1.1
    · cases h

/-- Whether a rune starts here depends on its own bytes only. -/
lemma runeTail_congr {t : GoString} (h : runeTail b s = some k)
    (ht : t.take k = s.take k) : runeTail b t = some k := by
  rw [runeTail] at h ⊢
  split at h
  · cases h
  · split at h
    · rename_i hlead haccept
      cases h
      simp [ht, haccept]
    · cases h

lemma coerceFrom_eq_take (h : (s.take k).length = k) :
    coerceFrom k s = s.take k ++ coerceFrom 0 (s.drop k) := by
  induction k generalizing s with
  | zero => simp
  | succ k ih =>
    cases s with
    | nil => simp at h
    | cons b s => simpa [coerceFrom] using ih (by simpa using h)

lemma coerceUTF8_cons_of_some (h : runeTail b s = some k) :
    coerceUTF8 (b :: s) = b :: (s.take k ++ coerceUTF8 (s.drop k)) := by
  rw [coerceUTF8, coerceFrom, h]
  exact congrArg (b :: ·) (coerceFrom_eq_take (length_take_of_runeTail h))

lemma coerceUTF8_cons_of_none (h : runeTail b s = none) :
    coerceUTF8 (b :: s) = 0xEF :: 0xBF :: 0xBD :: coerceUTF8 s := by
  rw [coerceUTF8, coerceFrom, h]
  rfl

lemma runeTail_replacement (s : GoString) : runeTail 0xEF (0xBF :: 0xBD :: s) = some 2 := by
  simp [runeTail, leadingByte, acceptTail]

/-- A second trip changes nothing. -/
theorem coerceUTF8_coerceUTF8 (s : GoString) : coerceUTF8 (coerceUTF8 s) = coerceUTF8 s := by
  -- Rune by rune, so by strong induction on the length.
  induction hn : s.length using Nat.strong_induction_on generalizing s with
  | _ n ih =>
    cases s with
    | nil => rfl
    | cons b s =>
      rcases h : runeTail b s with - | k
      · rw [coerceUTF8_cons_of_none h, coerceUTF8_cons_of_some (runeTail_replacement _)]
        simp [ih s.length (by simp [← hn]) s rfl]
      · have hk := length_take_of_runeTail h
        rw [coerceUTF8_cons_of_some h,
          coerceUTF8_cons_of_some (runeTail_congr h (List.take_left' hk)), List.take_left' hk,
          List.drop_left' hk,
          ih _ (by rw [← hn, List.length_drop, List.length_cons]; omega) (s.drop k) rfl]

/-- `utf8.ValidString`: the string is read back as it is. -/
def validUTF8 (s : GoString) : Bool := coerceUTF8 s == s

lemma coerceUTF8_eq_self (h : validUTF8 s) : coerceUTF8 s = s := by
  simpa [validUTF8] using h

lemma validUTF8_coerceUTF8 (s : GoString) : validUTF8 (coerceUTF8 s) := by
  simp [validUTF8, coerceUTF8_coerceUTF8]

lemma validUTF8_of_ascii (h : ∀ b ∈ s, b ≤ 0x7F) : validUTF8 s := by
  rw [validUTF8, beq_iff_eq]
  induction s with
  | nil => rfl
  | cons b s ih =>
    have htail : runeTail b s = some 0 := by
      simp [runeTail, leadingByte, h b (List.mem_cons_self ..), acceptTail]
    rw [coerceUTF8_cons_of_some htail]
    simp [ih (List.forall_mem_cons.1 h).2]

example : coerceUTF8 [0x61, 0xFF, 0xC3, 0xA9] = [0x61, 0xEF, 0xBF, 0xBD, 0xC3, 0xA9] := by decide

end GideonDB.Go
