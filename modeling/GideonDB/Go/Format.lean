/-
Decimal numbers in Go strings, and strings put together around a separator.

`formatUint` is `strconv.FormatUint(n, 10)` and `%d`.  It determines the number (`parseUint`
reads it back) and contains no NUL byte, so a name built from a string, a NUL byte and a
number determines both.
-/
import GideonDB.Go.Strings
import Mathlib.Data.Nat.Digits.Defs

namespace GideonDB.Go

open List

def digitByte (d : ℕ) : UInt8 := UInt8.ofNat (48 + d)

/-- `strconv.FormatUint(n, 10)`. -/
def formatUint (n : ℕ) : GoString :=
  if n = 0 then [48] else ((Nat.digits 10 n).map digitByte).reverse

/-- The number a string of digits stands for. -/
def parseUint (s : GoString) : ℕ := s.foldl (fun n b => 10 * n + (b.toNat - 48)) 0

/-! ### Reading a number back -/

lemma toNat_digitByte {d : ℕ} (h : d < 10) : (digitByte d).toNat = 48 + d := by
  rw [digitByte, UInt8.toNat_ofNat']
  omega

lemma foldl_digitByte {ds : List ℕ} (h : ∀ d ∈ ds, d < 10) :
    parseUint (ds.map digitByte).reverse = Nat.ofDigits 10 ds := by
  induction ds with
  | nil => rfl
  | cons d ds ih =>
    have hd := toNat_digitByte (h d (mem_cons_self ..))
    have ih := ih (forall_mem_cons.1 h).2
    rw [parseUint] at ih
    simp only [parseUint, map_cons, reverse_cons, foldl_append, ih, foldl_cons,
      foldl_nil, hd, Nat.ofDigits_cons]
    omega

@[simp] lemma parseUint_formatUint (n : ℕ) : parseUint (formatUint n) = n := by
  rw [formatUint]
  split_ifs with h
  · rw [h]
    rfl
  · rw [foldl_digitByte fun d hd => Nat.digits_lt_base (by omega) hd, Nat.ofDigits_digits]

lemma formatUint_inj {m n : ℕ} (h : formatUint m = formatUint n) : m = n := by
  rw [← parseUint_formatUint m, h, parseUint_formatUint]

lemma mem_formatUint {n : ℕ} {b : UInt8} (h : b ∈ formatUint n) : 48 ≤ b ∧ b ≤ 57 := by
  rw [formatUint] at h
  split at h
  · obtain rfl := mem_singleton.1 h
    decide
  · rw [mem_reverse, mem_map] at h
    obtain ⟨d, hd, rfl⟩ := h
    have hlt := Nat.digits_lt_base (by omega : 1 < 10) hd
    have hnat := toNat_digitByte hlt
    exact ⟨UInt8.le_iff_toNat_le.2 (by rw [hnat]; simp), UInt8.le_iff_toNat_le.2 (by
      rw [hnat]
      simp only [UInt8.toNat_ofNat]
      omega)⟩

/-! ### Strings around a separator -/

/-- The last separator of a string splits it in one way only. -/
lemma append_cons_inj {α : Type*} {a : α} {left left' right right' : List α} (h : a ∉ right)
    (h' : a ∉ right') (heq : left ++ a :: right = left' ++ a :: right') :
    left = left' ∧ right = right' := by
  rcases append_eq_append_iff.1 heq with ⟨mid, hleft, hright⟩ | ⟨mid, hleft, hright⟩
  · cases mid with
    | nil => simpa [eq_comm] using And.intro hleft hright
    | cons b mid =>
      rw [cons_append, cons.injEq] at hright
      exact absurd (hright.2 ▸ mem_append_right _ (mem_cons_self ..)) h
  · cases mid with
    | nil => simpa [eq_comm] using And.intro hleft hright
    | cons b mid =>
      rw [cons_append, cons.injEq] at hright
      exact absurd (hright.2 ▸ mem_append_right _ (mem_cons_self ..)) h'

lemma zero_notMem_formatUint (n : ℕ) : (0 : UInt8) ∉ formatUint n := fun h =>
  absurd (mem_formatUint h).1 (by decide)

end GideonDB.Go
