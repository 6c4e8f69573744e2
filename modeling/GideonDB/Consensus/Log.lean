/-
Replicated logs: the facts about lists of term-stamped entries that the safety
argument of a leader-based consensus protocol rests on.

Entries are elements of an arbitrary type `E` with a function `term : E → ℕ`.
Log positions are counted from one, as in the protocol's messages: the entry at
index `i` of `ℓ` is `ℓ[i - 1]?`, and `ℓ.take i` is the log up to and including
index `i`.
-/
import Mathlib.Tactic.Common

namespace GideonDB.Consensus

open List

variable {E : Type*} (term : E → ℕ)

/-- The term of the entry at index `i`; index `0`, before the first entry, has
term `0`. -/
def termAt (ℓ : List E) (i : ℕ) : ℕ :=
  if i = 0 then 0 else (ℓ[i - 1]?.map term).getD 0

/-- The term of the last entry, `0` for the empty log. -/
def lastTerm (ℓ : List E) : ℕ := termAt term ℓ ℓ.length

/-- `L` is at least as up to date as `ℓ`: its last term is higher, or the last
terms agree and it is at least as long. -/
def UpToDate (L ℓ : List E) : Prop :=
  lastTerm term ℓ < lastTerm term L ∨
    lastTerm term ℓ = lastTerm term L ∧ ℓ.length ≤ L.length

variable {ℓ : List E} {i : ℕ} {e : E}

lemma termAt_succ (h : ℓ[i]? = some e) : termAt term ℓ (i + 1) = term e := by
  simp [termAt, h]

lemma lastTerm_eq (h : ℓ[i]? = some e) (hi : ℓ.length = i + 1) : lastTerm term ℓ = term e := by
  rw [lastTerm, hi, termAt_succ term h]

lemma lastTerm_nil : lastTerm term ([] : List E) = 0 := rfl

@[simp] lemma lastTerm_append_singleton (ℓ : List E) (e : E) :
    lastTerm term (ℓ ++ [e]) = term e :=
  lastTerm_eq term (i := ℓ.length) (by simp) (by simp)

/-! ### Prefixes and initial segments -/

variable {term}

variable {L : List E}

lemma take_eq_take_of_isPrefix (h : L <+: ℓ) (hi : i ≤ L.length) : L.take i = ℓ.take i := by
  obtain ⟨m, rfl⟩ := h
  rw [take_append_of_le_length hi]

lemma getElem?_of_isPrefix (h : L <+: ℓ) (hi : L[i]? = some e) : ℓ[i]? = some e := by
  obtain ⟨m, rfl⟩ := h
  have hlt : i < L.length := (List.getElem?_eq_some_iff.1 hi).1
  rw [getElem?_append_left hlt, hi]

lemma lt_length_of_getElem? (h : ℓ[i]? = some e) : i < ℓ.length :=
  (List.getElem?_eq_some_iff.1 h).1

lemma forall_mem_concat {p : E → Prop} (h : ∀ d ∈ ℓ, p d) (he : p e) : ∀ d ∈ ℓ ++ [e], p d :=
  forall_mem_append.2 ⟨h, forall_mem_singleton.2 he⟩

lemma exists_getElem? (ℓ : List E) (h : i < ℓ.length) : ∃ e, ℓ[i]? = some e :=
  ⟨_, getElem?_eq_getElem h⟩

lemma termAt_of_isPrefix (h : L <+: ℓ) (hi : i ≤ L.length) : termAt term L i = termAt term ℓ i := by
  cases i with
  | zero => rfl
  | succ i =>
    obtain ⟨e, he⟩ := exists_getElem? L (i := i) (by omega)
    rw [termAt_succ term he, termAt_succ term (getElem?_of_isPrefix h he)]

lemma append_singleton_prefix (h : L <+: ℓ) (he : ℓ[L.length]? = some e) : L ++ [e] <+: ℓ := by
  obtain ⟨m, rfl⟩ := h
  cases m with
  | nil => simp at he
  | cons a m =>
    have : a = e := by simpa using he
    subst this
    exact ⟨m, by simp⟩

lemma getElem?_append_singleton {d : E} (h : (ℓ ++ [e])[i]? = some d) :
    ℓ[i]? = some d ∨ i = ℓ.length ∧ d = e := by
  rcases Nat.lt_or_ge i ℓ.length with hi | hi
  · rw [getElem?_append_left hi] at h
    exact .inl h
  · have hlt := lt_length_of_getElem? h
    rw [length_append, length_singleton] at hlt
    obtain rfl : i = ℓ.length := by omega
    rw [getElem?_concat_length, Option.some.injEq] at h
    exact .inr ⟨rfl, h.symm⟩

lemma take_succ_eq (h : ℓ[i]? = some e) : ℓ.take (i + 1) = ℓ.take i ++ [e] := by
  rw [take_add_one, h]
  rfl

/-! ### The point where two logs part -/

variable [DecidableEq E]

/-- The longest common initial segment of two logs. -/
def common : List E → List E → List E
  | a :: L, b :: ℓ => if a = b then a :: common L ℓ else []
  | _, _ => []

lemma common_prefix_left (L ℓ : List E) : common L ℓ <+: L := by
  induction L generalizing ℓ with
  | nil => simp [common]
  | cons a L ih =>
    cases ℓ with
    | nil => simp [common]
    | cons b ℓ =>
      by_cases h : a = b
      · rw [common, if_pos h]
        exact (cons_prefix_cons).2 ⟨rfl, ih ℓ⟩
      · rw [common, if_neg h]
        exact nil_prefix

lemma common_comm (L ℓ : List E) : common L ℓ = common ℓ L := by
  induction L generalizing ℓ with
  | nil => cases ℓ <;> rfl
  | cons a L ih =>
    cases ℓ with
    | nil => rfl
    | cons b ℓ =>
      by_cases h : a = b
      · subst h
        simp [common, ih ℓ]
      · simp [common, h, Ne.symm h]

lemma common_prefix_right (L ℓ : List E) : common L ℓ <+: ℓ := by
  rw [common_comm]
  exact common_prefix_left ℓ L

lemma prefix_common {m : List E} (h₁ : m <+: L) (h₂ : m <+: ℓ) : m <+: common L ℓ := by
  induction m generalizing L ℓ with
  | nil => exact nil_prefix
  | cons a m ih =>
    obtain ⟨x, rfl⟩ := h₁
    obtain ⟨y, rfl⟩ := h₂
    rw [cons_append, cons_append, common, if_pos rfl]
    exact cons_prefix_cons.2 ⟨rfl, ih (prefix_append m x) (prefix_append m y)⟩

lemma common_parts (h₁ : L[(common L ℓ).length]? = some e)
    (h₂ : ℓ[(common L ℓ).length]? = some e) : False := by
  have hL := append_singleton_prefix (common_prefix_left L ℓ) h₁
  have hℓ := append_singleton_prefix (common_prefix_right L ℓ) h₂
  have hlen := (prefix_common hL hℓ).length_le
  rw [length_append, length_singleton] at hlen
  omega

end GideonDB.Consensus
