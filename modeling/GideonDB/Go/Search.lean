/-
`sort.Search`: binary search for the first index at which a predicate holds.

For a predicate that stays true once it is true, the index found is the boundary.  On a
list along which the predicate is monotone, the elements from there on are those that
satisfy it and the ones before are the others (`mem_drop_searchList`,
`mem_take_searchList`).
-/
import Mathlib.Order.Nat

namespace GideonDB.Go

/-- The loop of `sort.Search` over the half-open interval from `i` to `j`. -/
def searchFrom (f : ℕ → Bool) : ℕ → ℕ → ℕ → ℕ
  | 0, i, _ => i
  | fuel + 1, i, j =>
    if i < j then
      if !f ((i + j) / 2) then searchFrom f fuel ((i + j) / 2 + 1) j
      else searchFrom f fuel i ((i + j) / 2)
    else i

/-- `sort.Search(n, f)`. -/
def search (n : ℕ) (f : ℕ → Bool) : ℕ := searchFrom f n 0 n

/-- The interval keeps only false to its left and only true to its right. -/
lemma searchFrom_spec {f : ℕ → Bool} {n fuel i j : ℕ} (hmono : ∀ a b, a ≤ b → b < n → f a → f b)
    (hfuel : j - i ≤ fuel) (hij : i ≤ j) (hj : j ≤ n) (hleft : ∀ k < i, f k = false)
    (hright : ∀ k, j ≤ k → k < n → f k) : (∀ k < searchFrom f fuel i j, f k = false) ∧
      ∀ k, searchFrom f fuel i j ≤ k → k < n → f k := by
  induction fuel generalizing i j with
  | zero =>
    obtain rfl : i = j := by omega
    exact ⟨hleft, hright⟩
  | succ fuel ih =>
    rw [searchFrom]
    split
    · have hmid : (i + j) / 2 < n := by omega
      split
      · rename_i hfalse
        have hfalse : f ((i + j) / 2) = false := by simpa using hfalse
        refine ih (by omega) (by omega) hj (fun k hk => ?_) hright
        by_contra htrue
        have := hmono k _ (by omega) hmid (by simpa using htrue)
        simp [hfalse] at this
      · rename_i htrue
        have htrue : f ((i + j) / 2) = true := by simpa using htrue
        exact ih (by omega) (by omega) (by omega) hleft fun k hk hkn => hmono _ k hk hkn htrue
    · obtain rfl : i = j := by omega
      exact ⟨hleft, hright⟩

lemma search_spec {f : ℕ → Bool} {n : ℕ} (hmono : ∀ a b, a ≤ b → b < n → f a → f b) :
    (∀ k < search n f, f k = false) ∧ ∀ k, search n f ≤ k → k < n → f k :=
  searchFrom_spec hmono (by omega) (by omega) le_rfl (by omega) (by omega)

section Lists

variable {α : Type*}

/-- `sort.Search` for the first element of a list that satisfies a predicate. -/
def searchList (l : List α) (p : α → Bool) : ℕ := search l.length fun i => (l[i]?).any p

variable {l : List α} {p : α → Bool} {x : α} (hmono : l.Pairwise fun x y => p x = true → p y = true)

include hmono

/-- The elements before the index found do not satisfy the predicate, the others do. -/
lemma searchList_spec {i : ℕ} (hx : l[i]? = some x) : (p x ↔ searchList l p ≤ i) := by
  have hspec := search_spec (f := fun i => (l[i]?).any p) (n := l.length) (by
    intro a b hab hb ha
    rcases hab.eq_or_lt with rfl | hlt
    · exact ha
    · rw [List.getElem?_eq_getElem (hlt.trans hb)] at ha
      rw [List.getElem?_eq_getElem hb]
      exact List.pairwise_iff_getElem.1 hmono a b (hlt.trans hb) hb hlt ha)
  have hi := (List.getElem?_eq_some_iff.1 hx).1
  constructor
  · intro hp
    by_contra hlt
    have := hspec.1 i (Nat.lt_of_not_le hlt)
    simp [hx, hp] at this
  · intro hle
    have := hspec.2 i hle hi
    simpa [hx] using this

lemma mem_drop_searchList : x ∈ l.drop (searchList l p) ↔ x ∈ l ∧ p x := by
  constructor
  · intro hx
    obtain ⟨i, hi⟩ := List.mem_iff_getElem?.1 hx
    rw [List.getElem?_drop] at hi
    exact ⟨List.mem_of_getElem? hi, (searchList_spec hmono hi).2 (Nat.le_add_right ..)⟩
  · rintro ⟨hx, hp⟩
    obtain ⟨i, hi⟩ := List.mem_iff_getElem?.1 hx
    have hle := (searchList_spec hmono hi).1 hp
    refine List.mem_of_getElem? (i := i - searchList l p) ?_
    rwa [List.getElem?_drop, Nat.add_sub_cancel' hle]

lemma mem_take_searchList : x ∈ l.take (searchList l p) ↔ x ∈ l ∧ p x = false := by
  constructor
  · intro hx
    obtain ⟨i, hi⟩ := List.mem_iff_getElem?.1 hx
    rw [List.getElem?_take] at hi
    split at hi
    · rename_i hlt
      refine ⟨List.mem_of_getElem? hi, ?_⟩
      rw [← Bool.not_eq_true, searchList_spec hmono hi]
      omega
    · cases hi
  · rintro ⟨hx, hp⟩
    obtain ⟨i, hi⟩ := List.mem_iff_getElem?.1 hx
    have hlt : i < searchList l p := by
      by_contra hle
      rw [(searchList_spec hmono hi).2 (Nat.le_of_not_lt hle)] at hp
      cases hp
    refine List.mem_of_getElem? (i := i) ?_
    rwa [List.getElem?_take, if_pos hlt]

end Lists

end GideonDB.Go
