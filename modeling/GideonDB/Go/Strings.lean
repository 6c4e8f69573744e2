/-
Go strings and the parts of the `sort` package that work on them.

A Go string is a sequence of bytes, compared byte by byte.  `sortStrings` is
`sort.Strings`, `searchStrings` is `sort.SearchStrings` with its binary search, and
`stringSet` lists the keys of the map a list of strings is turned into.
-/
import Mathlib.Algebra.Group.Nat.Defs
import Mathlib.Data.List.Dedup
import Mathlib.Data.List.Sort

namespace GideonDB.Go

/-- A Go string: its bytes. -/
abbrev GoString := List UInt8

instance lawfulBEqGoString : LawfulBEq GoString := inferInstance

/-- The bytes of a literal. -/
def bytes (s : String) : GoString := s.toUTF8.toList

/-- `left <= right` for Go strings. -/
def leString : GoString → GoString → Bool
  | [], _ => true
  | _ :: _, [] => false
  | a :: left, b :: right => a < b || (a == b && leString left right)

/-! ### The order of strings -/

variable {x y : GoString}

lemma leString_iff : leString x y ↔ x ≤ y := by
  induction x generalizing y with
  | nil => simp [leString]
  | cons a x ih =>
    cases y with
    | nil => simp [leString]
    | cons b y => simp [leString, List.cons_le_cons_iff, ih]

lemma leString_refl (x : GoString) : leString x x := leString_iff.2 (List.le_refl x)

lemma leString_trans {z : GoString} (hxy : leString x y) (hyz : leString y z) : leString x z :=
  leString_iff.2 (List.le_trans (leString_iff.1 hxy) (leString_iff.1 hyz))

lemma leString_total (x y : GoString) : leString x y ∨ leString y x := by
  simpa only [leString_iff] using List.le_total x y

lemma leString_antisymm (hxy : leString x y) (hyx : leString y x) : x = y :=
  List.le_antisymm (leString_iff.1 hxy) (leString_iff.1 hyx)

/-- The order of strings. -/
def StringLE (x y : GoString) : Prop := leString x y = true
deriving Decidable

instance : Std.Total StringLE := ⟨leString_total⟩

instance : IsTrans GoString StringLE := ⟨fun _ _ _ => leString_trans⟩

/-- The order is linear. -/
abbrev linearOrderGoString : LinearOrder GoString where
  le_refl := List.le_refl
  le_trans _ _ _ := List.le_trans
  le_antisymm _ _ := List.le_antisymm
  le_total := List.le_total
  lt_iff_le_not_ge _ _ := by rw [List.not_le, and_iff_right_of_imp List.le_of_lt]
  toDecidableLE := inferInstance
  toOrd := ⟨fun x y => compareOfLessAndEq x y⟩

/-! ### A score first -/

section Scores

variable {α σ : Type} [LinearOrder σ] {le tie : α → α → Prop} {score : α → σ}

lemma not_lt_and_iff {s t : σ} {p : Prop} : ¬ s < t ∧ (¬ s = t ∨ p) ↔ t < s ∨ s = t ∧ p := by
  rw [not_lt, le_iff_lt_or_eq]
  constructor
  · rintro ⟨hlt | heq, hp⟩
    · exact .inl hlt
    · exact .inr ⟨heq.symm, hp.resolve_left (not_not.2 heq.symm)⟩
  · rintro (hlt | ⟨heq, hp⟩)
    · exact ⟨.inl hlt, .inl hlt.ne'⟩
    · exact ⟨.inr heq.symm, .inr hp⟩

lemma total_of_score (htotal : ∀ x y, tie x y ∨ tie y x)
    (h : ∀ x y, le x y ↔ score y < score x ∨ score x = score y ∧ tie x y) : Std.Total le := by
  refine ⟨fun x y => ?_⟩
  rw [h, h]
  rcases lt_trichotomy (score x) (score y) with hlt | heq | hgt
  · exact .inr (.inl hlt)
  · exact (htotal x y).imp (fun hxy => .inr ⟨heq, hxy⟩) fun hyx => .inr ⟨heq.symm, hyx⟩
  · exact .inl (.inl hgt)

lemma isTrans_of_score (htrans : ∀ x y z, tie x y → tie y z → tie x z)
    (h : ∀ x y, le x y ↔ score y < score x ∨ score x = score y ∧ tie x y) : IsTrans α le := by
  refine ⟨fun x y z hxy hyz => ?_⟩
  rw [h] at hxy hyz ⊢
  rcases hxy with hlt | ⟨heq, hxy⟩
  · rcases hyz with hlt' | ⟨heq', -⟩
    · exact .inl (hlt'.trans hlt)
    · exact .inl (heq' ▸ hlt)
  · rcases hyz with hlt' | ⟨heq', hyz⟩
    · exact .inl (heq ▸ hlt')
    · exact .inr ⟨heq.trans heq', htrans x y z hxy hyz⟩

lemma tie_of_score (h : ∀ x y, le x y ↔ score y < score x ∨ score x = score y ∧ tie x y) {x y : α}
    (hxy : le x y) (hyx : le y x) : score x = score y ∧ tie x y ∧ tie y x := by
  rw [h] at hxy hyx
  rcases hxy with hlt | ⟨heq, hxy⟩ <;> rcases hyx with hlt' | ⟨heq', hyx⟩
  · exact absurd hlt' hlt.not_gt
  · exact absurd heq' hlt.ne
  · exact absurd heq hlt'.ne
  · exact ⟨heq, hxy, hyx⟩

end Scores

/-! ### Sorting and searching -/

lemma insertionSort_eq_of_perm {α : Type} {r : α → α → Prop} [DecidableRel r] [Std.Total r]
    [IsTrans α r] {l l' : List α} (hperm : l.Perm l')
    (hanti : ∀ a ∈ l, ∀ b ∈ l, r a b → r b a → a = b) : l.insertionSort r = l'.insertionSort r := by
  have hl := l.perm_insertionSort r
  have hl' := hperm.trans (l'.perm_insertionSort r).symm
  exact (hl.trans hl').eq_of_pairwise (fun a b ha hb => hanti a (hl.mem_iff.1 ha) b (hl'.mem_iff.2 hb))
    (l.pairwise_insertionSort r) (l'.pairwise_insertionSort r)

/-- `sort.Strings`, as the list it leaves. -/
def sortStrings (values : List GoString) : List GoString := values.insertionSort StringLE

lemma pairwise_sortStrings (values : List GoString) : (sortStrings values).Pairwise StringLE :=
  List.pairwise_insertionSort _ _

variable {values : List GoString}

@[simp] lemma mem_sortStrings : x ∈ sortStrings values ↔ x ∈ values :=
  (List.perm_insertionSort StringLE values).mem_iff

lemma sortStrings_of_pairwise (h : values.Pairwise StringLE) : sortStrings values = values :=
  h.insertionSort_eq

lemma sortStrings_eq_of_perm {values' : List GoString} (h : values.Perm values') :
    sortStrings values = sortStrings values' :=
  insertionSort_eq_of_perm h fun _ _ _ _ => leString_antisymm

/-- The loop of `sort.Search`: the half-open interval from `i` to `j` is halved
until it is empty. -/
def searchLoop (values : List GoString) (wanted : GoString) : ℕ → ℕ → ℕ → ℕ
  | 0, i, _ => i
  | fuel + 1, i, j =>
    if i < j then
      if leString wanted (values.getD ((i + j) / 2) []) then
        searchLoop values wanted fuel i ((i + j) / 2)
      else searchLoop values wanted fuel ((i + j) / 2 + 1) j
    else i

def searchStrings (values : List GoString) (wanted : GoString) : ℕ :=
  searchLoop values wanted values.length 0 values.length

/-! ### Sets of strings -/

/-- The keys of the map built from a list of strings, each once. -/
def stringSet (values : List GoString) : List GoString := values.dedup

@[simp] lemma mem_stringSet : x ∈ stringSet values ↔ x ∈ values :=
  List.mem_dedup

end GideonDB.Go
