/-
The `k` best of a list, by a heap.

A heap has its worst element at the root: it takes a new element as long as it has fewer than `k`,
and from then on it exchanges its root for an element that is better.  Whatever the order in which
the elements come, none that is kept is worse than one that is not (`topK_spec`).  The best of a
list can be taken from the best of its parts (`TopOf.flatMap`).  With an order that tells the
elements apart, an element is kept if and only if fewer than `k` are better (`TopOf.mem_iff`), and
the best can be taken from a list that was cut only if none of them was cut
(`TopOf.eq_iff_subset`).
-/
import GideonDB.Go.Strings
import Mathlib.Data.List.Induction
import Mathlib.Data.List.Perm.Subperm

namespace GideonDB.Go

open List

/-! ### The loops -/

section Loops

variable {α : Type} (worse : α → α → Bool)

/-- The loop of a push: the element at `position` goes up while it is worse than its parent. -/
def siftUp : ℕ → ℕ → Array α → Array α
  | 0, _, h => h
  | rounds + 1, position, h =>
    if position = 0 then h
    else
      match h[position]?, h[(position - 1) / 2]? with
      | some x, some parent =>
        if worse x parent then
          siftUp rounds ((position - 1) / 2) (h.swapIfInBounds position ((position - 1) / 2))
        else h
      | _, _ => h

/-- A push: the new element starts at the end and goes up. -/
def pushHeap (h : Array α) (x : α) : Array α := siftUp worse h.size h.size (h.push x)

/-- The worse of two children. -/
def worstChild (h : Array α) (left : ℕ) : ℕ :=
  match h[left]?, h[left + 1]? with
  | some x, some y => if worse y x then left + 1 else left
  | _, _ => left

/-- The loop of a repair: the element at `position` goes down while a child is worse. -/
def siftDown : ℕ → ℕ → Array α → Array α
  | 0, _, h => h
  | rounds + 1, position, h =>
    match h[position]?, h[worstChild worse h (position * 2 + 1)]? with
    | some x, some child =>
      if worse child x then
        siftDown rounds (worstChild worse h (position * 2 + 1))
          (h.swapIfInBounds position (worstChild worse h (position * 2 + 1)))
      else h
    | _, _ => h

/-- `heap.Fix` at the root. -/
def fixRoot (h : Array α) : Array α := siftDown worse h.size 0 h

/-- A pop: the last element takes the place of the root and goes down. -/
def popHeap (h : Array α) : Option (α × Array α) :=
  match h[0]?, h.back? with
  | some root, some last => some (root, fixRoot worse (h.pop.setIfInBounds 0 last))
  | _, _ => none

/-- The heap takes an element. -/
def offer (k : ℕ) (h : Array α) (x : α) : Array α :=
  if h.size < k then pushHeap worse h x
  else
    match h[0]? with
    | some root => if worse root x then fixRoot worse (h.set! 0 x) else h
    | none => h

/-- One element of the list, in a heap that is coarser than the comparison with its root. -/
def offerBy (coarse : α → α → Bool) (k : ℕ) (h : Array α) (x : α) : Array α :=
  if h.size < k then pushHeap coarse h x
  else
    match h[0]? with
    | some root => if worse root x then fixRoot coarse (h.set! 0 x) else h
    | none => h

/-- The inner loop of a sort: the elements before `x` are given from the last one on. -/
def insertBack (x : α) : List α → List α
  | [] => [x]
  | y :: before => if worse y x then y :: insertBack x before else x :: y :: before

/-- A sort by insertion, the best one first. -/
def sortBest (l : List α) : List α :=
  (l.foldl (fun before x => insertBack worse x before) []).reverse

/-- The `k` best elements of a list. -/
def topK (k : ℕ) (l : List α) : List α := sortBest worse (l.foldl (offer worse k) #[]).toList

end Loops

/-! ### Heaps -/

variable {position k : ℕ}

section Heaps

variable {α : Type} {worse : α → α → Bool}

variable (worse) in
/-- The order that a comparison stands for. -/
def NotWorse (a b : α) : Prop := worse a b = false
deriving Decidable

variable (worse) in
/-- No element is worse than its parent, apart from those at `hole`. -/
def HeapExcept (hole : ℕ → Prop) (h : Array α) : Prop :=
  ∀ i x y, 0 < i → ¬ hole i → h[i]? = some x → h[(i - 1) / 2]? = some y → NotWorse worse x y

variable {h : Array α}

lemma getElem?_swapIfInBounds {i j : ℕ} (hi : i < h.size) (hj : j < h.size) (k : ℕ) :
    (h.swapIfInBounds i j)[k]? = if k = i then h[j]? else if k = j then h[i]? else h[k]? := by
  grind

lemma perm_swapIfInBounds (h : Array α) (i j : ℕ) :
    (h.swapIfInBounds i j).toList.Perm h.toList := by
  rw [Array.swapIfInBounds_def]
  split
  · split
    · exact (Array.swap_perm _ _).toList
    · exact .rfl
  · exact .rfl

lemma perm_siftUp (rounds position : ℕ) (h : Array α) :
    (siftUp worse rounds position h).toList.Perm h.toList := by
  induction rounds generalizing position h with
  | zero => exact .rfl
  | succ rounds ih =>
    rw [siftUp]
    split
    · exact .rfl
    split
    · split
      · exact (ih _ _).trans (perm_swapIfInBounds _ _ _)
      · exact .rfl
    · exact .rfl

lemma perm_siftDown (rounds position : ℕ) (h : Array α) :
    (siftDown worse rounds position h).toList.Perm h.toList := by
  induction rounds generalizing position h with
  | zero => exact .rfl
  | succ rounds ih =>
    rw [siftDown]
    split
    · split
      · exact (ih _ _).trans (perm_swapIfInBounds _ _ _)
      · exact .rfl
    · exact .rfl

lemma perm_pushHeap (h : Array α) (x : α) : (pushHeap worse h x).toList.Perm (x :: h.toList) := by
  refine (perm_siftUp _ _ _).trans ?_
  rw [Array.toList_push]
  exact perm_append_singleton x h.toList

lemma popHeap_spec (h : Array α) : popHeap worse h = none ∧ h.toList = [] ∨
      ∃ root h', popHeap worse h = some (root, h') ∧ h.toList.Perm (root :: h'.toList) := by
  obtain ⟨l⟩ := h
  cases l with
  | nil => exact .inl ⟨rfl, rfl⟩
  | cons root l =>
    rcases eq_nil_or_concat l with rfl | ⟨init, last, rfl⟩
    · exact .inr ⟨root, _, rfl, (perm_siftDown _ _ _).symm.cons root⟩
    · have hlast : (root :: (init ++ [last])).getLast? = some last :=
        @List.getLast?_concat _ (root :: init) last
      have hinit : (root :: (init ++ [last])).dropLast = root :: init :=
        @List.dropLast_concat _ (root :: init) last
      rw [concat_eq_append]
      refine .inr ⟨root, fixRoot worse ⟨last :: init⟩, by simp [popHeap, hlast, hinit], ?_⟩
      refine (List.Perm.cons root ((perm_append_singleton last init).trans ?_))
      exact (perm_siftDown _ _ _).symm

variable (worse) in
/-- The children of the hole are not worse than its parent. -/
def Grand (hole : ℕ) (h : Array α) : Prop :=
  ∀ i x y, 0 < hole → 0 < i → (i - 1) / 2 = hole → h[i]? = some x → h[(hole - 1) / 2]? = some y →
    NotWorse worse x y

variable {x y : α}

lemma notWorse_of_worse [Std.Total (NotWorse worse)] (h : worse x y) : NotWorse worse y x := by
  rcases Std.Total.total (r := NotWorse worse) x y with hxy | hyx
  · rw [NotWorse, h] at hxy
    cases hxy
  · exact hyx

lemma NotWorse.rfl [Std.Total (NotWorse worse)] : NotWorse worse x x :=
  (Std.Total.total x x).elim id id

lemma NotWorse.trans [IsTrans α (NotWorse worse)] {z : α} (h : NotWorse worse x y)
    (h' : NotWorse worse y z) : NotWorse worse x z := IsTrans.trans _ _ _ h h'

variable (worse) in
/-- No element is worse than its parent. -/
def IsHeap (h : Array α) : Prop := HeapExcept worse (fun _ => False) h

lemma isHeap_empty : IsHeap worse (#[] : Array α) := by
  intro i x y _ _ hx
  simp at hx

lemma worstChild_isSome (worse : α → α → Bool) {i : ℕ} (hi : 0 < i) (hpar : (i - 1) / 2 = position)
    {z : α} (hz : h[i]? = some z) :
    ∃ child, h[worstChild worse h (position * 2 + 1)]? = some child := by
  have hlt := (Array.getElem?_eq_some_iff.1 hz).1
  have hleft : h[position * 2 + 1]? = some (h[position * 2 + 1]) := Array.getElem?_eq_getElem (by omega)
  rw [worstChild.eq_def]
  split
  · rename_i x y hx hy
    split
    · exact ⟨y, hy⟩
    · exact ⟨x, hx⟩
  · exact ⟨_, hleft⟩

/-! ### The best elements -/

variable (worse) in
/-- `kept` are `k` best elements of `l`, or all of them. -/
def TopOf (k : ℕ) (l kept : List α) : Prop :=
  ∃ rest, (kept ++ rest).Perm l ∧ kept.length = min k l.length ∧
    ∀ x ∈ kept, ∀ y ∈ rest, NotWorse worse x y

variable {l l' kept : List α}

lemma TopOf.perm {kept' : List α} (h : TopOf worse k l kept)
    (hperm : kept'.Perm kept) : TopOf worse k l kept' := by
  obtain ⟨rest, hrest, hlength, hbest⟩ := h
  exact ⟨rest, (hperm.append_right rest).trans hrest, hperm.length_eq.trans hlength,
    fun x hx => hbest x (hperm.mem_iff.1 hx)⟩

lemma TopOf.of_perm (h : TopOf worse k l kept) (hperm : l.Perm l') : TopOf worse k l' kept := by
  obtain ⟨rest, hrest, hlength, hbest⟩ := h
  exact ⟨rest, hrest.trans hperm, by rw [hlength, hperm.length_eq], hbest⟩

lemma TopOf.sublist_perm (h : TopOf worse k l kept) : kept.Subperm l := by
  obtain ⟨rest, hperm, -, -⟩ := h
  exact (sublist_append_left kept rest).subperm.trans hperm.subperm

lemma subperm_map {β : Type} (f : α → β) (h : l.Subperm l') : (l.map f).Subperm (l'.map f) := by
  obtain ⟨l₁, hperm, hsublist⟩ := h
  exact ⟨l₁.map f, hperm.map f, hsublist.map f⟩

lemma nodup_of_subperm (h : l.Subperm l') (hnodup : l'.Nodup) : l.Nodup := by
  obtain ⟨l₁, hperm, hsublist⟩ := h
  exact hperm.nodup_iff.1 (hsublist.nodup hnodup)

/-- All that are kept are better than an element that is not. -/
lemma TopOf.countP_eq_of_notMem (h : TopOf worse k l kept)
    (hanti : ∀ x ∈ l, ∀ y ∈ l, NotWorse worse x y → NotWorse worse y x → x = y) (hx : x ∈ l)
    (hnot : x ∉ kept) : kept.countP (worse x) = k := by
  obtain ⟨rest, hperm, hlength, hbest⟩ := h
  have hrest : x ∈ rest := (mem_append.1 (hperm.mem_iff.2 hx)).resolve_left hnot
  have hall : kept.countP (worse x) = kept.length := by
    refine countP_eq_length.2 fun y hy => ?_
    by_contra hworse
    have hxy : x = y := hanti x hx y (hperm.mem_iff.1 (mem_append_left _ hy))
      (eq_false_of_ne_true hworse) (hbest y hy x hrest)
    exact hnot (hxy ▸ hy)
  have hsize := hperm.length_eq
  rw [length_append] at hsize
  have := length_pos_of_mem hrest
  omega

/-- The inner loop is the insertion into a list with the worst element first. -/
lemma insertBack_eq (x : α) (l : List α) :
    insertBack worse x l = l.orderedInsert (fun a b => NotWorse worse b a) x := by
  induction l with
  | nil => rfl
  | cons y l ih =>
    rw [insertBack, orderedInsert, ih]
    by_cases h : worse y x = true <;> simp [NotWorse, h]

variable [Std.Total (NotWorse worse)]

lemma countP_worse_lt {l : List α} {x : α} (hx : x ∈ l) : l.countP (worse x) < l.length := by
  refine lt_of_le_of_ne countP_le_length fun heq => ?_
  have hself : worse x x = true := countP_eq_length.1 heq x hx
  rw [show worse x x = false from NotWorse.rfl] at hself
  cases hself

/-- An element is kept if and only if fewer than `k` are better. -/
theorem TopOf.mem_iff (h : TopOf worse k l kept)
    (hanti : ∀ x ∈ l, ∀ y ∈ l, NotWorse worse x y → NotWorse worse y x → x = y)
    (hx : x ∈ l) : x ∈ kept ↔ l.countP (worse x) < k := by
  constructor
  · -- nothing better was left out
    intro hkept
    obtain ⟨rest, hperm, hlength, hbest⟩ := h
    have hrest : rest.countP (worse x) = 0 :=
      countP_eq_zero.2 fun y hy => Bool.eq_false_iff.1 (hbest x hkept y hy)
    have hlt := @countP_worse_lt α worse _ kept x hkept
    rw [← hperm.countP_eq, countP_append]
    omega
  · intro hlt
    by_contra hnot
    have hall := h.countP_eq_of_notMem hanti hx hnot
    have hle := h.sublist_perm.countP_le (worse x)
    omega

/-- If the list is cut before its best elements are taken, the best ones are the same if and only
if none of them was cut. -/
theorem TopOf.eq_iff_subset {cut best : List α} (hcut : cut.Subperm l) (hnodup : l.Nodup)
    (hanti : ∀ x ∈ l, ∀ y ∈ l, NotWorse worse x y → NotWorse worse y x → x = y)
    (hkept : TopOf worse k cut kept) (hkeptSorted : kept.Pairwise (NotWorse worse))
    (hbest : TopOf worse k l best) (hbestSorted : best.Pairwise (NotWorse worse)) :
    kept = best ↔ ∀ x ∈ best, x ∈ cut := by
  have hkeptCut : ∀ x ∈ kept, x ∈ cut := fun x hx => hkept.sublist_perm.subset hx
  have hbestAll : ∀ x ∈ best, x ∈ l := fun x hx => hbest.sublist_perm.subset hx
  have hcutAll : ∀ x ∈ cut, x ∈ l := fun x hx => hcut.subset hx
  have hbestNodup : best.Nodup := nodup_of_subperm hbest.sublist_perm hnodup
  have hkeptNodup : kept.Nodup := nodup_of_subperm (hkept.sublist_perm.trans hcut) hnodup
  refine ⟨fun heq x hx => hkeptCut x (heq ▸ hx), fun hsubset => ?_⟩
  have hmem : ∀ x, x ∈ kept ↔ x ∈ best := by
    intro x
    have hrank : ∀ hx : x ∈ cut, x ∈ kept ↔ cut.countP (worse x) < k := fun hx =>
      hkept.mem_iff (fun y hy z hz => hanti y (hcutAll y hy) z (hcutAll z hz)) hx
    constructor
    · intro hx
      have hxcut := hkeptCut x hx
      by_contra hnot
      have hall := hbest.countP_eq_of_notMem hanti (hcutAll x hxcut) hnot
      have hle := (List.Nodup.subperm hbestNodup fun y hy => hsubset y hy).countP_le (worse x)
      have hlt := (hrank hxcut).1 hx
      omega
    · intro hx
      refine (hrank (hsubset x hx)).2 ((hcut.countP_le _).trans_lt ?_)
      exact (hbest.mem_iff hanti (hbestAll x hx)).1 hx
  have hperm := (perm_ext_iff_of_nodup hkeptNodup hbestNodup).2 hmem
  exact hperm.eq_of_pairwise (fun x y hx hy => hanti x (hcutAll x (hkeptCut x hx)) y
    (hbestAll y hy)) hkeptSorted hbestSorted

/-! ### Heaps in order -/

lemma worstChild_spec {child : α}
    (hchild : h[worstChild worse h (position * 2 + 1)]? = some child) :
    0 < worstChild worse h (position * 2 + 1) ∧
      (worstChild worse h (position * 2 + 1) - 1) / 2 = position ∧
      ∀ i z, 0 < i → (i - 1) / 2 = position → h[i]? = some z → NotWorse worse z child := by
  have hcases : ∀ i, 0 < i → (i - 1) / 2 = position → i = position * 2 + 1 ∨ i = position * 2 + 2 := by
    omega
  rw [worstChild.eq_def] at hchild ⊢
  split at hchild
  · rename_i x y hx hy
    by_cases hworse : worse y x = true
    · rw [if_pos hworse] at hchild ⊢
      refine ⟨by omega, by omega, fun i z hi hpar hz => ?_⟩
      obtain rfl := Option.mem_unique hy hchild
      rcases hcases i hi hpar with rfl | rfl
      · obtain rfl := Option.mem_unique hx hz
        exact notWorse_of_worse hworse
      · obtain rfl := Option.mem_unique hy hz
        exact .rfl
    · rw [if_neg hworse] at hchild ⊢
      refine ⟨by omega, by omega, fun i z hi hpar hz => ?_⟩
      obtain rfl := Option.mem_unique hx hchild
      rcases hcases i hi hpar with rfl | rfl
      · obtain rfl := Option.mem_unique hx hz
        exact .rfl
      · obtain rfl := Option.mem_unique hy hz
        exact eq_false_of_ne_true hworse
  · rename_i hnone
    refine ⟨by omega, by omega, fun i z hi hpar hz => ?_⟩
    rcases hcases i hi hpar with rfl | rfl
    · obtain rfl := Option.mem_unique hchild hz
      exact .rfl
    · exact (hnone _ _ hchild hz).elim

lemma HeapExcept.swap_down (hexcept : HeapExcept worse (fun i => (i - 1) / 2 = position) h)
    (hgrand : Grand worse position h) {child : α} (hx : h[position]? = some x)
    (hchild : h[worstChild worse h (position * 2 + 1)]? = some child) (hworse : worse child x) :
    HeapExcept worse (fun i => (i - 1) / 2 = worstChild worse h (position * 2 + 1))
        (h.swapIfInBounds position (worstChild worse h (position * 2 + 1))) ∧
      Grand worse (worstChild worse h (position * 2 + 1))
        (h.swapIfInBounds position (worstChild worse h (position * 2 + 1))) := by
  obtain ⟨hpos, hpar, hworst⟩ := worstChild_spec hchild
  have hposition := (Array.getElem?_eq_some_iff.1 hx).1
  have hlt := (Array.getElem?_eq_some_iff.1 hchild).1
  generalize worstChild worse h (position * 2 + 1) = w at *
  have hne : w ≠ position := by omega
  constructor
  · intro i a b hi hhole ha hb
    rw [getElem?_swapIfInBounds hposition hlt] at ha hb
    by_cases hip : i = position
    · subst hip
      rw [if_pos rfl, hchild] at ha
      rw [if_neg (by omega), if_neg (by omega)] at hb
      cases ha
      exact hgrand w child b hi hpos hpar hchild hb
    rw [if_neg hip] at ha
    by_cases hiw : i = w
    · subst hiw
      rw [if_pos rfl, hx] at ha
      rw [if_pos hpar, hchild] at hb
      cases ha
      cases hb
      exact notWorse_of_worse hworse
    rw [if_neg hiw] at ha
    rw [if_neg hhole] at hb
    split_ifs at hb with hsib
    · rw [hchild] at hb
      cases hb
      exact hworst i a hi hsib ha
    · exact hexcept i a b hi hsib ha hb
  · intro i a b _ hi hgrandchild ha hb
    rw [getElem?_swapIfInBounds hposition hlt] at ha hb
    rw [if_neg (by omega), if_neg (by omega)] at ha
    rw [if_pos hpar, hchild] at hb
    cases hb
    exact hexcept i a child hi (by omega) ha (by rw [hgrandchild, hchild])

variable [IsTrans α (NotWorse worse)]

lemma HeapExcept.swap_up (hpos : 0 < position) (hposition : position < h.size)
    (hexcept : HeapExcept worse (· = position) h) (hgrand : Grand worse position h)
    (hx : h[position]? = some x) (hy : h[(position - 1) / 2]? = some y) (hworse : worse x y) :
    HeapExcept worse (· = (position - 1) / 2) (h.swapIfInBounds position ((position - 1) / 2)) ∧
      Grand worse ((position - 1) / 2) (h.swapIfInBounds position ((position - 1) / 2)) := by
  have hpar : (position - 1) / 2 < h.size := by omega
  have hne : (position - 1) / 2 ≠ position := by omega
  have hxy : NotWorse worse y x := notWorse_of_worse hworse
  -- the old parent is not worse than its own parent, and a sibling not worse than the old parent
  have hup : ∀ z, 0 < (position - 1) / 2 → h[((position - 1) / 2 - 1) / 2]? = some z →
      NotWorse worse y z := fun z hz => hexcept _ y z hz hne hy
  have hsib : ∀ i z, 0 < i → i ≠ position → (i - 1) / 2 = (position - 1) / 2 → h[i]? = some z →
      NotWorse worse z y := fun i z hi hip hpar hz =>
    hexcept i z y hi hip hz (by rw [hpar, hy])
  constructor
  · intro i a b hi hhole ha hb
    rw [getElem?_swapIfInBounds hposition hpar] at ha hb
    by_cases hip : i = position
    · subst hip
      rw [if_pos rfl, hy] at ha
      rw [if_neg hne, if_pos rfl, hx] at hb
      cases ha
      cases hb
      exact hxy
    rw [if_neg hip, if_neg hhole] at ha
    split_ifs at hb with hb₁ hb₂
    · exact hgrand i a b hpos hi hb₁ ha hb
    · rw [hx] at hb
      cases hb
      exact (hsib i a hi hip hb₂ ha).trans hxy
    · exact hexcept i a b hi hip ha hb
  · intro i a b hq hi hchild ha hb
    rw [getElem?_swapIfInBounds hposition hpar] at ha hb
    rw [if_neg (by omega), if_neg (by omega)] at hb
    by_cases hip : i = position
    · rw [if_pos hip, hy] at ha
      cases ha
      exact hup b hq hb
    · rw [if_neg hip, if_neg (by omega)] at ha
      exact (hsib i a hi hip hchild ha).trans (hup b hq hb)

lemma siftUp_spec {rounds position : ℕ} {h : Array α} (hrounds : position ≤ rounds)
    (hposition : position < h.size) (hexcept : HeapExcept worse (· = position) h)
    (hgrand : Grand worse position h) :
    HeapExcept worse (fun _ => False) (siftUp worse rounds position h) := by
  induction rounds generalizing position h with
  | zero => exact fun i x y hi _ hx hy => hexcept i x y hi (by omega) hx hy
  | succ rounds ih =>
    rw [siftUp]
    split_ifs with hpos
    · exact fun i x y hi _ hx hy => hexcept i x y hi (by omega) hx hy
    have hpar : (position - 1) / 2 < h.size := by omega
    rw [Array.getElem?_eq_getElem hposition, Array.getElem?_eq_getElem hpar]
    dsimp only
    split_ifs with hworse
    · obtain ⟨hexcept', hgrand'⟩ := hexcept.swap_up (by omega) hposition hgrand
        (Array.getElem?_eq_getElem hposition) (Array.getElem?_eq_getElem hpar) hworse
      exact @ih ((position - 1) / 2) _ (by omega) (by simpa using hpar) hexcept' hgrand'
    · intro i x y hi _ hx hy
      by_cases hip : i = position
      · subst hip
        rw [Array.getElem?_eq_getElem hposition] at hx
        rw [Array.getElem?_eq_getElem hpar] at hy
        cases hx
        cases hy
        exact eq_false_of_ne_true hworse
      · exact hexcept i x y hi hip hx hy

lemma siftDown_spec {rounds position : ℕ} {h : Array α} (hrounds : h.size ≤ rounds + position)
    (hexcept : HeapExcept worse (fun i => (i - 1) / 2 = position) h)
    (hgrand : Grand worse position h) :
    HeapExcept worse (fun _ => False) (siftDown worse rounds position h) := by
  induction rounds generalizing position h with
  | zero =>
    refine fun i x y hi _ (hx : h[i]? = some x) hy => hexcept i x y hi ?_ hx hy
    have hlt := (Array.getElem?_eq_some_iff.1 hx).1
    omega
  | succ rounds ih =>
    rw [siftDown]
    split
    · rename_i x child hx hchild
      split_ifs with hworse
      · obtain ⟨hexcept', hgrand'⟩ := hexcept.swap_down hgrand hx hchild hworse
        obtain ⟨hpos, hpar, -⟩ := worstChild_spec hchild
        exact ih (by rw [Array.size_swapIfInBounds]; omega) hexcept' hgrand'
      · intro i a b hi _ ha hb
        by_cases hhole : (i - 1) / 2 = position
        · rw [hhole, hx] at hb
          cases hb
          exact ((worstChild_spec hchild).2.2 i a hi hhole ha).trans
            (eq_false_of_ne_true hworse)
        · exact hexcept i a b hi hhole ha hb
    · rename_i hnone
      intro i a b hi _ ha hb
      by_cases hhole : (i - 1) / 2 = position
      · obtain ⟨child, hchild⟩ := worstChild_isSome worse hi hhole ha
        rw [hhole] at hb
        exact (hnone b child hb hchild).elim
      · exact hexcept i a b hi hhole ha hb

lemma IsHeap.notWorse_root (hheap : IsHeap worse h) {root : α} (hroot : h[0]? = some root)
    (hx : x ∈ h.toList) : NotWorse worse x root := by
  have hall : ∀ (i : ℕ) y, h[i]? = some y → NotWorse worse y root := by
    intro i
    induction i using Nat.strong_induction_on with
    | _ i ih =>
      intro y hy
      rcases Nat.eq_zero_or_pos i with rfl | hi
      · obtain rfl := Option.mem_unique hroot hy
        exact .rfl
      · have hlt : (i - 1) / 2 < h.size := by
          have := (Array.getElem?_eq_some_iff.1 hy).1
          omega
        have hpar := Array.getElem?_eq_getElem hlt
        exact (hheap i y _ hi id hy hpar).trans (ih _ (by omega) _ hpar)
  obtain ⟨i, hi, rfl⟩ := mem_iff_getElem.1 hx
  exact hall i _ (Array.getElem?_eq_getElem hi)

lemma pushHeap_spec (hheap : IsHeap worse h) (x : α) :
    IsHeap worse (pushHeap worse h x) ∧ (pushHeap worse h x).toList.Perm (x :: h.toList) := by
  refine ⟨@siftUp_spec α worse _ _ h.size h.size (h.push x) (Nat.le_refl _) (by simp) ?_ ?_,
    perm_pushHeap h x⟩
  · intro i a b hi hhole ha hb
    have hlt := (Array.getElem?_eq_some_iff.1 ha).1
    rw [Array.size_push] at hlt
    rw [Array.getElem?_push_lt (by omega)] at ha hb
    exact hheap i a b hi id (ha ▸ Array.getElem?_eq_getElem _) (hb ▸ Array.getElem?_eq_getElem _)
  · intro i a b _ hi hchild ha _
    have hlt := (Array.getElem?_eq_some_iff.1 ha).1
    rw [Array.size_push] at hlt
    omega

lemma fixRoot_spec (hheap : IsHeap worse h) {root : α} (hroot : h[0]? = some root) (x : α) :
    IsHeap worse (fixRoot worse (h.set! 0 x)) ∧
      (root :: (fixRoot worse (h.set! 0 x)).toList).Perm (x :: h.toList) := by
  obtain ⟨tail, htail⟩ : ∃ tail, h.toList = root :: tail := by
    rw [← Array.getElem?_toList] at hroot
    cases hlist : h.toList with
    | nil =>
      rw [hlist] at hroot
      cases hroot
    | cons a tail =>
      rw [hlist] at hroot
      cases hroot
      exact ⟨tail, rfl⟩
  have hother : ∀ i, 0 < i → (h.set! 0 x)[i]? = h[i]? := fun i hi =>
    Array.getElem?_setIfInBounds_ne (Nat.ne_of_lt hi)
  refine ⟨@siftDown_spec α worse _ _ (h.set! 0 x).size 0 (h.set! 0 x) (Nat.le_refl _) ?_ ?_, ?_⟩
  rotate_left 2
  · refine ((perm_siftDown _ _ _).cons root).trans ?_
    have hset : (h.set! 0 x).toList = x :: tail := by
      rw [Array.set!_eq_setIfInBounds, Array.toList_setIfInBounds, htail, set_cons_zero]
    rw [hset, htail]
    exact List.Perm.swap x root tail
  · intro i a b hi hhole ha hb
    rw [hother i hi] at ha
    rw [hother _ (Nat.pos_of_ne_zero hhole)] at hb
    exact hheap i a b hi id ha hb
  · intro i a b h0
    exact absurd h0 (Nat.lt_irrefl 0)

/-- The heap keeps best elements in its own order. -/
lemma offerBy_spec {fine : α → α → Bool} (hfine : ∀ a b, worse a b → fine a b)
    (hcoarse : ∀ a b, fine a b → NotWorse worse b a) (hk : 0 < k) (hheap : IsHeap worse h)
    (htop : TopOf worse k l h.toList) (x : α) : IsHeap worse (offerBy fine worse k h x) ∧
      TopOf worse k (l ++ [x]) (offerBy fine worse k h x).toList := by
  obtain ⟨rest, hperm, hlength, hbest⟩ := htop
  have hcount := hperm.length_eq
  rw [length_append] at hcount
  rw [offerBy]
  split_ifs with hroom
  · rw [Array.length_toList] at hlength hcount
    obtain rfl : rest = [] := eq_nil_of_length_eq_zero (by omega)
    obtain ⟨hheap', hperm'⟩ := pushHeap_spec hheap x
    refine ⟨hheap', [], ?_, ?_, by simp⟩
    · rw [append_nil] at hperm ⊢
      exact hperm'.trans ((hperm.cons x).trans (perm_append_singleton x l).symm)
    · rw [hperm'.length_eq, length_cons, length_append, length_singleton,
        Array.length_toList]
      omega
  have hpos : 0 < h.size := by omega
  rw [Array.getElem?_eq_getElem hpos]
  have hroot : ∀ y ∈ h.toList, NotWorse worse y h[0] := fun y =>
    hheap.notWorse_root (Array.getElem?_eq_getElem hpos)
  have hmem : h[0] ∈ h.toList := Array.getElem_mem_toList hpos
  dsimp only
  split_ifs with hworse
  · obtain ⟨hheap', hperm'⟩ := fixRoot_spec hheap (Array.getElem?_eq_getElem hpos) x
    have hx : NotWorse worse x h[0] := hcoarse _ _ hworse
    -- what is kept now is the new element and what was kept before
    have hkept : ∀ y ∈ (fixRoot worse (h.set! 0 x)).toList, NotWorse worse y h[0] := by
      intro y hy
      rcases mem_cons.1 (hperm'.mem_iff.1 (mem_cons_of_mem _ hy)) with rfl | hold
      · exact hx
      · exact hroot y hold
    refine ⟨hheap', h[0] :: rest, ?_, ?_, fun y hy z hz => ?_⟩
    · calc (fixRoot worse (h.set! 0 x)).toList ++ h[0] :: rest
        _ |>.Perm (h[0] :: (fixRoot worse (h.set! 0 x)).toList ++ rest) := perm_middle
        _ |>.Perm (x :: h.toList ++ rest) := hperm'.append_right rest
        _ |>.Perm (x :: l) := hperm.cons x
        _ |>.Perm (l ++ [x]) := (perm_append_singleton x l).symm
    · have hsize := hperm'.length_eq
      rw [length_cons, length_cons, Nat.succ_inj] at hsize
      rw [hsize, length_append, length_singleton]
      rw [Array.length_toList] at hlength hcount ⊢
      omega
    · rcases mem_cons.1 hz with rfl | hrest
      · exact hkept y hy
      · exact (hkept y hy).trans (hbest _ hmem z hrest)
  · refine ⟨hheap, x :: rest, ?_, ?_, fun y hy z hz => ?_⟩
    · exact perm_middle.trans ((hperm.cons x).trans (perm_append_singleton x l).symm)
    · rw [length_append, length_singleton]
      rw [Array.length_toList] at hlength hcount ⊢
      omega
    · rcases mem_cons.1 hz with rfl | hrest
      · exact (hroot y hy).trans (eq_false_of_ne_true fun hroot => hworse (hfine _ _ hroot))
      · exact hbest y hy z hrest

lemma topOf_foldl_offerBy {fine : α → α → Bool} (hfine : ∀ a b, worse a b → fine a b)
    (hcoarse : ∀ a b, fine a b → NotWorse worse b a) (hk : 0 < k) (l : List α) :
    IsHeap worse (l.foldl (offerBy fine worse k) #[]) ∧
      TopOf worse k l (l.foldl (offerBy fine worse k) #[]).toList := by
  induction l using reverseRecOn with
  | nil => exact ⟨isHeap_empty, [], .rfl, by simp, by simp⟩
  | append_singleton l x ih =>
    rw [foldl_append]
    exact offerBy_spec hfine hcoarse hk ih.1 ih.2 x

lemma topOf_foldl_offer (hk : 0 < k) (l : List α) :
    TopOf worse k l (l.foldl (offer worse k) #[]).toList :=
  (topOf_foldl_offerBy (fun _ _ => id) (fun _ _ => notWorse_of_worse) hk l).2

/-! ### Sorting -/

lemma foldl_insertBack (l before : List α)
    (hbefore : before.Pairwise fun a b => NotWorse worse b a) :
    (l.foldl (fun before x => insertBack worse x before) before).Perm (l ++ before) ∧
      (l.foldl (fun before x => insertBack worse x before) before).Pairwise
        fun a b => NotWorse worse b a := by
  have htotal : Std.Total fun a b => NotWorse worse b a :=
    ⟨fun a b => Std.Total.total (r := NotWorse worse) b a⟩
  have htrans : IsTrans α fun a b => NotWorse worse b a := ⟨fun a b c h h' => h'.trans h⟩
  induction l generalizing before with
  | nil => exact ⟨.rfl, hbefore⟩
  | cons x l ih =>
    rw [foldl_cons, insertBack_eq]
    obtain ⟨hperm, hsort⟩ := ih _ (hbefore.orderedInsert x before)
    refine ⟨hperm.trans ?_, hsort⟩
    exact ((perm_orderedInsert _ x before).append_left l).trans perm_middle

lemma sortBest_spec (l : List α) :
    (sortBest worse l).Perm l ∧ (sortBest worse l).Pairwise (NotWorse worse) := by
  obtain ⟨hperm, hsort⟩ := @foldl_insertBack α worse _ _ l [] .nil
  rw [append_nil] at hperm
  exact ⟨(reverse_perm _).trans hperm, pairwise_reverse.2 hsort⟩

/-- `topK` keeps `k` best elements, the best one first. -/
theorem topK_spec {k : ℕ} (hk : 0 < k) (l : List α) :
    TopOf worse k l (topK worse k l) ∧ (topK worse k l).Pairwise (NotWorse worse) := by
  obtain ⟨hperm, hsort⟩ := @sortBest_spec α worse _ _ (l.foldl (offer worse k) #[]).toList
  exact ⟨(topOf_foldl_offer hk l).perm hperm, hsort⟩

lemma topOf_take (k : ℕ) (l : List α) :
    TopOf worse k l ((l.insertionSort (NotWorse worse)).take k) := by
  have hsort := pairwise_insertionSort (NotWorse worse) l
  rw [← take_append_drop k (l.insertionSort (NotWorse worse)), pairwise_append] at hsort
  refine ⟨(l.insertionSort (NotWorse worse)).drop k, ?_, ?_, hsort.2.2⟩
  · rw [take_append_drop]
    exact perm_insertionSort _ l
  · rw [length_take, length_insertionSort]

/-- Taking the best of each part first does not change the best of the whole. -/
theorem TopOf.flatMap {ι : Type} {parts : List ι} {whole top : ι → List α}
    (htop : ∀ i ∈ parts, TopOf worse k (whole i) (top i))
    (hkept : TopOf worse k (parts.flatMap top) kept) : TopOf worse k (parts.flatMap whole) kept := by
  choose! rest hrest using htop
  obtain ⟨left, hleft, hlength, hbest⟩ := hkept
  have hperm : (parts.flatMap top ++ parts.flatMap rest).Perm (parts.flatMap whole) :=
    (flatMap_append_perm parts top rest).trans
      (List.Perm.flatMap_left parts fun i hi => (hrest i hi).1)
  have hsub : ∀ i ∈ parts, (top i).Sublist (parts.flatMap top) := fun i hi =>
    sublist_flatten_of_mem (mem_map_of_mem hi)
  -- where a part was cut, `k` of its elements are among those to choose from
  have hcut : ∀ i ∈ parts, rest i ≠ [] → (top i).length = k ∧ k ≤ (parts.flatMap top).length := by
    intro i hi hne
    have hsize := (hrest i hi).1.length_eq
    have hmin := (hrest i hi).2.1
    have hpos := length_pos_iff.2 hne
    have hle := (hsub i hi).length_le
    rw [length_append] at hsize
    omega
  refine ⟨left ++ parts.flatMap rest, ?_, ?_, fun x hx y hy => ?_⟩
  · rw [← append_assoc]
    exact (hleft.append_right _).trans hperm
  · rw [hlength, ← hperm.length_eq, length_append]
    rcases eq_nil_or_concat (parts.flatMap rest) with hnil | ⟨init, y, hconcat⟩
    · rw [hnil, length_nil, Nat.add_zero]
    · obtain ⟨i, hi, hy⟩ := mem_flatMap.1 (show y ∈ parts.flatMap rest by simp [hconcat])
      have := (hcut i hi (ne_nil_of_mem hy)).2
      omega
  · rcases mem_append.1 hy with hy | hy
    · exact hbest x hx y hy
    obtain ⟨i, hi, hy⟩ := mem_flatMap.1 hy
    -- otherwise the element is worse than all that its part kept, and those fill the answer
    by_contra hworse
    have hall : ∀ z ∈ top i, worse x z = true := fun z hz => by
      by_contra hnot
      exact hworse ((show NotWorse worse x z from eq_false_of_ne_true hnot).trans
        ((hrest i hi).2.2 z hz y hy))
    have hcount : k ≤ (parts.flatMap top).countP (worse x) := by
      rw [← (hcut i hi (ne_nil_of_mem hy)).1, ← countP_eq_length.2 hall]
      exact (hsub i hi).countP_le
    have hnone : left.countP (worse x) = 0 :=
      countP_eq_zero.2 fun z hz => Bool.eq_false_iff.1 (hbest x hx z hz)
    have hlt := @countP_worse_lt α worse _ kept x hx
    rw [← hleft.countP_eq, countP_append, hnone] at hcount
    omega

/-- With an order that tells the elements apart, the best ones are the start of the sorted list. -/
lemma TopOf.eq_take (h : TopOf worse k l kept) (hsort : kept.Pairwise (NotWorse worse))
    (hnodup : l.Nodup) (hanti : ∀ x ∈ l, ∀ y ∈ l, NotWorse worse x y → NotWorse worse y x → x = y) :
    kept = (l.insertionSort (NotWorse worse)).take k := by
  have hbest := @topOf_take α worse _ _ k l
  exact (h.eq_iff_subset (.refl _) hnodup hanti hsort hbest
    (pairwise_insertionSort _ l).take).2 fun x hx => hbest.sublist_perm.subset hx

lemma topK_eq_of_perm (hk : 0 < k) (hperm : l.Perm l') (hnodup : l.Nodup)
    (hanti : ∀ x ∈ l, ∀ y ∈ l, NotWorse worse x y → NotWorse worse y x → x = y) :
    topK worse k l' = topK worse k l := by
  obtain ⟨htop, hsort⟩ := @topK_spec α worse _ _ k hk l
  obtain ⟨htop', hsort'⟩ := @topK_spec α worse _ _ k hk l'
  refine (htop'.eq_iff_subset hperm.symm.subperm hnodup hanti hsort' htop hsort).2 ?_
  exact fun x hx => hperm.mem_iff.1 (htop.sublist_perm.subset hx)

end Heaps

/-! ### A coarser heap -/

section Coarse

variable {α : Type} {worse fine : α → α → Bool} {h : Array α} {x r : α} {l kept p rest : List α}

lemma TopOf.perm_of_gap {top : List α} (h : TopOf worse k l kept) (hnodup : l.Nodup)
    (hl : (top ++ rest).Perm l) (hlength : top.length = min k l.length)
    (hgap : ∀ a ∈ top, ∀ b ∈ rest, worse b a) : kept.Perm top := by
  obtain ⟨left, hperm, hkept, hbest⟩ := h
  have hkeptNodup := (nodup_append.1 (hperm.nodup_iff.2 hnodup)).1
  have htopNodup := (nodup_append.1 (hl.nodup_iff.2 hnodup)).1
  by_cases hsubset : kept ⊆ top
  · exact (hkeptNodup.subperm hsubset).perm_of_length_le (hlength.trans hkept.symm).le
  · -- an element below the gap is kept, so none above it is left out
    obtain ⟨x, hx, hnot⟩ : ∃ x ∈ kept, x ∉ top := by simpa [subset_def] using hsubset
    have hrest := (mem_append.1 (hl.mem_iff.2
      (hperm.mem_iff.1 (mem_append_left _ hx)))).resolve_left hnot
    refine ((htopNodup.subperm fun t ht => ?_).perm_of_length_le
      (hkept.trans hlength.symm).le).symm
    refine (mem_append.1 (hperm.mem_iff.2 (hl.mem_iff.1
      (mem_append_left _ ht)))).resolve_right fun hleft => ?_
    have hworse := hbest x hx t hleft
    rw [NotWorse, hgap t ht x hrest] at hworse
    cases hworse

lemma foldl_offerBy_one (l : List α) :
    l.foldl (offerBy fine worse 1) #[] = l.foldl (offer fine 1) #[] ∧
      (l.foldl (offer fine 1) #[]).size ≤ 1 := by
  induction l using reverseRecOn with
  | nil => exact ⟨rfl, Nat.zero_le _⟩
  | append_singleton l x ih =>
    rw [foldl_append, foldl_append, ih.1]
    generalize l.foldl (offer fine 1) #[] = h at ih
    rcases h with ⟨_ | ⟨y, _ | ⟨z, l⟩⟩⟩
    · exact ⟨rfl, le_rfl⟩
    · by_cases hworse : fine y x = true <;> simp [offerBy, offer, hworse, fixRoot, siftDown, worstChild]
    · simp at ih

lemma pushHeap_of_notWorse (hx : ∀ y ∈ h, NotWorse worse x y) : pushHeap worse h x = h.push x := by
  rw [pushHeap]
  cases hsize : h.size with
  | zero => rfl
  | succ n =>
    have hparent : n / 2 < h.size := by omega
    rw [siftUp, if_neg n.succ_ne_zero, Nat.add_sub_cancel, ← hsize, Array.getElem?_push_size,
      Array.getElem?_push_lt hparent]
    simp only [show worse x h[n / 2] = false from hx _ (Array.getElem_mem hparent)]
    rfl

/-- Elements that come worst first stay in this order. -/
lemma foldl_offerBy_of_pairwise (hsort : p.Pairwise fun a b => NotWorse worse b a)
    (hlen : p.length ≤ k) : p.foldl (offerBy fine worse k) #[] = p.toArray := by
  induction p using reverseRecOn with
  | nil => rfl
  | append_singleton p x ih =>
    rw [pairwise_append] at hsort
    rw [length_append, length_singleton] at hlen
    rw [foldl_append, ih hsort.1 (by omega), foldl_cons, foldl_nil, offerBy,
      if_pos (show p.toArray.size < k from hlen), pushHeap_of_notWorse fun y hy =>
        hsort.2.2 y (by simpa using hy) x (mem_singleton.2 rfl)]
    simp

lemma mem_offerBy (hx : x ∈ (offerBy fine worse k h r).toList) : x ∈ h.toList ∨ x = r := by
  rw [offerBy] at hx
  split at hx
  · exact (mem_cons.1 ((perm_pushHeap h r).mem_iff.1 hx)).symm
  split at hx
  · split at hx
    · have hset := (perm_siftDown _ _ _).mem_iff.1 hx
      rw [Array.set!_eq_setIfInBounds, Array.toList_setIfInBounds] at hset
      exact mem_or_eq_of_mem_set hset
    · exact .inl hx
  · exact .inl hx

/-- A full heap whose elements came worst first loses its root to a better element. -/
lemma notMem_foldl_offerBy (hsort : (r :: p).Pairwise fun a b => NotWorse worse b a)
    (hlen : p.length + 1 = k) (hworse : fine r x) (hnodup : (r :: p ++ x :: rest).Nodup) :
    r ∉ ((r :: p ++ x :: rest).foldl (offerBy fine worse k) #[]).toList := by
  have hnot : r ∉ p ++ x :: rest := (nodup_cons.1 hnodup).1
  rw [foldl_append, foldl_offerBy_of_pairwise hsort hlen.le, foldl_cons]
  have hfirst : r ∉ (offerBy fine worse k (r :: p).toArray x).toList := by
    intro hmem
    rw [offerBy, if_neg (by simp [hlen])] at hmem
    simp only [getElem?_toArray, getElem?_cons_zero, hworse, if_true] at hmem
    have hset := (perm_siftDown _ _ _).mem_iff.1 hmem
    simp only [Array.set!_eq_setIfInBounds, setIfInBounds_toArray, set_cons_zero,
      mem_cons] at hset
    rcases hset with rfl | hset
    · exact hnot (by simp)
    · exact hnot (mem_append_left _ hset)
  have hrest : r ∉ rest := fun hmem => hnot (by simp [hmem])
  generalize offerBy fine worse k (r :: p).toArray x = h at hfirst
  clear hnodup hnot
  induction rest generalizing h with
  | nil => exact hfirst
  | cons y rest ih =>
    rw [mem_cons, not_or] at hrest
    exact ih hrest.2 _ fun hmem => (mem_offerBy hmem).elim hfirst hrest.1

end Coarse

end GideonDB.Go
