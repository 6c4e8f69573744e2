/-
The numeric index of a field (`numericField` in `metadata/filter.go`).

Insertions go to the end of `delta`, deletions mark the ordinal in `invalidBase`, and
every 4096 of either rebuild the sorted `base` from `current`.  `Indexes current n` says
what ties the four together; a range query then finds exactly the ordinals whose current
number is in range, however many insertions, deletions and rebuilds there have been
(`contains_numericRange`).
-/
import GideonDB.Go.Search
import GideonDB.Metadata.OrdinalSet
import GideonDB.Metadata.Value

namespace GideonDB.Metadata

open Go OrdinalSet List

/-- `numericEntry`. -/
structure NumericEntry where
  value : Float64
  id : ℕ
deriving DecidableEq

/-- `numericField`. -/
structure NumericField where
  /-- The entries of the last rebuild, by number. -/
  base : List NumericEntry
  /-- The insertions since, in their order. -/
  delta : List NumericEntry
  /-- The number of every ordinal that has one. -/
  current : GoMap ℕ Float64
  /-- The ordinals deleted since the last rebuild. -/
  invalidBase : OrdinalSet
  /-- The number of deletions since the last rebuild. -/
  stale : ℕ

/-- The range operators. -/
inductive RangeOperator
  | gt | gte | lt | lte
deriving DecidableEq, Repr

/-- `rangeMatches`. -/
def rangeMatches (value : Float64) (operator : RangeOperator) (target : Float64) : Bool :=
  match operator with
  | .gt => target.lt value
  | .gte => target.le value
  | .lt => value.lt target
  | .lte => value.le target

namespace NumericEntry

/-- The order of the base: by number, then by ordinal. -/
def LE (left right : NumericEntry) : Prop :=
  left.value.lt right.value = true ∨ left.value.eq right.value = true ∧ left.id ≤ right.id
deriving Decidable

lemma LE.key_le {left right : NumericEntry} (h : left.LE right) :
    left.value.key ≤ right.value.key := by
  simp only [LE, Float64.lt, Float64.eq, decide_eq_true_eq] at h
  omega

instance : Std.Total LE where
  total left right := by
    simp only [LE, Float64.lt, Float64.eq, decide_eq_true_eq]
    omega

instance : IsTrans NumericEntry LE where
  trans left mid right := by
    simp only [LE, Float64.lt, Float64.eq, decide_eq_true_eq]
    omega

end NumericEntry

namespace NumericField

/-- No numbers. -/
def new : NumericField := ⟨[], [], GoMap.empty, newSet 0, 0⟩

/-- `mergeIfNeeded`. -/
def mergeIfNeeded (n : NumericField) : NumericField :=
  if n.delta.length < 4096 ∧ n.stale < 4096 then n
  else
    { n with
      base := (n.current.toList.map fun (id, value) => ⟨value, id⟩).insertionSort NumericEntry.LE
      delta := []
      invalidBase := newSet 0
      stale := 0 }

/-- `insertNumeric`, for a field that is there. -/
def insert (n : NumericField) (entry : NumericEntry) : NumericField :=
  mergeIfNeeded
    { n with current := n.current.set entry.id entry.value, delta := n.delta ++ [entry] }

/-- `deleteNumeric`, for a field that is there. -/
def delete (n : NumericField) (value : Float64) (id : ℕ) : NumericField :=
  match n.current.get id with
  | some current =>
    if current.eq value then
      mergeIfNeeded
        { n with
          current := n.current.delete id
          invalidBase := n.invalidBase.add id
          stale := n.stale + 1 }
    else n
  | none => n

/-- The part of the base a range query looks at. -/
def baseRange (n : NumericField) (operator : RangeOperator) (target : Float64) :
    List NumericEntry :=
  match operator with
  | .gt => n.base.drop (searchList n.base fun entry => target.lt entry.value)
  | .gte => n.base.drop (searchList n.base fun entry => target.le entry.value)
  | .lt => n.base.take (searchList n.base fun entry => target.le entry.value)
  | .lte => n.base.take (searchList n.base fun entry => target.lt entry.value)

/-- `numericRange`, for a field that is there; `maxID` sizes the result. -/
def range (n : NumericField) (maxID : ℕ) (operator : RangeOperator) (target : Float64) :
    OrdinalSet :=
  let fromBase := ((n.baseRange operator target).filter fun entry =>
    !n.invalidBase.contains entry.id).foldl (fun s entry => s.add entry.id)
      (newSet maxID)
  (n.delta.filter fun entry =>
    (n.current.get entry.id).any (·.eq entry.value) &&
      rangeMatches entry.value operator target).foldl (fun s entry => s.add entry.id) fromBase

/-! ### What the structure holds -/

/-- The field holds numbers with the given keys: `current` is them, every entry of the base
that is not marked is one of them, and each of them is in the base or in the delta. -/
structure Indexes (keys : ℕ → Option ℤ) (n : NumericField) : Prop where
  current : ∀ id, (n.current.get id).map Float64.key = keys id
  sorted : n.base.Pairwise fun x y => x.value.key ≤ y.value.key
  base : ∀ entry ∈ n.base, n.invalidBase.contains entry.id = false →
    keys entry.id = some entry.value.key
  covered : ∀ id key, keys id = some key → ∃ value : Float64, value.key = key ∧
    (⟨value, id⟩ ∈ n.base ∧ n.invalidBase.contains id = false ∨ ⟨value, id⟩ ∈ n.delta)

lemma indexes_new : Indexes (fun _ => none) new where
  current := by simp [new]
  sorted := List.Pairwise.nil
  base := by simp [new]
  covered := by simp

variable {keys : ℕ → Option ℤ} {n : NumericField}

lemma Indexes.mergeIfNeeded (h : Indexes keys n) : Indexes keys n.mergeIfNeeded := by
  rw [NumericField.mergeIfNeeded]
  split
  · exact h
  · have hmem : ∀ value id, (⟨value, id⟩ : NumericEntry) ∈
        (n.current.toList.map fun (id, value) => (⟨value, id⟩ : NumericEntry)).insertionSort
          NumericEntry.LE ↔ n.current.get id = some value := by
      intro value id
      rw [(perm_insertionSort _ _).mem_iff, mem_map, ← GoMap.mem_toList]
      constructor
      · rintro ⟨⟨id', value'⟩, hmem, heq⟩
        obtain ⟨rfl, rfl⟩ := NumericEntry.mk.inj heq
        exact hmem
      · exact fun hmem => ⟨_, hmem, rfl⟩
    exact
      { current := h.current
        sorted := (pairwise_insertionSort _ _).imp NumericEntry.LE.key_le
        base := fun entry hentry _ => by
          rw [← h.current, (hmem entry.value entry.id).1 hentry, Option.map_some]
        covered := fun id key hkey => by
          rw [← h.current, Option.map_eq_some_iff] at hkey
          obtain ⟨value, hvalue, hkey⟩ := hkey
          exact ⟨value, hkey, .inl ⟨(hmem value id).2 hvalue, contains_newSet 0 id⟩⟩ }

lemma Indexes.insert (h : Indexes keys n) (entry : NumericEntry) (hfree : keys entry.id = none) :
    Indexes (fun id => if id = entry.id then some entry.value.key else keys id)
      (n.insert entry) := by
  refine .mergeIfNeeded ⟨fun id => ?_, h.sorted, fun e he hvalid => ?_, fun id key hkey => ?_⟩
  · rw [GoMap.get_set, ← h.current]
    split <;> rfl
  · have hnum := h.base e he hvalid
    have hne : e.id ≠ entry.id := fun heq => by
      rw [heq, hfree] at hnum
      cases hnum
    simp [hne, hnum]
  · split_ifs at hkey with hid
    · cases hkey
      exact ⟨entry.value, rfl, .inr (by simp [hid])⟩
    · obtain ⟨value, hkey, hbase | hdelta⟩ := h.covered id key hkey
      · exact ⟨value, hkey, .inl hbase⟩
      · exact ⟨value, hkey, .inr (mem_append_left _ hdelta)⟩

lemma Indexes.delete (h : Indexes keys n) (value : Float64) (id : ℕ)
    (hvalue : keys id = some value.key) :
    Indexes (fun id' => if id' = id then none else keys id') (n.delete value id) := by
  obtain ⟨current, hcur, heq⟩ := Option.map_eq_some_iff.1 ((h.current id).trans hvalue)
  rw [NumericField.delete, hcur]
  simp only [Float64.eq, heq, decide_true, if_true]
  refine .mergeIfNeeded ⟨fun id' => ?_, h.sorted, fun e he hvalid => ?_,
    fun id' key hkey => ?_⟩
  · rw [GoMap.get_delete, ← h.current]
    split <;> rfl
  · rw [contains_add, Bool.or_eq_false_iff, decide_eq_false_iff_not] at hvalid
    simp [hvalid.1, h.base e he hvalid.2]
  · split at hkey
    · cases hkey
    · rename_i hid
      obtain ⟨value, hkey, ⟨hmem, hvalid⟩ | hdelta⟩ := h.covered id' key hkey
      · exact ⟨value, hkey, .inl ⟨hmem, by simp [contains_add, hid, hvalid]⟩⟩
      · exact ⟨value, hkey, .inr hdelta⟩

/-! ### Range queries -/

lemma rangeMatches_congr {a b : Float64} (h : a.key = b.key) (operator : RangeOperator)
    (target : Float64) : rangeMatches a operator target = rangeMatches b operator target := by
  cases operator <;> simp [rangeMatches, Float64.lt, Float64.le, h]

lemma mem_baseRange (h : n.base.Pairwise fun x y => x.value.key ≤ y.value.key)
    {operator : RangeOperator} {target : Float64} {entry : NumericEntry} :
    entry ∈ n.baseRange operator target ↔
      entry ∈ n.base ∧ rangeMatches entry.value operator target := by
  have hlt : n.base.Pairwise fun x y => target.lt x.value = true → target.lt y.value = true :=
    h.imp fun hxy hx => by
      simp only [Float64.lt, decide_eq_true_eq] at hx ⊢
      omega
  have hge : n.base.Pairwise fun x y => target.le x.value = true → target.le y.value = true :=
    h.imp fun hxy hx => by
      simp only [Float64.le, decide_eq_true_eq] at hx ⊢
      omega
  cases operator with
  | gt => exact mem_drop_searchList hlt
  | gte => exact mem_drop_searchList hge
  | lt =>
    refine (mem_take_searchList hge).trans (and_congr_right fun _ => ?_)
    simp [rangeMatches, Float64.lt, Float64.le]
  | lte =>
    refine (mem_take_searchList hlt).trans (and_congr_right fun _ => ?_)
    simp [rangeMatches, Float64.lt, Float64.le]

lemma contains_foldl_add_id (entries : List NumericEntry) (s : OrdinalSet) (id : ℕ) :
    (entries.foldl (fun s entry => s.add entry.id) s).contains id = true ↔
      (∃ entry ∈ entries, entry.id = id) ∨ s.contains id := by
  rw [← foldl_map (f := NumericEntry.id) (g := OrdinalSet.add),
    contains_foldl_add]
  simp

lemma Indexes.contains_range (h : Indexes keys n) (maxID : ℕ) (operator : RangeOperator)
    (target : Float64) (id : ℕ) : (n.range maxID operator target).contains id ↔ ∃ value :
    Float64, keys id = some value.key ∧ rangeMatches value operator target := by
  simp only [range, contains_foldl_add_id, mem_filter, Bool.and_eq_true, Bool.not_eq_true',
    contains_newSet, Bool.false_eq_true, or_false, mem_baseRange h.sorted]
  constructor
  · rintro (⟨entry, ⟨-, hcur, hrange⟩, rfl⟩ | ⟨entry, ⟨⟨hbase, hrange⟩, hvalid⟩, rfl⟩)
    · obtain ⟨value, hvalue, heq⟩ := (Option.any_eq_true _ _).1 hcur
      refine ⟨value, by rw [← h.current, hvalue, Option.map_some], ?_⟩
      rwa [rangeMatches_congr (by simpa [Float64.eq] using heq)]
    · exact ⟨entry.value, h.base entry hbase hvalid, hrange⟩
  · rintro ⟨value, hvalue, hrange⟩
    obtain ⟨stored, hkey, ⟨hbase, hvalid⟩ | hdelta⟩ := h.covered id _ hvalue
    · exact .inr ⟨⟨stored, id⟩, ⟨⟨hbase, by rwa [rangeMatches_congr hkey]⟩, hvalid⟩, rfl⟩
    · obtain ⟨current, hcur, heq⟩ := Option.map_eq_some_iff.1 ((h.current id).trans hvalue)
      refine .inl ⟨⟨stored, id⟩, ⟨hdelta, ?_, by rwa [rangeMatches_congr hkey]⟩, rfl⟩
      simp [hcur, Float64.eq, heq, hkey]

lemma counted_range (n : NumericField) (maxID : ℕ) (operator : RangeOperator) (target : Float64) :
    (n.range maxID operator target).Counted := by
  simp only [range, ← foldl_map (f := NumericEntry.id) (g := OrdinalSet.add)]
  exact ((counted_newSet maxID).foldl_add _).foldl_add _

end NumericField

end GideonDB.Metadata
