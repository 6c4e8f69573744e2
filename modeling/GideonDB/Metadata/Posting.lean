/-
Posting lists (`posting` in `metadata/filter.go`).

A posting keeps the ordinals that have one value of a field: none or one of them in
`singleton`, fewer than 64 in a map, and from the 64th on in a bitmap.  `Valid` says which
of the three is in use, `mem` what is in it, and every operation moves `mem` as it should
whatever the representation (`add_spec`, `remove_spec`, `set_spec`).
-/
import GideonDB.Go.Map
import GideonDB.Metadata.OrdinalSet

namespace GideonDB.Metadata

open Go GoMap List OrdinalSet

/-- `posting`. -/
structure Posting where
  /-- The only member, if there is one and no other representation is in use. -/
  singleton : ℕ
  /-- The members, while there are between 2 and 63 of them. -/
  sparse : GoMap ℕ Unit
  /-- The members, once there have been 64 of them. -/
  dense : Option OrdinalSet
  count : ℕ
deriving DecidableEq

namespace Posting

/-- `&posting{}`. -/
def new : Posting := ⟨0, GoMap.empty, none, 0⟩

/-- `add`. -/
def add (p : Posting) (id : ℕ) : Posting :=
  match p.dense with
  | some dense => { p with dense := some (dense.add id), count := p.count + ((dense.add id).len - dense.len) }
  | none =>
    if p.count = 0 then { p with singleton := id, count := 1 }
    else if p.count = 1 then
      if p.singleton = id then p
      else { p with sparse := (GoMap.empty.set p.singleton ()).set id (), count := 2 }
    else if p.sparse.has id then p
    else if p.count + 1 < 64 then { p with sparse := p.sparse.set id (), count := p.count + 1 }
    else
      { p with
        sparse := GoMap.empty
        dense := some ((p.sparse.set id ()).keys.foldl OrdinalSet.add (OrdinalSet.newSet id))
        count := p.count + 1 }

/-- `remove`. -/
def remove (p : Posting) (id : ℕ) : Posting :=
  if p.count = 0 then p
  else
    match p.dense with
    | some dense =>
      { p with dense := some (dense.remove id), count := p.count - (dense.len - (dense.remove id).len) }
    | none =>
      if p.count = 1 then if p.singleton = id then { p with count := 0 } else p
      else if !p.sparse.has id then p
      else if p.count - 1 = 1 then
        { p with
          -- the loop over the map leaves the last key it visits
          singleton := ((p.sparse.delete id).keys.getLast?).getD p.singleton
          sparse := GoMap.empty
          count := 1 }
      else { p with sparse := p.sparse.delete id, count := p.count - 1 }

/-- `set`. -/
def set (p : Posting) (maxID : ℕ) : OrdinalSet :=
  if p.count = 0 then OrdinalSet.newSet 0
  else
    match p.dense with
    | some dense => dense
    | none =>
      if p.count = 1 then (OrdinalSet.newSet maxID).add p.singleton
      else p.sparse.keys.foldl OrdinalSet.add (OrdinalSet.newSet maxID)

/-! ### What a posting holds -/

/-- The ordinal is in it. -/
def mem (p : Posting) (id : ℕ) : Bool :=
  match p.dense with
  | some dense => dense.contains id
  | none => if p.count = 0 then false else if p.count = 1 then id = p.singleton else p.sparse.has id

/-- The number of members is right, and decides between the representations. -/
def Valid (p : Posting) : Prop :=
  match p.dense with
  | some dense => dense.Counted ∧ p.count = dense.len
  | none => p.count ≤ 1 ∨ p.count = p.sparse.size

end Posting

lemma OrdinalSet.contains_foldl_keys (m : GoMap ℕ Unit) (maxID id : ℕ) :
    (m.keys.foldl OrdinalSet.add (OrdinalSet.newSet maxID)).contains id = m.has id := by
  rw [contains_foldl_add, contains_newSet, Bool.or_false,
    has_eq_decide]

lemma OrdinalSet.len_foldl_keys (m : GoMap ℕ Unit) (maxID : ℕ) :
    (m.keys.foldl OrdinalSet.add (OrdinalSet.newSet maxID)).len = m.size := by
  have hcntd : (m.keys.foldl OrdinalSet.add (OrdinalSet.newSet maxID)).Counted :=
    (counted_newSet maxID).foldl_add m.keys
  rw [OrdinalSet.len, hcntd, ← length_keys]
  refine ((perm_ext_iff_of_nodup (nodup_setIDs _) m.nodup_keys).2
    fun id => ?_).length_eq
  rw [mem_setIDs, contains_foldl_keys, has_eq_decide, decide_eq_true_iff]

namespace Posting

variable {p : Posting}

@[simp] lemma mem_new (id : ℕ) : new.mem id = false := rfl

lemma valid_new : new.Valid := Or.inl (Nat.zero_le _)

lemma add_spec (h : p.Valid) (id : ℕ) :
    (p.add id).Valid ∧ ∀ id', (p.add id).mem id' = (decide (id' = id) || p.mem id') := by
  obtain ⟨singleton, sparse, dense, count⟩ := p
  rw [add]
  cases dense with
  | some dense =>
    obtain ⟨hcntd, hcount⟩ : dense.Counted ∧ count = dense.len := h
    have hle : dense.len ≤ (dense.add id).len := by
      rw [OrdinalSet.len, OrdinalSet.add]
      split <;> simp [OrdinalSet.len]
    exact ⟨⟨hcntd.add id, by simp only; omega⟩, contains_add dense id⟩
  | none =>
    have h : count ≤ 1 ∨ count = sparse.size := h
    simp only
    split
    · rename_i hzero
      exact ⟨.inl le_rfl, fun id' => by simp [mem, hzero]⟩
    split
    · rename_i hone
      split_ifs with hsame
      · exact ⟨h, fun id' => by simp [mem, hone, hsame]⟩
      · refine ⟨.inr ?_, fun id' => ?_⟩
        · simp [size_set, has_set, Ne.symm hsame]
        · simp [mem, hone, has_set]
    rename_i hzero hone
    have hsize : count = sparse.size := h.resolve_left (by omega)
    split
    · rename_i hhas
      refine ⟨.inr hsize, fun id' => ?_⟩
      by_cases heq : id' = id
      · simp [mem, hzero, hone, heq, hhas]
      · simp [heq]
    rename_i hhas
    split
    · refine ⟨.inr ?_, fun id' => ?_⟩
      · simp [size_set, hhas, hsize]
      · simp [mem, hzero, hone, has_set]
    · -- the 64th member: the map becomes a bitmap
      refine ⟨⟨(counted_newSet id).foldl_add _, ?_⟩, fun id' => ?_⟩
      · rw [len_foldl_keys, size_set]
        simp [hhas, hsize]
      · simp [mem, contains_foldl_keys, hzero, hone, has_set]

lemma foldl_add_spec (h : p.Valid) (ids : List ℕ) : (ids.foldl add p).Valid ∧
      ∀ id, (ids.foldl add p).mem id = (decide (id ∈ ids) || p.mem id) := by
  induction ids generalizing p with
  | nil => exact ⟨h, by simp⟩
  | cons x ids ih =>
    obtain ⟨hvalid, hmem⟩ := add_spec h x
    obtain ⟨hvalid', hmem'⟩ := ih hvalid
    refine ⟨hvalid', fun id => ?_⟩
    rw [foldl_cons, hmem', hmem]
    by_cases heq : id = x <;> simp [heq]

/-- A posting that counts nothing holds nothing, even if it is a bitmap. -/
lemma Valid.mem_of_count_zero (h : p.Valid) (hcount : p.count = 0) (id : ℕ) : p.mem id = false := by
  obtain ⟨singleton, sparse, dense, count⟩ := p
  obtain rfl : count = 0 := hcount
  cases dense with
  | none => rfl
  | some dense =>
    obtain ⟨hcntd, hlen⟩ : dense.Counted ∧ 0 = dense.len := h
    have hempty : dense.setIDs = [] := by
      rw [← length_eq_zero_iff, ← hcntd]
      exact hlen.symm
    rw [mem, ← Bool.not_eq_true, ← mem_setIDs, hempty]
    exact not_mem_nil

lemma remove_spec (h : p.Valid) (id : ℕ) :
    (p.remove id).Valid ∧ ∀ id', (p.remove id).mem id' = (decide (id' ≠ id) && p.mem id') := by
  obtain ⟨singleton, sparse, dense, count⟩ := p
  rw [remove]
  split
  · rename_i hcount
    exact ⟨h, fun id' => by simp [h.mem_of_count_zero hcount]⟩
  rename_i hzero
  have hzero : count ≠ 0 := hzero
  cases dense with
  | some dense =>
    obtain ⟨hcntd, hcount⟩ : dense.Counted ∧ count = dense.len := h
    have hle : (dense.remove id).len ≤ dense.len := by
      simp only [OrdinalSet.len, OrdinalSet.remove]
      split
      · exact le_rfl
      split
      · exact Nat.sub_le ..
      · exact le_rfl
    exact ⟨⟨hcntd.remove id, by simp only; omega⟩, contains_remove dense id⟩
  | none =>
    have h : count ≤ 1 ∨ count = sparse.size := h
    simp only
    split
    · rename_i hone
      split_ifs with hsame
      · refine ⟨.inl (Nat.zero_le _), fun id' => ?_⟩
        simp [mem, hone, hsame]
      · refine ⟨.inl hone.le, fun id' => ?_⟩
        by_cases heq : id' = id
        · simp [mem, hone, heq, Ne.symm hsame]
        · simp [heq]
    rename_i hone
    have hsize : count = sparse.size := h.resolve_left (by omega)
    split
    · rename_i hhas
      refine ⟨.inr hsize, fun id' => ?_⟩
      by_cases heq : id' = id
      · simpa [mem, hzero, hone, heq] using hhas
      · simp [heq]
    rename_i hhas
    have hhas : sparse.has id = true := by simpa using hhas
    have hdelete : (sparse.delete id).size = count - 1 := by
      rw [size_delete, if_pos hhas, hsize]
    split
    · -- one member is left and is kept by itself
      rename_i htwo
      obtain ⟨last, hlast⟩ : ∃ last, (sparse.delete id).keys = [last] :=
        length_eq_one_iff.1 (by rw [length_keys, hdelete, htwo])
      refine ⟨.inl le_rfl, fun id' => ?_⟩
      have hdel := has_delete sparse id id'
      rw [has_eq_decide, hlast] at hdel
      simpa [mem, hzero, hone, hlast] using hdel
    · refine ⟨.inr hdelete.symm, fun id' => ?_⟩
      have hone' : count - 1 ≠ 0 := by omega
      rename_i htwo
      simp [mem, hzero, hone, hone', htwo, has_delete]

lemma set_spec (h : p.Valid) (maxID : ℕ) :
    (p.set maxID).Counted ∧ ∀ id, (p.set maxID).contains id = p.mem id := by
  obtain ⟨singleton, sparse, dense, count⟩ := p
  rw [set]
  split
  · rename_i hzero
    refine ⟨counted_newSet 0, fun id => ?_⟩
    rw [contains_newSet, h.mem_of_count_zero hzero]
  rename_i hzero
  have hzero : count ≠ 0 := hzero
  cases dense with
  | some dense => exact ⟨(show dense.Counted ∧ _ from h).1, fun _ => rfl⟩
  | none =>
    simp only
    split_ifs with hone
    · refine ⟨(counted_newSet maxID).add singleton, fun id => ?_⟩
      simp [mem, hone, contains_add]
    · refine ⟨(counted_newSet maxID).foldl_add _, fun id => ?_⟩
      rw [contains_foldl_keys]
      simp [mem, hzero, hone]

end Posting

end GideonDB.Metadata
