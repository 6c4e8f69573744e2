/-
Sets of ordinals as bitmaps (`Set` in `metadata/filter.go`).

A set keeps one bit per ordinal in 64-bit words and the number of its members beside
them.  Every operation of the source is given with its effect on the members, and keeps
the number right (`Counted`).
-/
import Mathlib.Data.Set.Card

namespace GideonDB.Metadata

open List

/-- `Set`: a dense bitmap of ordinals with the number of its members. -/
structure OrdinalSet where
  words : List (BitVec 64)
  count : ℕ
deriving DecidableEq, Repr

variable {word : BitVec 64} {id : ℕ} {words : List (BitVec 64)} {s t : OrdinalSet}

namespace OrdinalSet

/-- `newSet`. -/
def newSet (maxID : ℕ) : OrdinalSet := ⟨replicate (maxID / 64 + 1) 0, 0⟩

/-- `uint64(1) << (id % 64)`. -/
def mask (id : ℕ) : BitVec 64 := 1#64 <<< (id % 64)

/-- The words, extended to hold the given one. -/
def grow (words : List (BitVec 64)) (word : ℕ) : List (BitVec 64) :=
  if words.length ≤ word then words ++ replicate (word - words.length + 1) 0 else words

/-- `Add`. -/
def add (s : OrdinalSet) (id : ℕ) : OrdinalSet :=
  if (grow s.words (id / 64)).getD (id / 64) 0 &&& mask id = 0 then
    ⟨(grow s.words (id / 64)).set (id / 64)
      ((grow s.words (id / 64)).getD (id / 64) 0 ||| mask id), s.count + 1⟩
  else ⟨grow s.words (id / 64), s.count⟩

/-- `Remove`. -/
def remove (s : OrdinalSet) (id : ℕ) : OrdinalSet :=
  if s.words.length ≤ id / 64 then s
  else if s.words.getD (id / 64) 0 &&& mask id ≠ 0 then
    ⟨s.words.set (id / 64) (s.words.getD (id / 64) 0 &&& ~~~mask id), s.count - 1⟩
  else s

/-- `Contains`. -/
def contains (s : OrdinalSet) (id : ℕ) : Bool :=
  id / 64 < s.words.length && s.words.getD (id / 64) 0 &&& mask id != 0

/-- `Len`. -/
def len (s : OrdinalSet) : ℕ := s.count

/-- `bits.OnesCount64`. -/
def onesCount (word : BitVec 64) : ℕ := (range 64).countP word.getLsbD

/-- The count of the bits. -/
def recount (words : List (BitVec 64)) : OrdinalSet := ⟨words, (words.map onesCount).sum⟩

/-- `Union`. -/
def union (a b : OrdinalSet) : OrdinalSet :=
  recount ((range (max a.words.length b.words.length)).map fun position =>
    a.words.getD position 0 ||| b.words.getD position 0)

/-- `Intersect`. -/
def intersect (a b : OrdinalSet) : OrdinalSet :=
  recount ((range (min a.words.length b.words.length)).map fun position =>
    a.words.getD position 0 &&& b.words.getD position 0)

/-- `Difference`. -/
def difference (a b : OrdinalSet) : OrdinalSet :=
  recount ((range a.words.length).map fun position =>
    a.words.getD position 0 &&& ~~~b.words.getD position 0)

/-- The members in the words from the given one on, in ascending order: the loop of
`setIDs`, which takes the ones of each word from the lowest up. -/
def idsFrom : ℕ → List (BitVec 64) → List ℕ
  | _, [] => []
  | base, word :: words =>
    ((range 64).filter word.getLsbD).map (64 * base + ·) ++ idsFrom (base + 1) words

/-- `setIDs`. -/
def setIDs (s : OrdinalSet) : List ℕ := idsFrom 0 s.words

/-! ### Single bits -/

/-- The bit of an ordinal; bits beyond the words are zero. -/
def bit (words : List (BitVec 64)) (id : ℕ) : Bool := (words.getD (id / 64) 0).getLsbD (id % 64)

lemma getLsbD_mask (id i : ℕ) : (mask id).getLsbD i = decide (i = id % 64) := by
  have : id % 64 < 64 := Nat.mod_lt _ (by omega)
  simp only [mask, BitVec.getLsbD_shiftLeft, BitVec.getLsbD_one]
  grind

lemma and_mask_eq_zero : word &&& mask id = 0 ↔ word.getLsbD (id % 64) = false := by
  constructor
  · intro h
    have := congrArg (·.getLsbD (id % 64)) h
    simpa [getLsbD_mask] using this
  · intro h
    refine BitVec.eq_of_getLsbD_eq fun i hi => ?_
    rw [BitVec.getLsbD_and, getLsbD_mask]
    by_cases hid : i = id % 64
    · simp [hid, h]
    · simp [hid]

lemma bit_of_length_le (h : words.length ≤ id / 64) : bit words id = false := by
  simp [bit, getD_eq_getElem?_getD, getElem?_eq_none h]

lemma contains_eq_bit (s : OrdinalSet) (id : ℕ) : s.contains id = bit s.words id := by
  by_cases hlen : id / 64 < s.words.length
  · rw [contains, decide_eq_true hlen, Bool.true_and, Bool.eq_iff_iff, bne_iff_ne, ne_eq,
      and_mask_eq_zero, Bool.not_eq_false, bit]
  · rw [bit_of_length_le (Nat.le_of_not_lt hlen), contains, decide_eq_false hlen, Bool.false_and]

@[simp] lemma bit_replicate (n id : ℕ) : bit (replicate n 0) id = false := by
  simp only [bit, getD_eq_getElem?_getD, getElem?_replicate]
  split <;> simp

@[simp] lemma bit_grow (words : List (BitVec 64)) (word id : ℕ) :
    bit (grow words word) id = bit words id := by
  rw [grow]
  split
  · simp only [bit, getD_eq_getElem?_getD, getElem?_append, getElem?_replicate]
    split
    · rfl
    · rw [getElem?_eq_none (by omega : words.length ≤ id / 64)]
      split <;> simp
  · rfl

lemma length_grow {word : ℕ} : word < (grow words word).length := by
  rw [grow]
  split
  · simp
    omega
  · omega

lemma bit_set {id' : ℕ} (hlen : id / 64 < words.length) : bit (words.set (id / 64) word) id' =
      if id' / 64 = id / 64 then word.getLsbD (id' % 64) else bit words id' := by
  simp only [bit, getD_eq_getElem?_getD, getElem?_set]
  by_cases h : id' / 64 = id / 64
  · simp [h, hlen]
  · simp [h, Ne.symm h]

lemma eq_of_div_mod {id' : ℕ} (hdiv : id' / 64 = id / 64) (hmod : id' % 64 = id % 64) :
    id' = id := by
  omega

/-! ### Membership after each operation -/

@[simp] lemma contains_newSet (maxID id : ℕ) : (newSet maxID).contains id = false := by
  rw [contains_eq_bit]
  exact bit_replicate _ _

@[grind =] lemma contains_add (s : OrdinalSet) (id id' : ℕ) :
    (s.add id).contains id' = (decide (id' = id) || s.contains id') := by
  rw [contains_eq_bit, contains_eq_bit, add]
  split_ifs with hset
  · rw [bit_set length_grow]
    split_ifs with hdiv
    · have hbit : bit s.words id' = ((grow s.words (id / 64)).getD (id / 64) 0).getLsbD (id' % 64) := by
        rw [← bit_grow _ (id / 64), bit, hdiv]
      rw [hbit, BitVec.getLsbD_or, getLsbD_mask]
      have : id' % 64 = id % 64 ↔ id' = id := ⟨eq_of_div_mod hdiv, fun h => h ▸ rfl⟩
      simp [this, Bool.or_comm]
    · have : id' ≠ id := fun h => hdiv (h ▸ rfl)
      simp [this]
  · rw [and_mask_eq_zero, Bool.not_eq_false] at hset
    have hid : bit s.words id = true := by rw [← bit_grow _ (id / 64)]; exact hset
    rw [bit_grow]
    by_cases h : id' = id
    · simp [h, hid]
    · simp [h]

@[grind =] lemma contains_remove (s : OrdinalSet) (id id' : ℕ) :
    (s.remove id).contains id' = (decide (id' ≠ id) && s.contains id') := by
  rw [contains_eq_bit, contains_eq_bit, remove]
  split
  · rename_i hlen
    by_cases h : id' = id
    · simp [h, bit, getD_eq_getElem?_getD, getElem?_eq_none hlen]
    · simp [h]
  split
  · rename_i hlen _
    rw [bit_set (Nat.lt_of_not_le hlen)]
    split_ifs with hdiv
    · have : id' % 64 = id % 64 ↔ id' = id := ⟨eq_of_div_mod hdiv, fun h => h ▸ rfl⟩
      have hlt : id' % 64 < 64 := Nat.mod_lt _ (by omega)
      rw [BitVec.getLsbD_and, BitVec.getLsbD_not, getLsbD_mask, bit, hdiv]
      simp [this, hlt, Bool.and_comm]
    · have : id' ≠ id := fun h => hdiv (h ▸ rfl)
      simp [this]
  · rename_i hlen hclear
    rw [not_not, and_mask_eq_zero] at hclear
    by_cases h : id' = id
    · rw [h, bit, hclear]
      simp
    · simp [h]

lemma bit_map_range {n : ℕ} {f : ℕ → BitVec 64} :
    bit ((range n).map f) id = (decide (id / 64 < n) && (f (id / 64)).getLsbD (id % 64)) := by
  simp only [bit, getD_eq_getElem?_getD, getElem?_map]
  by_cases h : id / 64 < n <;> simp [h]

section

variable (a b : OrdinalSet)

@[grind =] lemma contains_union (id : ℕ) :
    (a.union b).contains id = (a.contains id || b.contains id) := by
  simp only [contains_eq_bit, union, recount, bit_map_range, BitVec.getLsbD_or]
  by_cases h : id / 64 < max a.words.length b.words.length
  · simp [h, bit]
  · rw [bit_of_length_le (by omega), bit_of_length_le (by omega)]
    simp [h]

@[grind =] lemma contains_intersect (id : ℕ) :
    (a.intersect b).contains id = (a.contains id && b.contains id) := by
  simp only [contains_eq_bit, intersect, recount, bit_map_range, BitVec.getLsbD_and]
  by_cases h : id / 64 < min a.words.length b.words.length
  · simp [h, bit]
  · rcases Nat.lt_or_ge (id / 64) a.words.length with ha | ha
    · rw [show bit b.words id = false from bit_of_length_le (by omega)]
      simp [h]
    · rw [bit_of_length_le ha]
      simp [h]

@[grind =] lemma contains_difference (id : ℕ) :
    (a.difference b).contains id = (a.contains id && !b.contains id) := by
  have hlt : id % 64 < 64 := Nat.mod_lt _ (by omega)
  simp only [contains_eq_bit, difference, recount, bit_map_range, BitVec.getLsbD_and,
    BitVec.getLsbD_not]
  by_cases h : id / 64 < a.words.length
  · simp [h, hlt, bit]
  · rw [bit_of_length_le (by omega)]
    simp [h]

end

/-! ### The number of members -/

lemma mem_idsFrom {base : ℕ} : id ∈ idsFrom base words ↔
      base ≤ id / 64 ∧ (words.getD (id / 64 - base) 0).getLsbD (id % 64) := by
  induction words generalizing base with
  | nil => simp [idsFrom]
  | cons word words ih =>
    rw [idsFrom, mem_append, ih]
    have hword : id ∈ ((range 64).filter word.getLsbD).map (64 * base + ·) ↔
        id / 64 = base ∧ word.getLsbD (id % 64) = true := by
      simp only [mem_map, mem_filter, mem_range]
      constructor
      · rintro ⟨i, ⟨hi, hbit⟩, rfl⟩
        exact ⟨by omega, by rwa [show (64 * base + i) % 64 = i by omega]⟩
      · rintro ⟨rfl, hbit⟩
        exact ⟨id % 64, ⟨Nat.mod_lt _ (by omega), hbit⟩, by omega⟩
    rw [hword]
    rcases Nat.lt_trichotomy (id / 64) base with hlt | heq | hgt
    · exact iff_of_false (by omega) (by omega)
    · subst heq
      simp
    · have : id / 64 - base = id / 64 - (base + 1) + 1 := by omega
      rw [this, getD_cons_succ]
      constructor
      · rintro (⟨h, -⟩ | ⟨-, h⟩)
        · omega
        · exact ⟨by omega, h⟩
      · exact fun h => .inr ⟨by omega, h.2⟩

@[simp] lemma mem_setIDs : id ∈ s.setIDs ↔ s.contains id = true := by
  rw [setIDs, mem_idsFrom, contains_eq_bit, bit]
  simp

lemma pairwise_idsFrom (base : ℕ) (words : List (BitVec 64)) :
    (idsFrom base words).Pairwise (· < ·) := by
  induction words generalizing base with
  | nil => exact List.Pairwise.nil
  | cons word words ih =>
    refine pairwise_append.2 ⟨?_, ih _, ?_⟩
    · exact List.Pairwise.map _ (fun _ _ h => by omega)
        ((pairwise_lt_range).sublist filter_sublist)
    · intro x hx y hy
      obtain ⟨i, hi, rfl⟩ := mem_map.1 hx
      have := mem_range.1 (mem_of_mem_filter hi)
      have := (mem_idsFrom.1 hy).1
      omega

lemma pairwise_setIDs (s : OrdinalSet) : s.setIDs.Pairwise (· < ·) := pairwise_idsFrom ..

lemma nodup_setIDs (s : OrdinalSet) : s.setIDs.Nodup :=
  (pairwise_setIDs s).imp fun h => Nat.ne_of_lt h

lemma length_idsFrom (base : ℕ) (words : List (BitVec 64)) :
    (idsFrom base words).length = (words.map onesCount).sum := by
  induction words generalizing base with
  | nil => rfl
  | cons word words ih =>
    rw [idsFrom, length_append, length_map, ih, map_cons, sum_cons, onesCount,
      countP_eq_length_filter]

/-- The stored number is the number of members. -/
def Counted (s : OrdinalSet) : Prop := s.count = s.setIDs.length

lemma length_setIDs_congr (h : ∀ id, s.contains id = t.contains id) :
    s.setIDs.length = t.setIDs.length := by
  refine List.Perm.length_eq ((perm_ext_iff_of_nodup s.nodup_setIDs t.nodup_setIDs).2 ?_)
  simp [h]

lemma length_setIDs_add (id : ℕ) (hid : s.contains id = false)
    (h : ∀ id', t.contains id' = (decide (id' = id) || s.contains id')) :
    t.setIDs.length = s.setIDs.length + 1 := by
  have hnodup : (id :: s.setIDs).Nodup := nodup_cons.2 ⟨by simp [hid], s.nodup_setIDs⟩
  refine ((perm_ext_iff_of_nodup t.nodup_setIDs hnodup).2 fun id' => ?_).length_eq
  simp [h]

@[simp] lemma remove_newSet (maxID id : ℕ) : (newSet maxID).remove id = newSet maxID := by
  have hword : (newSet maxID).words.getD (id / 64) 0 = 0 := by
    simp only [newSet, getD_eq_getElem?_getD, getElem?_replicate]
    split <;> rfl
  rw [remove, hword]
  simp

@[simp] lemma counted_newSet (maxID : ℕ) : (newSet maxID).Counted := by
  rw [Counted, length_setIDs_congr (t := ⟨[], 0⟩)]
  · rfl
  · intro id
    rw [contains_newSet, contains_eq_bit, bit_of_length_le (Nat.zero_le _)]

lemma counted_recount (words : List (BitVec 64)) : (recount words).Counted :=
  (length_idsFrom 0 words).symm

lemma Counted.add (h : s.Counted) (id : ℕ) : (s.add id).Counted := by
  have hcont := contains_add s id
  have hbit : ((grow s.words (id / 64)).getD (id / 64) 0).getLsbD (id % 64) = s.contains id := by
    rw [contains_eq_bit, ← bit_grow _ (id / 64)]
    rfl
  cases hid : s.contains id with
  | false =>
    rw [Counted, length_setIDs_add id hid hcont, ← h, OrdinalSet.add,
      if_pos (and_mask_eq_zero.2 (hbit.trans hid))]
  | true =>
    have hne : (grow s.words (id / 64)).getD (id / 64) 0 &&& mask id ≠ 0 := fun hzero => by
      rw [and_mask_eq_zero.1 hzero, hid] at hbit
      cases hbit
    rw [Counted, length_setIDs_congr (t := s), ← h, OrdinalSet.add, if_neg hne]
    intro id'
    rw [hcont]
    by_cases heq : id' = id
    · simp [heq, hid]
    · simp [heq]

lemma Counted.remove (h : s.Counted) (id : ℕ) : (s.remove id).Counted := by
  have hcont := contains_remove s id
  cases hid : s.contains id with
  | false =>
    have hsame : s.remove id = s := by
      rw [OrdinalSet.remove]
      split
      · rfl
      · rw [contains_eq_bit, bit] at hid
        rw [if_neg (not_not.2 (and_mask_eq_zero.2 hid))]
    rw [hsame]
    exact h
  | true =>
    have hlen : ¬ s.words.length ≤ id / 64 := fun hlen => by
      rw [contains_eq_bit, bit_of_length_le hlen] at hid
      cases hid
    have hne : s.words.getD (id / 64) 0 &&& mask id ≠ 0 := fun hzero => by
      rw [contains_eq_bit, bit, and_mask_eq_zero.1 hzero] at hid
      cases hid
    have hlength : s.setIDs.length = (s.remove id).setIDs.length + 1 := by
      refine length_setIDs_add id (by simp [hcont]) fun id' => ?_
      rw [hcont]
      by_cases heq : id' = id
      · simp [heq, hid]
      · simp [heq]
    rw [Counted, OrdinalSet.remove, if_neg hlen, if_pos hne]
    rw [OrdinalSet.remove, if_neg hlen, if_pos hne, ← h] at hlength
    exact (Nat.eq_sub_of_add_eq hlength.symm).symm

lemma counted_union (a b : OrdinalSet) : (a.union b).Counted := counted_recount _

lemma counted_intersect (a b : OrdinalSet) : (a.intersect b).Counted := counted_recount _

lemma counted_difference (a b : OrdinalSet) : (a.difference b).Counted := counted_recount _

lemma Counted.len_eq_ncard (h : s.Counted) : s.len = Set.ncard {id | s.contains id = true} := by
  have hset : {id | s.contains id = true} = (s.setIDs.toFinset : Set ℕ) := by
    ext id
    simp
  rw [hset, Set.ncard_coe_finset, toFinset_card_of_nodup s.nodup_setIDs]
  exact h

lemma contains_foldl_add (ids : List ℕ) (s : OrdinalSet) (id : ℕ) :
    (ids.foldl add s).contains id = (decide (id ∈ ids) || s.contains id) := by
  induction ids generalizing s with
  | nil => simp
  | cons x ids ih =>
    rw [foldl_cons, ih, contains_add]
    by_cases h : id = x <;> simp [h]

lemma Counted.foldl_add (h : s.Counted) (ids : List ℕ) : (ids.foldl OrdinalSet.add s).Counted := by
  induction ids generalizing s with
  | nil => exact h
  | cons x ids ih => exact ih (h.add x)

end OrdinalSet

end GideonDB.Metadata
