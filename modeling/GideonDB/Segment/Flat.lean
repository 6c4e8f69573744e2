/-
The flat index (`index/flat/flat.go`).

Vectors are kept in slots, and the slots of deleted ids are used again.  After any sequence of calls
the live slots are the entries of the map that took the same calls (`refines_run`), so a search of
the slots is one of that map.
-/
import GideonDB.Segment.Search

namespace GideonDB.Flat

open Go GideonDB.Core Segment List

/-- `Index`, with the vectors by slot. -/
structure Index where
  dimension : ℕ
  vectors : List FloatVector
  ids : List ℕ
  ordinals : GoMap ℕ ℕ
  /-- The slots to be used again, the last one first. -/
  free : List ℕ

namespace Index

/-- No slots. -/
def new (dimension : ℕ) : Index := ⟨dimension, [], [], .empty, []⟩

/-- `Upsert`. -/
def upsert (f : Index) (id : ℕ) (vector : FloatVector) : Index × Option Error :=
  if vector.length ≠ f.dimension then (f, some .dimensionMismatch)
  else
    match f.ordinals.get id with
    | some ordinal => ({ f with vectors := f.vectors.set ordinal vector }, none)
    | none =>
      match f.free with
      | ordinal :: free =>
        ({ f with
          vectors := f.vectors.set ordinal vector
          ids := f.ids.set ordinal id
          ordinals := f.ordinals.set id ordinal
          free := free }, none)
      | [] =>
        ({ f with
          vectors := f.vectors ++ [vector]
          ids := f.ids ++ [id]
          ordinals := f.ordinals.set id f.ids.length }, none)

/-- `Delete`. -/
def delete (f : Index) (id : ℕ) : Index × Option Error :=
  match f.ordinals.get id with
  | none => (f, some .notFound)
  | some ordinal =>
    ({ f with
      vectors := f.vectors.set ordinal (replicate f.dimension 0)
      ids := f.ids.set ordinal 0
      ordinals := f.ordinals.delete id
      free := ordinal :: f.free }, none)

/-- `SearchFiltered`. -/
def searchFiltered {σ : Type} [LinearOrder σ] (score : FloatVector → FloatVector → σ) (f : Index)
    (query : FloatVector) (k : ℤ) (allowed : ℕ → Bool) : Except Error (List (Candidate σ)) :=
  if query.length ≠ f.dimension then .error .dimensionMismatch
  else if k ≤ 0 then .error (.invalidArgument "k must be positive")
  else .ok (topK worse k.toNat (((f.ids.zip f.vectors).filter fun slot =>
    slot.1 ≠ 0 && allowed slot.1).map fun slot => ⟨slot.1, score query slot.2⟩))

/-! ### The map it stands for -/

/-- The slots hold the vectors of the map. -/
structure Refines (dimension : ℕ) (f : Index) (idx : VectorIndex) : Prop where
  sized : f.dimension = dimension
  ofMap : idx.dimension = dimension ∧ idx.binary = false
  length : f.ids.length = f.vectors.length
  ordinal : ∀ (i id : ℕ), f.ids[i]? = some id → id ≠ 0 → f.ordinals.get id = some i
  id : ∀ (i id : ℕ), f.ordinals.get id = some i → f.ids[i]? = some id ∧ id ≠ 0
  found : ∀ (i id : ℕ), f.ordinals.get id = some i → idx.vectors.get id = f.vectors[i]?
  missing : ∀ id, f.ordinals.get id = none → idx.vectors.get id = none
  free : ∀ i ∈ f.free, f.ids[i]? = some 0
  nodup : f.free.Nodup

variable {dimension : ℕ} {f : Index} {idx : VectorIndex}

lemma refines_new (dimension : ℕ) :
    Refines dimension (new dimension) ⟨dimension, false, .empty⟩ := by
  constructor <;> simp [new]

lemma Refines.upsert (h : Refines dimension f idx) {id : ℕ} (hid : id ≠ 0) (vector : FloatVector) :
    Refines dimension (f.upsert id vector).1 (idx.upsert id vector).1 := by
  obtain ⟨hdim, hmap, hlen, hord, hids, hfound, hmissing, hfree, hnodup⟩ := h
  rw [VectorIndex.upsert, hmap.1]
  fun_cases f.upsert id vector with
  | case1 hbad =>
    rw [if_pos (hdim ▸ hbad)]
    exact ⟨hdim, hmap, hlen, hord, hids, hfound, hmissing, hfree, hnodup⟩
  | case2 hgood o hget =>
    rw [if_neg (hdim ▸ hgood)]
    constructor <;> grind
  | case3 hgood hget o free hslots =>
    rw [if_neg (hdim ▸ hgood)]
    constructor <;> grind
  | case4 hgood hget hslots =>
    rw [if_neg (hdim ▸ hgood)]
    constructor <;> grind

lemma Refines.delete (h : Refines dimension f idx) (id : ℕ) :
    Refines dimension (f.delete id).1 (idx.delete id).1 := by
  obtain ⟨hdim, hmap, hlen, hord, hids, hfound, hmissing, hfree, hnodup⟩ := h
  rw [VectorIndex.delete, GoMap.has]
  fun_cases f.delete id with
  | case1 hget =>
    rw [hmissing id hget]
    simp only [Option.isSome_none, hmap.2, Bool.false_eq_true, if_false]
    exact ⟨hdim, hmap, hlen, hord, hids, hfound, hmissing, hfree, hnodup⟩
  | case2 i hget =>
    have hsome : (idx.vectors.get id).isSome := by
      have := (List.getElem?_eq_some_iff.1 (hids i id hget).1).1
      rw [hfound i id hget, getElem?_eq_getElem (hlen ▸ this), Option.isSome_some]
    rw [if_pos hsome]
    constructor <;> grind

lemma Refines.perm_slots (h : Refines dimension f idx) :
    idx.vectors.toList.Perm ((f.ids.zip f.vectors).filter fun slot => slot.1 ≠ 0) := by
  have hnodup : (((f.ids.zip f.vectors).filter fun slot => slot.1 ≠ 0).map Prod.fst).Nodup := by
    have hmap : ((f.ids.zip f.vectors).filter fun slot => slot.1 ≠ 0).map Prod.fst =
        f.ids.filter (· ≠ 0) := by
      conv_rhs => rw [← map_fst_zip h.length.le, filter_map]
      rfl
    rw [hmap, List.Nodup, pairwise_filter, pairwise_iff_getElem]
    intro i j hi hj hij hne _ heq
    have hfirst := h.ordinal i _ (getElem?_eq_getElem hi) (by simpa using hne)
    have hsecond := h.ordinal j _ (getElem?_eq_getElem hj) (by simpa [← heq] using hne)
    rw [← heq, hfirst] at hsecond
    exact hij.ne (Option.some.inj hsecond)
  refine (perm_ext_iff_of_nodup (.of_map _ (idx.vectors.map_fst_toList ▸
    idx.vectors.nodup_keys)) (.of_map _ hnodup)).2 fun slot => ?_
  rw [GoMap.mem_toList, mem_filter, mem_iff_getElem?, decide_eq_true_iff]
  simp only [getElem?_zip_eq_some]
  constructor
  · intro hvector
    cases hget : f.ordinals.get slot.1 with
    | none =>
      rw [h.missing _ hget] at hvector
      cases hvector
    | some i => exact ⟨⟨i, (h.id i _ hget).1, h.found i _ hget ▸ hvector⟩, (h.id i _ hget).2⟩
  · rintro ⟨⟨i, hid, hvector⟩, hne⟩
    rw [h.found i _ (h.ordinal i _ hid hne), hvector]

/-! ### Calls -/

/-- The writes. -/
inductive Call
  | upsert (id : ℕ) (vector : FloatVector)
  | delete (id : ℕ)

/-- The id it is for. -/
def Call.id : Call → ℕ
  | .upsert id _ | .delete id => id

/-- One write. -/
def call (f : Index) : Call → Index × Option Error
  | .upsert id vector => f.upsert id vector
  | .delete id => f.delete id

/-- The index it leaves. -/
def run (dimension : ℕ) (calls : List Call) : Index :=
  calls.foldl (fun f c => (f.call c).1) (new dimension)

/-- What a map makes of the same call. -/
def Call.onMap (idx : VectorIndex) : Call → VectorIndex × Option Error
  | .upsert id vector => idx.upsert id vector
  | .delete id => idx.delete id

/-- The map after the writes. -/
def contents (dimension : ℕ) (calls : List Call) : VectorIndex :=
  calls.foldl (fun idx c => (c.onMap idx).1) ⟨dimension, false, .empty⟩

lemma refines_run (dimension : ℕ) (calls : List Call) (hids : ∀ c ∈ calls, c.id ≠ 0) :
    Refines dimension (run dimension calls) (contents dimension calls) := by
  induction calls using reverseRecOn with
  | nil => exact refines_new dimension
  | append_singleton calls c ih =>
    have h := ih fun c hc => hids c (mem_append_left _ hc)
    have hid := hids c (by simp)
    rw [run, contents, foldl_append, foldl_append]
    cases c with
    | upsert id vector => exact h.upsert hid vector
    | delete id => exact h.delete id

lemma Refines.searchFiltered {σ : Type} [LinearOrder σ] (h : Refines dimension f idx)
    (score : FloatVector → FloatVector → σ) {query : FloatVector}
    (hquery : query.length = dimension) {k : ℤ} (hk : 0 < k) (allowed : ℕ → Bool) :
    f.searchFiltered score query k allowed = idx.searchFiltered score query k allowed := by
  rw [idx.searchFiltered_slots score hk (hquery.trans h.ofMap.1.symm) allowed h.perm_slots,
    Index.searchFiltered, if_neg (not_not.2 (hquery.trans h.sized.symm)), if_neg (not_le.2 hk),
    filter_filter]
  simp only [Bool.and_comm]

end Index

/-! ### The order of the candidates -/

variable {σ : Type} [LinearOrder σ]

/-- By score, then by id. -/
def Candidate.Before (a b : Candidate σ) : Prop :=
  b.score < a.score ∨ a.score = b.score ∧ a.id ≤ b.id
deriving Decidable

lemma insertionSort_before (l : List (Candidate σ)) :
    l.insertionSort Candidate.Before = l.insertionSort (NotWorse worse) := by
  congr
  funext a b
  exact propext (notWorse_iff a b).symm

end GideonDB.Flat
