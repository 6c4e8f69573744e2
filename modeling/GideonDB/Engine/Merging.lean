/-
The two merges of search results, `mergeTopK` of `internal/collection` and `mergeDistributedTopK`
of `internal/api/rest`.  Like the flat index they keep their best candidates in a heap, and all
three return the start of the sorted list (`heaps_sort_and_take`).
-/
import GideonDB.Engine.ExactSearch
import GideonDB.Segment.Flat

namespace GideonDB

open Go GideonDB.Core List

namespace SearchResult

variable {σ : Type} [LinearOrder σ]

/-- By score, then by id. -/
def Before (a b : SearchResult σ) : Prop :=
  b.score < a.score ∨ a.score = b.score ∧ StringLE a.id b.id
deriving Decidable

lemma insertionSort_before (l : List (SearchResult σ)) :
    l.insertionSort Before = sortResults l := by
  rw [sortResults]
  congr
  funext a b
  exact propext (notWorse_iff a b).symm

end SearchResult

namespace Engine

open SearchResult

variable {σ : Type} [LinearOrder σ]

/-- `mergeDistributedTopK`.  `Push` and `Fix` of `container/heap` go through the same positions as
the heaps that are written out. -/
def mergeDistributedTopK (groups : List (List (SearchResult σ))) (k : ℕ) : List (SearchResult σ) :=
  sortResults (groups.flatten.foldl (offer worseSearchResult k) #[]).toList

/-- The flat index after any calls with ids other than 0, and both merges on results with distinct
ids, return the first `k` of all candidates by score and then by id. -/
theorem heaps_sort_and_take (k : ℕ) (hk : 0 < k) :
    (∀ (score : FloatVector → FloatVector → σ) (dimension : ℕ) (calls : List Flat.Index.Call)
      (query : FloatVector) (allowed : ℕ → Bool), (∀ c ∈ calls, c.id ≠ 0) →
      query.length = dimension →
      (Flat.Index.run dimension calls).searchFiltered score query k allowed =
        .ok ((((Flat.Index.contents dimension calls).candidates score query
          allowed).insertionSort Flat.Candidate.Before).take k)) ∧
    (∀ perShard : List (List (SearchResult σ)), (perShard.flatten.map SearchResult.id).Nodup →
      mergeTopK perShard k = (perShard.flatten.insertionSort Before).take k) ∧
    ∀ groups : List (List (SearchResult σ)), (groups.flatten.map SearchResult.id).Nodup →
      mergeDistributedTopK groups k = (groups.flatten.insertionSort Before).take k := by
  have hanti : ∀ l : List (SearchResult σ), (l.map SearchResult.id).Nodup → ∀ x ∈ l, ∀ y ∈ l,
      NotWorse worseSearchResult x y → NotWorse worseSearchResult y x → x = y :=
    fun l hnodup x hx y hy hxy hyx =>
      inj_on_of_nodup_map hnodup hx hy (id_eq_of_notWorse hxy hyx)
  refine ⟨fun score dimension calls query allowed hids hquery => ?_, fun perShard hnodup => ?_,
    fun groups hnodup => ?_⟩
  · have h := Flat.Index.refines_run dimension calls hids
    obtain ⟨htop, hsort⟩ := @topK_spec _ Flat.worse _ _ k hk
      ((Flat.Index.contents dimension calls).candidates score query allowed)
    rw [h.searchFiltered score hquery (Int.natCast_pos.2 hk), Segment.VectorIndex.searchFiltered,
      if_neg (not_not.2 (hquery.trans h.ofMap.1.symm)), if_neg (by omega), Int.toNat_natCast,
      Flat.insertionSort_before]
    exact congrArg _ (htop.eq_take hsort (.of_map _ (Segment.VectorIndex.nodup_candidates ..))
      (Segment.VectorIndex.eq_of_notWorse score _ query allowed))
  · obtain ⟨htop, hsort⟩ := @topK_spec _ worseSearchResult _ _ k hk perShard.flatten
    rw [insertionSort_before]
    exact htop.eq_take hsort (.of_map _ hnodup) (hanti _ hnodup)
  · have htop : TopOf worseSearchResult k groups.flatten _ := topOf_foldl_offer hk _
    rw [insertionSort_before]
    exact (htop.perm (perm_insertionSort _ _)).eq_take (pairwise_insertionSort _ _)
      (.of_map _ hnodup) (hanti _ hnodup)

/-- The slot of the first id is used again for the third. -/
def reusedCalls : List Flat.Index.Call :=
  [.upsert 7 [0], .upsert 5 [0], .delete 7, .upsert 9 [0]]

theorem heaps_sort_and_take_reused :
    (Flat.Index.run 1 reusedCalls).searchFiltered (fun _ _ => 0) [0] (1 : ℕ) (fun _ => true) =
      .ok [⟨5, 0⟩] :=
  ((heaps_sort_and_take 1 Nat.one_pos).1 (fun _ _ => 0) 1 reusedCalls [0] (fun _ => true)
    (by decide) rfl).trans rfl

end Engine

end GideonDB
