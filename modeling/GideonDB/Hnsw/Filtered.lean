/-
The exact search that a filtered HNSW search falls back to.

Its heap is ordered by score alone, while an element takes the place of the root if it is before
the root by score and then by id.  So an element may take the place of one that belongs to the
answer while another with the same score and a greater id stays.  This can happen for some order
of the nodes exactly if `k` is not 1 and the `k`-th score is also that of an element that does
not belong to the answer (`exactFiltered_sorted_iff`).
-/
import GideonDB.Hnsw.Reachability
import GideonDB.Segment.Flat

namespace GideonDB.Hnsw.Index

open Go GideonDB.Core Flat List

variable {σ : Type} [LinearOrder σ] (score : FloatVector → FloatVector → σ)

/-- The order of `minHeap`. -/
def lessScore (a b : Candidate σ) : Bool := a.score < b.score

/-- The nodes that a filtered search is about. -/
def liveAllowed (allowed : ℕ → Bool) (nodes : List Node) : List Node :=
  nodes.filter fun item => !item.deleted && allowed item.id

/-- A node with its score. -/
def candidate (query : FloatVector) (item : Node) : Candidate σ :=
  ⟨item.id, score query item.vector⟩

/-- `exactFilteredLocked`.  A scored ordinal is given by the id of its node. -/
def exactFiltered (h : Index) (query : FloatVector) (k : ℕ) (allowed : ℕ → Bool) :
    List (Candidate σ) :=
  ((((liveAllowed allowed h.nodes).map (candidate score query)).foldl
    (offerBy worse lessScore k) #[]).toList).insertionSort (NotWorse worse)

/-- All live and allowed nodes, by score and then by id. -/
def ranking (query : FloatVector) (allowed : ℕ → Bool) (nodes : List Node) : List (Candidate σ) :=
  ((liveAllowed allowed nodes).map (candidate score query)).insertionSort Candidate.Before

lemma notLess_iff {a b : Candidate σ} : NotWorse lessScore a b ↔ b.score ≤ a.score := by
  simp [NotWorse, lessScore]

instance : Std.Total (NotWorse (lessScore : Candidate σ → _)) :=
  ⟨fun a b => by simpa only [notLess_iff] using le_total b.score a.score⟩

instance : IsTrans (Candidate σ) (NotWorse lessScore) :=
  ⟨fun _ _ _ hab hbc => notLess_iff.2 ((notLess_iff.1 hbc).trans (notLess_iff.1 hab))⟩

lemma worse_of_less {a b : Candidate σ} (h : lessScore a b) : worse a b := by
  simp only [lessScore, decide_eq_true_eq] at h
  simp [worse, better, h]

lemma notLess_of_worse {a b : Candidate σ} (h : worse a b) : NotWorse lessScore b a := by
  rcases (notWorse_iff b a).1 (notWorse_of_worse h) with hlt | ⟨heq, -⟩
  · exact notLess_iff.2 hlt.le
  · exact notLess_iff.2 heq.ge

lemma notLess_of_notWorse {a b : Candidate σ} (h : NotWorse worse a b) : NotWorse lessScore a b :=
  eq_false_of_ne_true fun hless => by simp [NotWorse, worse_of_less hless] at h

variable {score} {query : FloatVector} {k : ℕ} {allowed : ℕ → Bool} {nodes : List Node}

omit [LinearOrder σ] in
lemma nodup_candidates (hids : ((liveAllowed allowed nodes).map Node.id).Nodup) :
    ((liveAllowed allowed nodes).map (candidate score query)).Nodup :=
  .of_map Candidate.id (by rwa [map_map])

lemma eq_of_notWorse (hids : ((liveAllowed allowed nodes).map Node.id).Nodup) :
    ∀ a ∈ (liveAllowed allowed nodes).map (candidate score query),
      ∀ b ∈ (liveAllowed allowed nodes).map (candidate score query),
        NotWorse worse a b → NotWorse worse b a → a = b := by
  simp only [forall_mem_map]
  intro a ha b hb hab hba
  have htie := tie_of_score notWorse_iff hab hba
  rw [inj_on_of_nodup_map hids ha hb (Nat.le_antisymm htie.2.1 htie.2.2)]

/-- The answer is right if the heap ends up with the best candidates. -/
lemma exactFiltered_eq {h : Index} (hnodes : h.nodes.Perm nodes)
    (hids : ((liveAllowed allowed nodes).map Node.id).Nodup)
    (htop : TopOf worse k ((liveAllowed allowed h.nodes).map (candidate score query))
      (((liveAllowed allowed h.nodes).map (candidate score query)).foldl
        (offerBy worse lessScore k) #[]).toList) :
    h.exactFiltered score query k allowed = (ranking score query allowed nodes).take k := by
  rw [ranking, insertionSort_before]
  refine ((htop.of_perm ((hnodes.filter _).map _)).perm (perm_insertionSort _ _)).eq_take
    (pairwise_insertionSort _ _) (nodup_candidates hids) (eq_of_notWorse hids)

lemma exists_ranking (score : FloatVector → FloatVector → σ) (query : FloatVector)
    (allowed : ℕ → Bool) (nodes : List Node) :
    ∃ order : List Node, order.Perm (liveAllowed allowed nodes) ∧
      ranking score query allowed nodes = order.map (candidate score query) := by
  have hmap := map_insertionSort (fun a b => NotWorse worse (candidate score query a)
    (candidate score query b)) (NotWorse worse) _ (liveAllowed allowed nodes) fun _ _ _ _ => Iff.rfl
  rw [ranking, insertionSort_before, ← hmap]
  exact ⟨_, perm_insertionSort _ _, rfl⟩

lemma pairwise_ranking (score : FloatVector → FloatVector → σ) (query : FloatVector)
    (allowed : ℕ → Bool) (nodes : List Node) :
    (ranking score query allowed nodes).Pairwise (NotWorse worse) := by
  rw [ranking, insertionSort_before]
  exact pairwise_insertionSort _ _

/-- For a tie at the end of the answer there is an order of the nodes in which the last one of the
answer is lost: it comes first and is the root when the first one of the answer comes. -/
lemma exists_exactFiltered_ne (hids : ((liveAllowed allowed nodes).map Node.id).Nodup)
    {first last next : Node} {mid rest : List Node}
    (horder : (first :: mid ++ last :: next :: rest).Perm (liveAllowed allowed nodes))
    (hrank : ranking score query allowed nodes =
      (first :: mid ++ last :: next :: rest).map (candidate score query))
    (htie : (candidate score query next).score = (candidate score query last).score) :
    ∃ h : Index, h.nodes.Perm nodes ∧ h.exactFiltered score query (mid.length + 2) allowed ≠
      (ranking score query allowed nodes).take (mid.length + 2) := by
  have hperm : (last :: (next :: mid.reverse) ++ first :: rest).Perm (liveAllowed allowed nodes) := by
    refine perm_middle.trans (List.Perm.trans (.cons first ?_) horder)
    exact ((((reverse_perm mid).append_right rest).cons next).cons last).trans
      (perm_middle.trans (perm_middle.cons last)).symm
  have hsort := pairwise_ranking score query allowed nodes
  rw [hrank, pairwise_map, cons_append, pairwise_cons, pairwise_append] at hsort
  obtain ⟨hfirst, hmid, -, hlast⟩ := hsort
  have hnodup : ((first :: mid ++ last :: next :: rest).map Node.id).Nodup :=
    (horder.map _).nodup_iff.2 hids
  have hsplit : (liveAllowed allowed nodes ++ nodes.filter fun item =>
      !(!item.deleted && allowed item.id)).Perm nodes := filter_append_perm _ _
  have hlive : liveAllowed allowed (last :: (next :: mid.reverse) ++ first :: rest ++
      nodes.filter fun item => !(!item.deleted && allowed item.id)) =
        last :: (next :: mid.reverse) ++ first :: rest := by
    rw [liveAllowed, filter_append, filter_filter, filter_eq_self.2 fun item hmem =>
      (mem_filter.1 (hperm.mem_iff.1 hmem)).2]
    simp
  refine ⟨⟨_, .empty, none, 0, 0⟩, (hperm.append_right _).trans hsplit, fun heq => ?_⟩
  have hmem : candidate score query last ∈ (ranking score query allowed nodes).take
      (mid.length + 2) := by
    rw [hrank]
    simp [take_append]
  rw [← heq, exactFiltered, (perm_insertionSort _ _).mem_iff, hlive] at hmem
  revert hmem
  rw [map_append, map_cons, map_cons]
  refine notMem_foldl_offerBy ?_ (by simp) ?_ ?_
  · -- by their scores they come worst first
    simp only [pairwise_cons, forall_mem_cons, forall_mem_map,
      pairwise_map, pairwise_reverse, mem_reverse]
    exact ⟨⟨notLess_iff.2 htie.ge, fun item hmem => notLess_of_notWorse (hlast item hmem last (by simp))⟩,
      fun item hmem => notLess_of_notWorse (hlast item hmem next (by simp)),
      hmid.imp notLess_of_notWorse⟩
  · by_contra hnot
    have htie := tie_of_score notWorse_iff (hfirst last (by simp)) (eq_false_of_ne_true hnot)
    exact (nodup_cons.1 hnodup).1 (mem_map.2 ⟨last, by simp,
      Nat.le_antisymm htie.2.2 htie.2.1⟩)
  · have hcands : ((liveAllowed allowed nodes).map (candidate score query)).Nodup :=
      nodup_candidates hids
    rw [← (hperm.map _).nodup_iff, map_append] at hcands
    exact hcands

/-- The fallback returns the first `k` of the live and allowed nodes, by score and then by id, for
every order of the nodes if and only if it returns one node or all nodes that are not returned
have lower scores. -/
theorem exactFiltered_sorted_iff (score : FloatVector → FloatVector → σ) (query : FloatVector)
    (hk : 0 < k) (allowed : ℕ → Bool) (nodes : List Node)
    (hids : ((liveAllowed allowed nodes).map Node.id).Nodup) :
    (∀ h : Index, h.nodes.Perm nodes → h.exactFiltered score query k allowed =
        (ranking score query allowed nodes).take k) ↔
      k = 1 ∨ ∀ a ∈ (ranking score query allowed nodes).take k,
        ∀ b ∈ (ranking score query allowed nodes).drop k, b.score < a.score := by
  constructor
  · intro hexact
    by_contra hnot
    simp only [not_or, not_forall, not_lt] at hnot
    obtain ⟨hone, a, ha, b, hb, hle⟩ := hnot
    obtain ⟨order, horder, hrank⟩ := exists_ranking score query allowed nodes
    have hsort := pairwise_ranking score query allowed nodes
    rw [hrank, ← map_take] at ha
    rw [hrank, ← map_drop] at hb
    obtain ⟨next, rest, hdrop⟩ := exists_cons_of_ne_nil
      (ne_nil_of_mem (mem_map.1 hb).choose_spec.1)
    have hlength := congrArg length hdrop
    rw [length_drop, length_cons] at hlength
    obtain ⟨first, mid, last, htake⟩ : ∃ first mid last, order.take k = first :: mid ++ [last] := by
      obtain ⟨first, tail, htail⟩ : ∃ first tail, order.take k = first :: tail :=
        exists_cons_of_length_pos (by rw [length_take]; omega)
      rcases eq_nil_or_concat tail with rfl | ⟨mid, last, rfl⟩
      · have := congrArg length htail
        rw [length_take, length_singleton] at this
        omega
      · exact ⟨first, mid, last, by rw [htail, concat_eq_append, cons_append]⟩
    have hk : k = mid.length + 2 := by
      have := congrArg length htake
      simp only [length_take, length_cons, length_append, length_nil] at this
      omega
    have hsplit : order = first :: mid ++ last :: next :: rest := by
      rw [← take_append_drop k order, htake, hdrop]
      simp
    rw [hrank, ← take_append_drop k order, htake, hdrop, map_append, map_append,
      pairwise_append, pairwise_append] at hsort
    obtain ⟨⟨-, -, htop⟩, hrest, hcut⟩ := hsort
    rw [htake, map_append, mem_append] at ha
    rw [hdrop, map_cons, mem_cons] at hb
    -- the scores of the tie enclose those of `a` and `b`
    have hlast : (candidate score query last).score ≤ a.score := by
      rcases ha with ha | ha
      · exact notLess_iff.1 (notLess_of_notWorse (htop a ha _ (by simp)))
      · rw [mem_singleton.1 ha]
    have hnext : b.score ≤ (candidate score query next).score := by
      rcases hb with rfl | hb
      · exact le_rfl
      · exact notLess_iff.1 (notLess_of_notWorse ((pairwise_cons.1 hrest).1 b hb))
    have hlow := notLess_iff.1 (notLess_of_notWorse (hcut (candidate score query last) (by simp)
      (candidate score query next) (by simp)))
    subst hsplit hk
    obtain ⟨h, hnodes, hne⟩ := exists_exactFiltered_ne hids horder hrank
      (hlow.antisymm (hlast.trans (hle.trans hnext)))
    exact hne (hexact h hnodes)
  · intro hcond h hnodes
    refine exactFiltered_eq hnodes hids ?_
    rcases hcond with rfl | hgap
    · rw [(foldl_offerBy_one _).1]
      exact topOf_foldl_offer Nat.one_pos _
    · have hperm : ((liveAllowed allowed h.nodes).map (candidate score query)).Perm
          ((liveAllowed allowed nodes).map (candidate score query)) := (hnodes.filter _).map _
      have htop := (topOf_foldl_offerBy (fun _ _ => worse_of_less) (fun _ _ => notLess_of_worse) hk
        ((liveAllowed allowed h.nodes).map (candidate score query))).2
      have hbest := @topOf_take _ worse _ _ k ((liveAllowed allowed nodes).map (candidate score query))
      rw [← insertionSort_before] at hbest
      change TopOf worse k _ ((ranking score query allowed nodes).take k) at hbest
      refine (hbest.of_perm hperm.symm).perm ((htop.of_perm hperm).perm_of_gap (nodup_candidates hids)
        ?_ ?_ fun a ha b hb => decide_eq_true (hgap a ha b hb))
      · rw [take_append_drop]
        exact perm_insertionSort _ _
      · rw [length_take, ranking, length_insertionSort]

/-- Nodes with the given ids and equal vectors, in the order in which they were inserted. -/
def insertAll (ids : List ℕ) : Index :=
  ids.foldl (fun h id => (h.upsert oneScore tinyConfig id [0]).1) empty

theorem exactFiltered_sorted_iff_one :
    ((insertAll [7, 9, 5]).exactFiltered oneScore [0] 1 fun _ => true).map Candidate.id = [5] :=
  (congrArg (map Candidate.id) ((exactFiltered_sorted_iff oneScore [0] Nat.one_pos
    (fun _ => true) (insertAll [7, 9, 5]).nodes (by decide +kernel)).2 (.inl rfl) _ .rfl)).trans
      (by decide +kernel)

/-- Three nodes with the same score: the third one takes the place of the first one, while the
second one, which has the greatest id, stays. -/
theorem exactFiltered_loses_tie :
    ((insertAll [7, 9, 5]).exactFiltered oneScore [0] 2 fun _ => true).map Candidate.id = [5, 9] ∧
      ((ranking oneScore [0] (fun _ => true) (insertAll [7, 9, 5]).nodes).take 2).map Candidate.id =
        [5, 7] := by
  decide +kernel

end GideonDB.Hnsw.Index
