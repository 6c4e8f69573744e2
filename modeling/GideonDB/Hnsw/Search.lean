/-
What the searches of the HNSW index find.

The descent moves along links.  The search of a layer visits no node twice and accepts what it
returns; as long as it has accepted nothing it leaves nothing out, so it finds something if an
accepted node can be reached from its entry at all (`searchLayer_ne_nil`).
-/
import GideonDB.Hnsw.Index

namespace GideonDB.Hnsw.Index

open Go GideonDB.Core List

variable {σ : Type} [LinearOrder σ] {score : FloatVector → FloatVector → σ} {h : Index}

/-- The lists of a layer have nodes of that layer. -/
def Linked (h : Index) : Prop :=
  ∀ ordinal layer, ∀ neighbor ∈ h.neighborsAt ordinal layer,
    neighbor < h.nodes.length ∧ layer ≤ (h.node neighbor).level

/-! ### The descent -/

section Descent

variable {query : FloatVector} {layer : ℕ}

lemma improves_iff {n c : ℕ} : h.improves score query n c ↔
    h.scoreAt score query c < h.scoreAt score query n ∨
      h.scoreAt score query n = h.scoreAt score query c ∧ (h.node n).id < (h.node c).id := by
  rw [improves, Bool.or_eq_true, Bool.and_eq_true, decide_eq_true_eq, decide_eq_true_eq,
    decide_eq_true_eq]

lemma improves_irrefl (n : ℕ) : h.improves score query n n = false := by
  simp [improves]

lemma improves_trans {a b c : ℕ} (hab : h.improves score query a b)
    (hbc : h.improves score query b c) : h.improves score query a c := by
  rw [improves_iff] at hab hbc ⊢
  rcases hab with hlt | ⟨heq, hid⟩
  · rcases hbc with hlt' | ⟨heq', -⟩
    · exact .inl (hlt'.trans hlt)
    · exact .inl (heq' ▸ hlt)
  · rcases hbc with hlt' | ⟨heq', hid'⟩
    · exact .inl (heq.symm ▸ hlt')
    · exact .inr ⟨heq.trans heq', hid.trans hid'⟩

lemma greedyRound_spec (h : Index) (score : FloatVector → FloatVector → σ) (query : FloatVector)
    (layer current : ℕ) :
    ((h.greedyRound score query layer current).2 →
      (h.greedyRound score query layer current).1 ∈ h.neighborsAt current layer ∧
      h.improves score query (h.greedyRound score query layer current).1 current) ∧
    ((h.greedyRound score query layer current).2 = false →
      ∀ neighbor ∈ h.neighborsAt current layer, h.improves score query neighbor current = false) := by
  have hfold : ∀ l : List ℕ, let r := l.foldl (fun best n =>
        if h.improves score query n best.1 then (n, true) else best) (current, false)
      (r.2 = true → r.1 ∈ l ∧ h.improves score query r.1 current = true) ∧
      (r.2 = false → r.1 = current ∧ ∀ n ∈ l, h.improves score query n current = false) := by
    intro l
    induction l using reverseRecOn with
    | nil => simp
    | append_singleton l n ih =>
      simp only [foldl_append, foldl_cons, foldl_nil]
      generalize l.foldl _ (current, false) = best at ih ⊢
      split_ifs with hbetter
      · refine ⟨fun _ => ⟨by simp, ?_⟩, nofun⟩
        cases hbest : best.2 with
        | false => rwa [(ih.2 hbest).1] at hbetter
        | true => exact improves_trans hbetter (ih.1 hbest).2
      · refine ⟨fun htrue => ⟨mem_append_left _ (ih.1 htrue).1, (ih.1 htrue).2⟩,
          fun hfalse => ⟨(ih.2 hfalse).1, ?_⟩⟩
        rw [(ih.2 hfalse).1] at hbetter
        simpa [or_imp, forall_and, hbetter] using (ih.2 hfalse).2
  exact ⟨(hfold _).1, fun heq => ((hfold _).2 heq).2⟩

lemma greedy_mem {C : ℕ → Prop} {entry : ℕ} (hentry : C entry)
    (hclosed : ∀ a, C a → ∀ b ∈ h.neighborsAt a layer, C b) :
    C (h.greedy score query entry layer) := by
  have hloop : ∀ rounds current, C current → C (h.greedyLoop score query layer rounds current) := by
    intro rounds
    induction rounds with
    | zero => exact fun _ hcur => hcur
    | succ rounds ih =>
      intro current hcur
      rw [greedyLoop]
      split_ifs with hchg
      · exact ih _ (hclosed current hcur _
          ((greedyRound_spec h score query layer current).1 hchg).1)
      · exact hcur
  exact hloop _ _ hentry

/-- The descent through the layers above `floor` ends in a set that has the neighbours of its
members, at a node that is in the layers below. -/
lemma descend_mem (hlinked : h.Linked) {C : ℕ → Prop} (hclosed : ∀ a, C a → ∀ layer,
    ∀ b ∈ h.neighborsAt a layer, C b) (floor : ℕ) :
    ∀ layer entry, C entry → layer ≤ (h.node entry).level →
      C (h.descend score query floor layer entry) ∧
        min floor layer ≤ (h.node (h.descend score query floor layer entry)).level := by
  intro layer
  induction layer with
  | zero => exact fun entry hentry _ => ⟨hentry, by rw [Nat.min_zero]; exact Nat.zero_le _⟩
  | succ layer ih =>
    intro entry hentry hlevel
    rw [descend]
    split_ifs with hle
    · exact ⟨hentry, (Nat.min_le_right _ _).trans hlevel⟩
    · obtain ⟨hC, hnext⟩ := @greedy_mem σ _ score h query (layer + 1)
        (fun a => C a ∧ layer + 1 ≤ (h.node a).level) entry ⟨hentry, hlevel⟩
        fun a ha b hb => ⟨hclosed a ha.1 _ b hb, (hlinked a _ b hb).2⟩
      obtain ⟨hC', hlevel'⟩ := ih _ hC (Nat.le_of_succ_le hnext)
      exact ⟨hC', by omega⟩

end Descent

/-! ### The candidates of a layer -/

lemma size_pushHeap {α : Type} (worse : α → α → Bool) (a : Array α) (x : α) :
    (pushHeap worse a x).size = a.size + 1 := by
  simpa using (@perm_pushHeap α worse a x).length_eq

lemma keep_subperm (ef : ℕ) (best : Array (Scored σ)) (scored : Scored σ) :
    (keep ef best scored).toList.Subperm (scored :: best.toList) := by
  have hpush := @perm_pushHeap _ minWorse best scored
  rw [keep]
  split
  · rcases @popHeap_spec _ minWorse (pushHeap minWorse best scored) with
      ⟨hpop, -⟩ | ⟨root, rest, hpop, hperm⟩
    · rw [hpop]
      exact hpush.subperm
    · rw [hpop]
      exact ((sublist_cons_self root rest.toList).subperm.trans
        (hperm.symm.trans hpush).subperm)
  · exact hpush.subperm

lemma keep_ne_nil {ef : ℕ} (hef : 1 ≤ ef) (best : Array (Scored σ)) (scored : Scored σ) :
    (keep ef best scored).toList ≠ [] := by
  have hsize := size_pushHeap minWorse best scored
  rw [keep]
  split_ifs with hlt
  · rcases @popHeap_spec _ minWorse (pushHeap minWorse best scored) with
      ⟨hpop, hnil⟩ | ⟨root, rest, hpop, hperm⟩
    · have hzero : (pushHeap minWorse best scored).size = 0 := by simpa using hnil
      omega
    · rw [hpop]
      have hlength := hperm.length_eq
      simp only [Array.length_toList, length_cons] at hlength
      refine ne_nil_of_length_pos ?_
      change 0 < rest.toList.length
      rw [Array.length_toList]
      omega
  · refine ne_nil_of_length_pos ?_
    rw [Array.length_toList]
    omega

/-- What holds of a walk in a set `C` of nodes. -/
structure Walk.Sound (score : FloatVector → FloatVector → σ) (h : Index) (t : Task) (C : ℕ → Prop)
    (w : Walk σ) : Prop where
  visited : ∀ o ∈ w.visited, C o
  nodup : w.visited.Nodup
  frontier : ∀ s ∈ w.frontier.toList, s.ordinal ∈ w.visited
  best : ∀ s ∈ w.best.toList, s.ordinal ∈ w.visited ∧ t.accept s.ordinal = true ∧
    s.score = h.scoreAt score t.query s.ordinal
  distinct : (w.best.toList.map Scored.ordinal).Nodup

/-- As long as nothing has been accepted, a node that was visited is yet to be expanded, or its
neighbours have been visited; the node `current` is being expanded. -/
def Walk.Covers (h : Index) (t : Task) (current : Option ℕ) (w : Walk σ) : Prop :=
  w.best.toList = [] → ∀ o ∈ w.visited, t.accept o = false ∧
    (current = some o ∨ o ∈ w.frontier.toList.map Scored.ordinal ∨
      ∀ n ∈ h.neighborsAt o t.layer, t.excluded = some n ∨ n ∈ w.visited)

section Walks

variable {t : Task} {C : ℕ → Prop} {w : Walk σ}

/-- A neighbour that is visited, in the three cases. -/
lemma visit_cases (score : FloatVector → FloatVector → σ) (h : Index) (t : Task) (w : Walk σ)
    (n : ℕ) :
    ((t.excluded = some n ∨ n ∈ w.visited) ∧ h.visit score t w n = w) ∨
    (n ∉ w.visited ∧ h.visit score t w n =
      { visited := n :: w.visited
        frontier := pushHeap maxWorse w.frontier ⟨n, h.scoreAt score t.query n⟩
        best := if t.accept n then keep t.ef w.best ⟨n, h.scoreAt score t.query n⟩
          else w.best }) ∨
    (n ∉ w.visited ∧ t.ef ≤ w.best.size ∧
      h.visit score t w n = { w with visited := n :: w.visited }) := by
  rw [visit]
  split
  · rename_i hskip
    exact .inl ⟨hskip, rfl⟩
  · rename_i hskip
    rw [not_or] at hskip
    dsimp only
    split
    · exact .inr (.inl ⟨hskip.2, rfl⟩)
    · rename_i hroom
      rw [not_or, not_lt] at hroom
      exact .inr (.inr ⟨hskip.2, hroom.1, rfl⟩)

lemma Walk.Sound.visit (hw : w.Sound score h t C) {n : ℕ} (hn : t.excluded = some n ∨ C n) :
    (h.visit score t w n).Sound score h t C := by
  by_cases hexcl : t.excluded = some n
  · rw [Index.visit, if_pos (.inl hexcl)]
    exact hw
  have hC : C n := hn.resolve_left hexcl
  rcases visit_cases score h t w n with ⟨-, heq⟩ | ⟨hnew, heq⟩ | ⟨hnew, -, heq⟩ <;> rw [heq]
  · exact hw
  · refine ⟨forall_mem_cons.2 ⟨hC, hw.visited⟩, nodup_cons.2 ⟨hnew, hw.nodup⟩,
      fun s hs => ?_, fun s hs => ?_, ?_⟩
    · rcases mem_cons.1 ((perm_pushHeap _ _).mem_iff.1 hs) with rfl | hs
      · exact mem_cons_self
      · exact mem_cons_of_mem _ (hw.frontier s hs)
    · dsimp only at hs
      split_ifs at hs with haccept
      · rcases mem_cons.1 ((keep_subperm _ _ _).subset hs) with rfl | hs
        · exact ⟨mem_cons_self, haccept, rfl⟩
        · obtain ⟨hmem, hrest⟩ := hw.best s hs
          exact ⟨mem_cons_of_mem _ hmem, hrest⟩
      · obtain ⟨hmem, hrest⟩ := hw.best s hs
        exact ⟨mem_cons_of_mem _ hmem, hrest⟩
    · dsimp only
      split
      · refine nodup_of_subperm (subperm_map _ (keep_subperm _ _ _)) ?_
        refine nodup_cons.2 ⟨fun hmem => ?_, hw.distinct⟩
        obtain ⟨s, hs, heq⟩ := mem_map.1 hmem
        have heq : s.ordinal = n := heq
        exact hnew (heq ▸ (hw.best s hs).1)
      · exact hw.distinct
  · exact ⟨forall_mem_cons.2 ⟨hC, hw.visited⟩, nodup_cons.2 ⟨hnew, hw.nodup⟩,
      fun s hs => mem_cons_of_mem _ (hw.frontier s hs),
      fun s hs => ⟨mem_cons_of_mem _ (hw.best s hs).1, (hw.best s hs).2⟩, hw.distinct⟩

lemma visited_visit (n : ℕ) : w.visited ⊆ (h.visit score t w n).visited := by
  rcases visit_cases score h t w n with ⟨-, heq⟩ | ⟨-, heq⟩ | ⟨-, -, heq⟩ <;> rw [heq]
  · exact List.Subset.refl _
  · exact subset_cons_self _ _
  · exact subset_cons_self _ _

lemma mem_visited_visit (n : ℕ) : t.excluded = some n ∨ n ∈ (h.visit score t w n).visited := by
  rcases visit_cases score h t w n with ⟨hskip, heq⟩ | ⟨-, heq⟩ | ⟨-, -, heq⟩ <;> rw [heq]
  · exact hskip
  · exact .inr mem_cons_self
  · exact .inr mem_cons_self

lemma Walk.Covers.visit {current : Option ℕ} (hef : 1 ≤ t.ef) (hw : w.Covers h t current) (n : ℕ) :
    (h.visit score t w n).Covers h t current := by
  have hmono := @visited_visit σ _ score h t w n
  rcases visit_cases score h t w n with ⟨-, heq⟩ | ⟨hnew, heq⟩ | ⟨-, hfull, heq⟩ <;>
    rw [heq] at hmono ⊢
  · exact hw
  · intro hnil o ho
    dsimp only at hnil
    split_ifs at hnil with haccept
    · exact absurd hnil (keep_ne_nil hef _ _)
    · have hpush : ∀ o', o' = n ∨ o' ∈ w.frontier.toList.map Scored.ordinal →
          o' ∈ (pushHeap maxWorse w.frontier ⟨n, h.scoreAt score t.query n⟩).toList.map
            Scored.ordinal := by
        intro o' ho'
        rw [((perm_pushHeap _ _).map Scored.ordinal).mem_iff, map_cons, mem_cons]
        exact ho'
      rcases mem_cons.1 ho with rfl | ho
      · exact ⟨eq_false_of_ne_true haccept, .inr (.inl (hpush _ (.inl rfl)))⟩
      · obtain ⟨href, hcov⟩ := hw hnil o ho
        refine ⟨href, hcov.imp_right (Or.imp (fun hmem => hpush o (.inr hmem)) ?_)⟩
        exact fun hall n' hn' => (hall n' hn').imp_right fun hmem => hmono hmem
  · -- with the answer full, something has been accepted
    intro hnil
    have hsize : w.best.size = 0 := by simpa using hnil
    omega

lemma visit_size (score : FloatVector → FloatVector → σ) (h : Index) (t : Task) (w : Walk σ)
    (n : ℕ) : (h.visit score t w n).frontier.size + w.visited.length ≤
      w.frontier.size + (h.visit score t w n).visited.length := by
  rcases visit_cases score h t w n with ⟨-, heq⟩ | ⟨-, heq⟩ | ⟨-, -, heq⟩ <;> rw [heq]
  · dsimp only
    rw [size_pushHeap, length_cons]
    omega
  · exact Nat.add_le_add_left (Nat.le_succ _) _

lemma foldl_visit {current : ℕ} (hef : 1 ≤ t.ef) (l : List ℕ) {w : Walk σ}
    (hl : ∀ n ∈ l, t.excluded = some n ∨ C n) (hsound : w.Sound score h t C)
    (hcovers : w.Covers h t (some current)) : (l.foldl (h.visit score t) w).Sound score h t C ∧
      (l.foldl (h.visit score t) w).Covers h t (some current) ∧
      w.visited ⊆ (l.foldl (h.visit score t) w).visited ∧
      (∀ n ∈ l, t.excluded = some n ∨ n ∈ (l.foldl (h.visit score t) w).visited) ∧
      (l.foldl (h.visit score t) w).frontier.size + w.visited.length ≤
        w.frontier.size + (l.foldl (h.visit score t) w).visited.length := by
  induction l generalizing w with
  | nil =>
    exact ⟨hsound, hcovers, List.Subset.refl _, nofun, le_rfl⟩
  | cons n l ih =>
    obtain ⟨hn, hl⟩ := forall_mem_cons.1 hl
    obtain ⟨hsound', hcovers', hmono, hall, hsize⟩ := ih hl (hsound.visit hn) (hcovers.visit hef n)
    refine ⟨hsound', hcovers', List.Subset.trans (visited_visit n) hmono, forall_mem_cons.2
      ⟨(mem_visited_visit n).imp_right fun hmem => hmono hmem, hall⟩, ?_⟩
    have hstep := visit_size score h t w n
    rw [foldl_cons]
    omega

/-- What the loop over the frontier ends with. -/
structure Walk.Ended (score : FloatVector → FloatVector → σ) (h : Index) (t : Task) (C : ℕ → Prop)
    (start w : Walk σ) : Prop where
  sound : w.Sound score h t C
  covers : w.Covers h t none
  visited : start.visited ⊆ w.visited
  /-- Nothing is left to be expanded, or the answer is full. -/
  done : w.frontier.toList = [] ∨ t.ef ≤ w.best.size

lemma walkLoop_ended (hef : 1 ≤ t.ef) (hrange : ∀ o, C o → o < h.nodes.length)
    (hclosed : ∀ a, C a → ∀ b ∈ h.neighborsAt a t.layer, t.excluded = some b ∨ C b) (rounds : ℕ) :
    ∀ {w : Walk σ}, w.Sound score h t C → w.Covers h t none →
      w.frontier.size + h.nodes.length ≤ rounds + w.visited.length →
      Walk.Ended score h t C w (h.walkLoop score t rounds w) := by
  induction rounds with
  | zero =>
    intro w hsound hcovers hsize
    refine ⟨hsound, hcovers, List.Subset.refl _, .inl ?_⟩
    have hle : w.visited.length ≤ h.nodes.length := by
      have := (List.Nodup.subperm hsound.nodup fun o ho =>
        mem_range.2 (hrange o (hsound.visited o ho))).length_le
      rwa [length_range] at this
    refine eq_nil_of_length_eq_zero ?_
    rw [walkLoop, Array.length_toList]
    omega
  | succ rounds ih =>
    intro w hsound hcovers hsize
    rw [walkLoop]
    rcases @popHeap_spec _ maxWorse w.frontier with ⟨hpop, hnil⟩ | ⟨s, frontier, hpop, hperm⟩
    · rw [hpop]
      exact ⟨hsound, hcovers, List.Subset.refl _, .inl hnil⟩
    rw [hpop]
    dsimp only
    have hpopped : Walk.Sound score h t C { w with frontier := frontier } :=
      { hsound with
        frontier := fun s' hs' => hsound.frontier s' (hperm.mem_iff.2 (mem_cons_of_mem _ hs')) }
    have hcur : s.ordinal ∈ w.visited := hsound.frontier s (hperm.mem_iff.2 mem_cons_self)
    split_ifs with hbreak
    · refine ⟨hpopped, fun hnil => ?_, List.Subset.refl _, .inr hbreak.1⟩
      have hsize : w.best.size = 0 := by simpa using hnil
      omega
    · have hexpanding : Walk.Covers h t (some s.ordinal) { w with frontier := frontier } := by
        intro hnil o ho
        obtain ⟨href, hcov⟩ := hcovers hnil o ho
        refine ⟨href, ?_⟩
        rcases hcov with hcur | hmem | hall
        · cases hcur
        · rw [(hperm.map Scored.ordinal).mem_iff, map_cons, mem_cons] at hmem
          rcases hmem with rfl | hmem
          · exact .inl rfl
          · exact .inr (.inl hmem)
        · exact .inr (.inr hall)
      obtain ⟨hsound', hcovers', hmono, hall, hsize'⟩ := foldl_visit hef
        (h.neighborsAt s.ordinal t.layer)
        (hclosed s.ordinal (hsound.visited _ hcur)) hpopped hexpanding
      have hfrontier := hperm.length_eq
      simp only [Array.length_toList, length_cons] at hfrontier
      have hexpanded : Walk.Covers h t none ((h.neighborsAt s.ordinal t.layer).foldl
          (h.visit score t) { w with frontier := frontier }) := by
        -- the node that was expanded has its neighbours visited now
        intro hnil o ho
        obtain ⟨href, hcov⟩ := hcovers' hnil o ho
        refine ⟨href, .inr ?_⟩
        rcases hcov with hcur | hcov
        · rw [← Option.some.inj hcur]
          exact .inr hall
        · exact hcov
      obtain ⟨hsound'', hcovers'', hmono', hdone⟩ := ih hsound' hexpanded (by
        dsimp only at hsize'
        omega)
      exact ⟨hsound'', hcovers'', List.Subset.trans hmono hmono', hdone⟩

end Walks

/-! ### What a layer search returns -/

section Layers

variable {t : Task} {C : ℕ → Prop} {entry : ℕ}

lemma notBehind_iff (a b : Scored σ) : NotWorse h.behind a b ↔ b.score < a.score ∨
    a.score = b.score ∧ (h.node a.ordinal).id ≤ (h.node b.ordinal).id := by
  rw [NotWorse, behind, Bool.or_eq_false_iff, Bool.and_eq_false_iff, ← not_lt, ← not_lt_and_iff,
    eq_comm (a := a.score)]
  simp only [decide_eq_false_iff_not]

instance : Std.Total (NotWorse (h.behind : Scored σ → _)) :=
  total_of_score (fun a b => Nat.le_total (h.node a.ordinal).id (h.node b.ordinal).id)
    notBehind_iff

instance : IsTrans (Scored σ) (NotWorse h.behind) :=
  isTrans_of_score (fun (a b c : Scored σ) (hab : (h.node a.ordinal).id ≤ (h.node b.ordinal).id)
    (hbc : (h.node b.ordinal).id ≤ (h.node c.ordinal).id) => hab.trans hbc) notBehind_iff

lemma perm_sortScored (h : Index) (l : List (Scored σ)) : (h.sortScored l).Perm l :=
  perm_insertionSort _ l

lemma startWalk_eq (hef : 1 ≤ t.ef) :
    h.startWalk score t entry = h.visit score t ⟨[], #[], #[]⟩ entry := by
  have hkeep : ∀ scored : Scored σ, keep t.ef #[] scored = pushHeap minWorse #[] scored := by
    intro scored
    rw [keep, if_neg (by rw [size_pushHeap]; exact Nat.not_lt.2 hef)]
  rw [startWalk, visit]
  by_cases hexcl : t.excluded = some entry
  · rw [if_pos hexcl, if_pos (.inl hexcl)]
  · rw [if_neg hexcl, if_neg (by simp [hexcl])]
    exact (if_pos (Or.inl hef)).symm ▸ by rw [hkeep]

/-- What the search of a layer returns. -/
structure Answer (score : FloatVector → FloatVector → σ) (h : Index) (t : Task) (C : ℕ → Prop)
    (found : List (Scored σ)) : Prop where
  mem : ∀ s ∈ found, C s.ordinal ∧ t.accept s.ordinal = true ∧
    s.score = h.scoreAt score t.query s.ordinal
  distinct : (found.map Scored.ordinal).Nodup
  sorted : found.Pairwise (NotWorse h.behind)

section

variable (hef : 1 ≤ t.ef) (hentry : t.excluded = some entry ∨ C entry)
  (hrange : ∀ o, C o → o < h.nodes.length)
  (hclosed : ∀ a, C a → ∀ b ∈ h.neighborsAt a t.layer, t.excluded = some b ∨ C b)

include hef hentry hrange hclosed

/-- The search of a layer ends with nothing left to expand, or with a full answer. -/
theorem searchLayer_done :
    Walk.Ended score h t C (h.startWalk score t entry)
      (h.walkLoop score t h.nodes.length (h.startWalk score t entry)) := by
  have hempty : Walk.Sound score h t C ⟨[], #[], #[]⟩ :=
    ⟨by simp, nodup_nil, by simp, by simp, nodup_nil⟩
  have hcovers : Walk.Covers h t none (⟨[], #[], #[]⟩ : Walk σ) := nofun
  have hsize := visit_size score h t ⟨[], #[], #[]⟩ entry
  rw [startWalk_eq hef]
  refine walkLoop_ended hef hrange hclosed _ (hempty.visit hentry) (hcovers.visit hef entry) ?_
  simpa [Nat.add_comm] using Nat.add_le_add_right hsize h.nodes.length

lemma searchLayer_answer : Answer score h t C (h.searchLayer score t entry) := by
  have hsound := (@searchLayer_done σ _ score h t C entry hef hentry hrange hclosed).sound
  have hperm := perm_sortScored h
    (h.walkLoop score t h.nodes.length (h.startWalk score t entry)).best.toList
  refine ⟨fun s hs => ?_, ?_, pairwise_insertionSort _ _⟩
  · obtain ⟨hvisited, hrest⟩ := hsound.best s (hperm.mem_iff.1 hs)
    exact ⟨hsound.visited _ hvisited, hrest⟩
  · exact (hperm.map _).nodup_iff.2 hsound.distinct

end

end Layers

end GideonDB.Hnsw.Index
