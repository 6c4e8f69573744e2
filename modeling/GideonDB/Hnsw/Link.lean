/-
What an insert does to the HNSW graph.

Linking a new node changes the neighbour lists of that node and of the nodes it is linked with,
which are not marked as deleted.  So the lists of nodes that are marked never change, and all that
can be reached after an insert is what could be reached before and the new node (`Inserted`).
-/
import GideonDB.Hnsw.Search

namespace GideonDB.Hnsw.Index

open GideonDB.Core List

variable {σ : Type} [LinearOrder σ] {score : FloatVector → FloatVector → σ} {cfg : Config}

/-- A node that is not marked. -/
def IsLive (h : Index) (ordinal : ℕ) : Prop :=
  ordinal < h.nodes.length ∧ (h.node ordinal).deleted = false

/-! ### Selected neighbours -/

lemma mem_selectNeighbors {h : Index} {candidates : List (Scored σ)} {limit n : ℕ}
    (hn : n ∈ h.selectNeighbors score candidates limit) :
    (∃ s ∈ candidates, s.ordinal = n) ∧ (h.node n).deleted = false := by
  have hfold : ∀ o ∈ (candidates.foldl (h.selectStep score limit) ([], [])).1 ++
      (candidates.foldl (h.selectStep score limit) ([], [])).2,
      (∃ s ∈ candidates, s.ordinal = o) ∧ (h.node o).deleted = false := by
    refine foldlRecOn candidates (h.selectStep score limit) (b := ([], [])) (motive := fun acc =>
      ∀ o ∈ acc.1 ++ acc.2, (∃ s ∈ candidates, s.ordinal = o) ∧ (h.node o).deleted = false)
      (by simp) fun acc hacc s hs o ho => ?_
    rw [selectStep] at ho
    split at ho
    · exact hacc o ho
    · rename_i hkeep
      rw [not_or] at hkeep
      have ho : o ∈ acc.1 ++ acc.2 ∨ o = s.ordinal := by
        split at ho <;> simp only [mem_append, mem_singleton] at ho ⊢ <;> tauto
      rcases ho with ho | rfl
      · exact hacc o ho
      · exact ⟨⟨s, hs, rfl⟩, eq_false_of_ne_true hkeep.2⟩
  refine hfold n ?_
  rw [selectNeighbors] at hn
  rcases mem_append.1 hn with hn | hn
  · exact mem_append_left _ hn
  · exact mem_append_right _ (mem_of_mem_take hn)

lemma mem_pruned {h : Index} {ordinal layer n : ℕ} {l : List ℕ}
    (hn : n ∈ h.pruned score cfg ordinal layer l) : n ∈ l := by
  rw [pruned] at hn
  split at hn
  · exact hn
  · obtain ⟨⟨s, hs, rfl⟩, -⟩ := mem_selectNeighbors hn
    obtain ⟨n', hn', rfl⟩ := mem_map.1 ((perm_sortScored h _).mem_iff.1 hs)
    exact hn'

/-! ### Rewiring -/

section Nodes

variable {h : Index} {n layer : ℕ} {l : List ℕ}

lemma getD_modify {α : Type} (l : List α) (n : ℕ) (f : α → α) (o : ℕ) (d : α) :
    (l.modify n f).getD o d = if o = n ∧ n < l.length then f (l.getD o d) else l.getD o d := by
  rw [getD_eq_getElem?_getD, List.getElem?_modify, getD_eq_getElem?_getD]
  by_cases hlt : o < l.length
  · rw [List.getElem?_eq_getElem hlt]
    by_cases heq : n = o
    · subst heq
      simp [hlt]
    · simp [heq, Ne.symm heq]
  · have hnot : ¬ (o = n ∧ n < l.length) := fun hand => hlt (hand.1 ▸ hand.2)
    rw [List.getElem?_eq_none (not_lt.1 hlt), if_neg hnot]
    rfl

lemma node_setNeighbors (h : Index) (n layer : ℕ) (l : List ℕ) (o : ℕ) :
    (h.setNeighbors n layer l).node o = if o = n ∧ n < h.nodes.length then
      { h.node o with neighbors := Function.update (h.node o).neighbors layer l } else h.node o :=
  getD_modify ..

@[simp] lemma length_setNeighbors : (h.setNeighbors n layer l).nodes.length = h.nodes.length :=
  length_modify ..

end Nodes

/-- The nodes are the same but for their neighbours, and so is all else. -/
structure SameNodes (h h' : Index) : Prop where
  length : h'.nodes.length = h.nodes.length
  node : ∀ o, h'.node o = { h.node o with neighbors := (h'.node o).neighbors }
  ordinals : h'.ordinals = h.ordinals
  entry : h'.entry = h.entry
  maxLevel : h'.maxLevel = h.maxLevel
  live : h'.live = h.live

namespace SameNodes

variable {h h' h'' : Index}

lemma refl (h : Index) : SameNodes h h := ⟨rfl, fun _ => rfl, rfl, rfl, rfl, rfl⟩

section

variable (hsame : SameNodes h h')

include hsame

lemma trans (hsame' : SameNodes h' h'') : SameNodes h h'' where
  length := hsame'.length.trans hsame.length
  node o := by
    rw [hsame'.node o, hsame.node o]
  ordinals := hsame'.ordinals.trans hsame.ordinals
  entry := hsame'.entry.trans hsame.entry
  maxLevel := hsame'.maxLevel.trans hsame.maxLevel
  live := hsame'.live.trans hsame.live

lemma level (o : ℕ) : (h'.node o).level = (h.node o).level := by
  rw [hsame.node o]

lemma deleted (o : ℕ) : (h'.node o).deleted = (h.node o).deleted := by
  rw [hsame.node o]

lemma isLive (o : ℕ) : h'.IsLive o ↔ h.IsLive o := by
  rw [IsLive, IsLive, hsame.length, hsame.deleted]

end

end SameNodes

/-- What linking the node `x` to nodes of a set does to the graph. -/
structure Rewired (x : ℕ) (S : ℕ → Prop) (h h' : Index) : Prop where
  same : SameNodes h h'
  linked : h.Linked → h'.Linked
  /-- The lists of other nodes that are marked as deleted are the same. -/
  dead : ∀ o, o ≠ x → (h.node o).deleted = true → ∀ layer,
    h'.neighborsAt o layer = h.neighborsAt o layer
  links : ∀ o layer, ∀ n ∈ h'.neighborsAt o layer,
    n ∈ h.neighborsAt o layer ∨ (o ≠ x ∧ n = x) ∨ (o = x ∧ S n ∧ h.IsLive n)

namespace Rewired

variable {x : ℕ} {S : ℕ → Prop} {h h' h'' : Index}

lemma refl (h : Index) : Rewired x S h h :=
  ⟨.refl h, id, fun _ _ _ _ => rfl, fun _ _ _ hn => .inl hn⟩

lemma trans (hr : Rewired x S h h') (hr' : Rewired x S h' h'') : Rewired x S h h'' where
  same := hr.same.trans hr'.same
  linked hlinked := hr'.linked (hr.linked hlinked)
  dead o ho hdel layer := by
    rw [hr'.dead o ho (by rwa [hr.same.deleted]), hr.dead o ho hdel]
  links o layer n hn := by
    rcases hr'.links o layer n hn with hn | hnew | ⟨ho, hS, hlive⟩
    · exact hr.links o layer n hn
    · exact .inr (.inl hnew)
    · exact .inr (.inr ⟨ho, hS, (hr.same.isLive n).1 hlive⟩)

/-- More neighbours for a node: the new node gets nodes of the set that are not marked, and a node
that is not marked gets the new node. -/
lemma addNeighbors {target layer : ℕ} {added : List ℕ}
    (htgt : target = x ∨ (h.node target).deleted = false)
    (hadded : ∀ n ∈ added, n < h.nodes.length ∧ layer ≤ (h.node n).level ∧
      ((target ≠ x ∧ n = x) ∨ (target = x ∧ S n ∧ (h.node n).deleted = false))) :
    Rewired x S h (h.addNeighbors score cfg target layer added) := by
  have hnode := node_setNeighbors h target layer
    (h.pruned score cfg target layer ((h.node target).neighbors layer ++ added))
  have hsame : SameNodes h (h.addNeighbors score cfg target layer added) := by
    refine ⟨length_setNeighbors, fun o => ?_, rfl, rfl, rfl, rfl⟩
    rw [Index.addNeighbors, hnode]
    split <;> rfl
  have hother : ∀ o, o ≠ target → ∀ layer',
      (h.addNeighbors score cfg target layer added).neighborsAt o layer' =
        h.neighborsAt o layer' := by
    intro o ho layer'
    have hnot : ¬ (o = target ∧ target < h.nodes.length) := fun hand => ho hand.1
    rw [neighborsAt, neighborsAt, Index.addNeighbors, hnode, if_neg hnot]
  have hmem : ∀ layer', ∀ n ∈
      (h.addNeighbors score cfg target layer added).neighborsAt target layer',
      n ∈ h.neighborsAt target layer' ∨ (layer' = layer ∧ n ∈ added) := by
    intro layer' n hn
    rw [neighborsAt, hsame.level] at hn
    rw [neighborsAt]
    split_ifs at hn with hlevel
    · cases hn
    rw [if_neg hlevel]
    rw [Index.addNeighbors, hnode] at hn
    split at hn
    · by_cases hlayer : layer' = layer
      · subst hlayer
        dsimp only at hn
        rw [Function.update_self] at hn
        exact (mem_append.1 (mem_pruned hn)).imp_right fun hn => ⟨rfl, hn⟩
      · dsimp only at hn
        rw [Function.update_of_ne hlayer] at hn
        exact .inl hn
    · exact .inl hn
  refine ⟨hsame, fun hlinked o layer' n hn => ?_, fun o ho hdel layer' => ?_,
    fun o layer' n hn => ?_⟩
  · rw [hsame.length, hsame.level]
    by_cases ho : o = target
    · subst ho
      rcases hmem layer' n hn with hold | ⟨rfl, hnew⟩
      · exact hlinked o layer' n hold
      · exact ⟨(hadded n hnew).1, (hadded n hnew).2.1⟩
    · rw [hother o ho] at hn
      exact hlinked o layer' n hn
  · refine hother o (fun heq => ?_) layer'
    subst heq
    rw [htgt.resolve_left ho] at hdel
    cases hdel
  · by_cases ho : o = target
    · subst ho
      refine (hmem layer' n hn).imp_right fun hn => ?_
      obtain ⟨hlt, -, hcases⟩ := hadded n hn.2
      exact hcases.imp_right fun ⟨heq, hS, hlive⟩ => ⟨heq, hS, hlt, hlive⟩
    · rw [hother o ho] at hn
      exact .inl hn

end Rewired

/-- A set of nodes without `x` that has the neighbours of its members other than `x`. -/
structure ClosedBut (x : ℕ) (S : ℕ → Prop) (h : Index) : Prop where
  range : ∀ a, S a → a < h.nodes.length ∧ a ≠ x
  links : ∀ a, S a → ∀ layer, ∀ b ∈ h.neighborsAt a layer, b = x ∨ S b

lemma ClosedBut.rewired {x : ℕ} {S : ℕ → Prop} {h h' : Index} (hclosed : ClosedBut x S h)
    (hr : Rewired x S h h') : ClosedBut x S h' where
  range a ha := by
    rw [hr.same.length]
    exact hclosed.range a ha
  links a ha layer b hb := by
    rcases hr.links a layer b hb with hb | ⟨-, rfl⟩ | ⟨heq, -⟩
    · exact hclosed.links a ha layer b hb
    · exact .inl rfl
    · exact absurd heq (hclosed.range a ha).2

section Connect

variable {x : ℕ} {S : ℕ → Prop} {h : Index}

lemma connectLayer_rewired (hlinked : h.Linked) (hx : h.IsLive x) (hclosed : ClosedBut x S h)
    {layer entry : ℕ} (hlayer : layer ≤ (h.node x).level) (hentry : S entry)
    (hlevel : layer ≤ (h.node entry).level) :
    Rewired x S h (h.connectLayer score cfg x layer entry).1 ∧
      S (h.connectLayer score cfg x layer entry).2 ∧
      layer ≤ (h.node (h.connectLayer score cfg x layer entry).2).level := by
  let t : Task := ⟨(h.node x).vector, cfg.efConstruction, layer, some x, fun _ => true⟩
  have hef : 1 ≤ t.ef := by
    have := cfg.two_le_m
    have := cfg.m_le_efConstruction
    change 1 ≤ cfg.efConstruction
    omega
  have hans : Answer score h t (fun o => S o ∧ layer ≤ (h.node o).level)
      (h.searchLayer score t entry) := by
    refine searchLayer_answer hef (.inr ⟨hentry, hlevel⟩) (fun o ho => (hclosed.range o ho.1).1)
      fun a ha b hb => ?_
    rcases hclosed.links a ha.1 layer b hb with rfl | hS
    · exact .inl rfl
    · exact .inr ⟨hS, (hlinked a layer b hb).2⟩
  have hsel : ∀ n ∈ h.selectNeighbors score (h.searchLayer score t entry) cfg.m,
      S n ∧ layer ≤ (h.node n).level ∧ (h.node n).deleted = false := by
    intro n hn
    obtain ⟨⟨s, hs, rfl⟩, hlive⟩ := mem_selectNeighbors hn
    obtain ⟨⟨hS, hle⟩, -⟩ := hans.mem s hs
    exact ⟨hS, hle, hlive⟩
  have hown : Rewired x S h (h.addNeighbors score cfg x layer
      (h.selectNeighbors score (h.searchLayer score t entry) cfg.m)) := by
    refine .addNeighbors (.inl rfl) fun n hn => ?_
    obtain ⟨hS, hle, hlive⟩ := hsel n hn
    exact ⟨(hclosed.range n hS).1, hle, .inr ⟨rfl, hS, hlive⟩⟩
  refine ⟨foldlRecOn _ _ hown fun h' hr n hn => hr.trans ?_, ?_⟩
  · obtain ⟨hS, -, hlive⟩ := hsel n hn
    refine .addNeighbors (.inr (by rw [hr.same.deleted, hlive])) fun n' hn' => ?_
    obtain rfl := mem_singleton.1 hn'
    rw [hr.same.length, hr.same.level]
    exact ⟨hx.1, hlayer, .inl ⟨(hclosed.range n hS).2, rfl⟩⟩
  change S (((h.searchLayer score t entry).head?.map Scored.ordinal).getD entry) ∧
    layer ≤ (h.node (((h.searchLayer score t entry).head?.map Scored.ordinal).getD entry)).level
  cases hhead : (h.searchLayer score t entry).head? with
  | none => exact ⟨hentry, hlevel⟩
  | some s => exact (hans.mem s (mem_of_mem_head? hhead)).1

lemma connectLayers_rewired {layer : ℕ} :
    ∀ {h : Index} {entry : ℕ}, h.Linked → h.IsLive x → ClosedBut x S h →
      layer ≤ (h.node x).level → S entry → layer ≤ (h.node entry).level →
      Rewired x S h (h.connectLayers score cfg x layer entry) := by
  induction layer with
  | zero =>
    intro h entry hlinked hx hclosed hlayer hentry hlevel
    exact (connectLayer_rewired hlinked hx hclosed hlayer hentry hlevel).1
  | succ layer ih =>
    intro h entry hlinked hx hclosed hlayer hentry hlevel
    obtain ⟨hr, hnext, hnextLevel⟩ := @connectLayer_rewired σ _ score cfg x S h hlinked hx hclosed
      (layer + 1) entry hlayer hentry hlevel
    refine hr.trans (ih (hr.linked hlinked) ((hr.same.isLive x).2 hx) (hclosed.rewired hr) ?_ hnext ?_)
    · rw [hr.same.level]
      exact Nat.le_of_succ_le hlayer
    · rw [hr.same.level]
      exact Nat.le_of_succ_le hnextLevel

end Connect

/-! ### Inserts -/

/-- A link in some layer. -/
def Link (h : Index) (a b : ℕ) : Prop := ∃ layer, b ∈ h.neighborsAt a layer

/-- A node that can be reached from the entry. -/
def Visible (h : Index) (o : ℕ) : Prop :=
  ∃ entry, h.entry = some entry ∧ Relation.ReflTransGen h.Link entry o

/-- The index keeps the ordinals of the nodes that are not marked, their number, and a node of the
highest level as its entry. -/
structure WellFormed (h : Index) : Prop where
  linked : h.Linked
  ordinals : ∀ id o, h.ordinals.get id = some o ↔ h.IsLive o ∧ (h.node o).id = id
  live : h.live = (List.range h.nodes.length).countP fun o => !(h.node o).deleted
  entry : h.nodes ≠ [] →
    ∃ entry < h.nodes.length, h.entry = some entry ∧ (h.node entry).level = h.maxLevel
  empty : h.nodes = [] → h.entry = none

/-- What an insert leaves. -/
structure Inserted (cfg : Config) (h : Index) (id : ℕ) (vector : FloatVector) (h' : Index) :
    Prop where
  length : h'.nodes.length = h.nodes.length + 1
  old : ∀ o < h.nodes.length, h'.node o = { h.node o with neighbors := (h'.node o).neighbors }
  new : h'.node h.nodes.length =
    ⟨id, cfg.level id, false, vector, (h'.node h.nodes.length).neighbors⟩
  linked : h'.Linked
  /-- The lists of nodes that are marked as deleted are the same. -/
  dead : ∀ o < h.nodes.length, (h.node o).deleted = true → ∀ layer,
    h'.neighborsAt o layer = h.neighborsAt o layer
  others : ∀ o < h.nodes.length, ∀ layer, ∀ n ∈ h'.neighborsAt o layer,
    n ∈ h.neighborsAt o layer ∨ n = h.nodes.length
  own : ∀ layer, ∀ n ∈ h'.neighborsAt h.nodes.length layer, h.Visible n ∧ h.IsLive n
  ordinals : h'.ordinals = h.ordinals.set id h.nodes.length
  live : h'.live = h.live + 1
  entry : (h'.entry = some h.nodes.length ∧ h'.maxLevel = cfg.level id ∧
      (h.nodes = [] ∨ h.maxLevel < cfg.level id)) ∨
    (h'.entry = h.entry ∧ h'.maxLevel = h.maxLevel ∧ h.nodes ≠ [] ∧ cfg.level id ≤ h.maxLevel)

section Insert

variable {h : Index} {id : ℕ} {vector : FloatVector}

lemma node_appendNode_of_lt {o : ℕ} (ho : o < h.nodes.length) :
    (h.appendNode cfg id vector).node o = h.node o := by
  rw [node, node, appendNode, getD_eq_getElem?_getD, getD_eq_getElem?_getD,
    List.getElem?_append_left ho]

lemma node_appendNode_self : (h.appendNode cfg id vector).node h.nodes.length =
    ⟨id, cfg.level id, false, vector, fun _ => []⟩ := by
  rw [node, appendNode, getD_eq_getElem?_getD, List.getElem?_append_right le_rfl]
  simp

lemma neighborsAt_of_ge {o : ℕ} (ho : h.nodes.length ≤ o) (layer : ℕ) :
    h.neighborsAt o layer = [] := by
  have hnode : h.node o = default := by
    rw [node, getD_eq_getElem?_getD, List.getElem?_eq_none ho]
    rfl
  rw [neighborsAt, hnode]
  split <;> rfl

lemma neighborsAt_appendNode (o layer : ℕ) :
    (h.appendNode cfg id vector).neighborsAt o layer = h.neighborsAt o layer := by
  by_cases ho : o < h.nodes.length
  · rw [neighborsAt, neighborsAt, node_appendNode_of_lt ho]
  · rw [neighborsAt_of_ge (not_lt.1 ho)]
    by_cases heq : o = h.nodes.length
    · rw [neighborsAt, heq, node_appendNode_self]
      split <;> rfl
    · refine neighborsAt_of_ge ?_ layer
      rw [appendNode, length_append, length_singleton]
      omega

lemma WellFormed.visible_lt (hw : h.WellFormed) {o : ℕ} (ho : h.Visible o) : o < h.nodes.length := by
  obtain ⟨entry, hentry, hreach⟩ := ho
  induction hreach with
  | refl =>
    have hne : h.nodes ≠ [] := fun hnil => by
      rw [hw.empty hnil] at hentry
      cases hentry
    obtain ⟨entry', hlt, hentry', -⟩ := hw.entry hne
    rw [hentry] at hentry'
    rwa [Option.some.inj hentry']
  | tail _ hlink _ =>
    obtain ⟨layer, hlink⟩ := hlink
    exact (hw.linked _ layer _ hlink).1

lemma Visible.link {a b layer : ℕ} (ha : h.Visible a) (hb : b ∈ h.neighborsAt a layer) :
    h.Visible b := by
  obtain ⟨entry, hentry, hreach⟩ := ha
  exact ⟨entry, hentry, hreach.tail ⟨layer, hb⟩⟩

/-- `insertLocked`. -/
theorem WellFormed.inserted (hw : h.WellFormed) (score : FloatVector → FloatVector → σ)
    (cfg : Config) (id : ℕ) (vector : FloatVector) :
    Inserted cfg h id vector (h.insert score cfg id vector) := by
  let x := h.nodes.length
  let grown := h.appendNode cfg id vector
  have hlength : grown.nodes.length = h.nodes.length + 1 := by
    change (h.nodes ++ [_]).length = _
    rw [length_append, length_singleton]
  have hold : ∀ o < h.nodes.length, grown.node o = h.node o := fun o => node_appendNode_of_lt
  have hnew : grown.node x = ⟨id, cfg.level id, false, vector, fun _ => []⟩ := node_appendNode_self
  have hlinks : ∀ o layer, grown.neighborsAt o layer = h.neighborsAt o layer :=
    neighborsAt_appendNode
  have hlinked : grown.Linked := by
    intro o layer n hn
    rw [hlinks] at hn
    obtain ⟨hlt, hle⟩ := hw.linked o layer n hn
    rw [hlength, hold n hlt]
    exact ⟨Nat.lt_succ_of_lt hlt, hle⟩
  have hx : grown.IsLive x := ⟨by rw [hlength]; exact Nat.lt_succ_self _, by rw [hnew]⟩
  -- whatever rewires the grown graph gives an inserted one
  have hrewired : ∀ {h' : Index}, Rewired x h.Visible grown h' → ∀ {entry : Option ℕ} {maxLevel : ℕ},
      ((entry = some x ∧ maxLevel = cfg.level id ∧ (h.nodes = [] ∨ h.maxLevel < cfg.level id)) ∨
        (entry = h.entry ∧ maxLevel = h.maxLevel ∧ h.nodes ≠ [] ∧ cfg.level id ≤ h.maxLevel)) →
      Inserted cfg h id vector { h' with entry := entry, maxLevel := maxLevel } := by
    intro h' hr entry maxLevel hentry
    have hlive : ∀ n, h.Visible n → grown.IsLive n → h.IsLive n := fun n hn hlive =>
      ⟨hw.visible_lt hn, by rw [← hold n (hw.visible_lt hn)]; exact hlive.2⟩
    refine ⟨hr.same.length.trans hlength, fun o ho => ?_, ?_, hr.linked hlinked,
      fun o ho hdel layer => ?_, fun o ho layer n hn => ?_, fun layer n hn => ?_,
      hr.same.ordinals, hr.same.live, hentry⟩
    · have hnode := hr.same.node o
      rw [hold o ho] at hnode
      exact hnode
    · have hnode := hr.same.node x
      rw [hnew] at hnode
      exact hnode
    · have hdead := hr.dead o (Nat.ne_of_lt ho) (by rw [hold o ho]; exact hdel) layer
      rw [hlinks] at hdead
      exact hdead
    · rcases hr.links o layer n hn with hn | ⟨-, hn⟩ | ⟨ho', -⟩
      · exact .inl (by rwa [hlinks] at hn)
      · exact .inr hn
      · exact absurd ho' (Nat.ne_of_lt ho)
    · rcases hr.links x layer n hn with hn | ⟨hne, -⟩ | ⟨-, hS, hlive'⟩
      · rw [hlinks, neighborsAt_of_ge le_rfl] at hn
        cases hn
      · exact absurd rfl hne
      · exact ⟨hS, hlive n hS hlive'⟩
  rw [insert]
  cases hentry : h.entry with
  | none =>
    have hnil : h.nodes = [] := by
      by_contra hne
      obtain ⟨entry, -, hsome, -⟩ := hw.entry hne
      rw [hentry] at hsome
      cases hsome
    exact hrewired (.refl grown) (.inl ⟨rfl, rfl, .inl hnil⟩)
  | some entry =>
    have hne : h.nodes ≠ [] := fun hnil => by
      rw [hw.empty hnil] at hentry
      cases hentry
    obtain ⟨entry', hlt, hsome, hlevel⟩ := hw.entry hne
    rw [hentry] at hsome
    cases hsome
    have hvis : h.Visible entry := ⟨entry, hentry, .refl⟩
    have hclosed : ClosedBut x h.Visible grown := by
      refine ⟨fun a ha => ?_, fun a ha layer b hb => .inr ?_⟩
      · have := hw.visible_lt ha
        exact ⟨by omega, Nat.ne_of_lt this⟩
      · rw [hlinks] at hb
        exact ha.link hb
    obtain ⟨hS, hstart⟩ := @descend_mem σ _ score grown vector hlinked h.Visible
      (fun a ha layer b hb => ha.link (by rwa [hlinks] at hb)) (cfg.level id) h.maxLevel entry
      hvis (by rw [hold entry hlt, hlevel])
    have hr : Rewired x h.Visible grown (grown.connect score cfg x entry h.maxLevel) := by
      rw [connect, hnew]
      exact connectLayers_rewired hlinked hx hclosed (by rw [hnew]; exact Nat.min_le_left _ _) hS
        hstart
    dsimp only
    split_ifs with hraise
    · exact hrewired hr (.inl ⟨rfl, rfl, .inr hraise⟩)
    · exact @hrewired _ hr _ _ (.inr ⟨hr.same.entry, hr.same.maxLevel, hne, not_lt.1 hraise⟩)

end Insert

end GideonDB.Hnsw.Index
