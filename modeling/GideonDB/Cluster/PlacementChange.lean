/-
Placements before and after a change of one node.

A node that joins, or whose capacity is raised, moves up in the order of the candidates of a
shard, and all others keep their places in relation to each other.  So the replicas of a shard
change only if the node comes in, and then the last of the others goes.  A node that leaves or
whose capacity is lowered is the same read backwards.  This holds for every hash.
-/
import GideonDB.Cluster.Convergence

namespace GideonDB.Cluster

open Go Catalog List

/-! ### Moving one element of a list up -/

/-- `strong` is `weak` after `x` has come in or has moved up: the others keep their order, at most
one of them is dropped, and the elements are the same unless `x` is new. -/
structure Promotes (x : GoString) (weak strong : List GoString) : Prop where
  order : strong.filter (· ≠ x) <+: weak.filter (· ≠ x)
  dropped : (weak.filter (· ≠ x)).length ≤ (strong.filter (· ≠ x)).length + 1
  changed : ¬ strong.Perm weak → x ∉ weak ∧ x ∈ strong
  leader : strong.headD [] = weak.headD [] ∨ strong.headD [] = x

section Promote

variable {x : GoString} {front mid back : List GoString}

lemma Promotes.refl (x : GoString) (l : List GoString) : Promotes x l l :=
  ⟨prefix_rfl, Nat.le_succ _, fun h => absurd (.refl l) h, .inl rfl⟩

lemma headD_front (a b : List GoString) :
    (front ++ x :: a).headD [] = (front ++ b).headD [] ∨ (front ++ x :: a).headD [] = x := by
  cases front with
  | nil => exact .inr rfl
  | cons y front => exact .inl rfl

lemma promotes_up (front mid back : List GoString) :
    Promotes x (front ++ (mid ++ x :: back)) (front ++ x :: (mid ++ back)) := by
  have hsame : (front ++ x :: (mid ++ back)).filter (· ≠ x) =
      (front ++ (mid ++ x :: back)).filter (· ≠ x) := by simp
  refine ⟨hsame ▸ prefix_rfl, hsame ▸ Nat.le_succ _, fun h => absurd ?_ h, headD_front _ _⟩
  exact perm_middle.symm.append_left front

lemma promotes_in {last : GoString} (hweak : x ∉ front ++ (mid ++ [last])) :
    Promotes x (front ++ (mid ++ [last])) (front ++ x :: mid) := by
  have hfilter : (front ++ (mid ++ [last])).filter (· ≠ x) =
      (front ++ x :: mid).filter (· ≠ x) ++ [last] := by
    have hlast : last ≠ x := fun h => hweak (by simp [h])
    simp [hlast]
  refine ⟨hfilter ▸ prefix_append _ _, ?_, fun _ => ⟨hweak, by simp⟩, headD_front _ _⟩
  rw [hfilter, length_append, length_singleton]

/-- Among the first `n`, where `x` moves up from behind `mid` to its front. -/
lemma promotes_take (back : List GoString) (hmid : x ∉ front ++ mid) (n : ℕ) :
    Promotes x ((front ++ (mid ++ x :: back)).take n) ((front ++ x :: (mid ++ back)).take n) := by
  rw [@take_append _ front, @take_append _ front]
  obtain hn | ⟨k, rfl⟩ := (le_or_gt n front.length).imp id Nat.exists_eq_add_of_lt
  · rw [Nat.sub_eq_zero_of_le hn]
    exact .refl x _
  rw [take_of_length_le (by omega), show front.length + k + 1 - front.length = k + 1 by omega,
    take_succ_cons, take_append, take_append]
  obtain hk | ⟨j, rfl⟩ := (lt_or_ge k mid.length).imp id Nat.exists_eq_add_of_le
  · rw [Nat.sub_eq_zero_of_le hk.le, Nat.sub_eq_zero_of_le hk, take_zero, take_zero, append_nil,
      append_nil, take_succ_eq_append_getElem hk]
    refine promotes_in fun h => hmid ?_
    rw [← take_succ_eq_append_getElem hk] at h
    exact (((take_sublist _ _).append_left front).subset h)
  · rw [take_of_length_le (by omega : mid.length ≤ _), take_of_length_le (by omega : mid.length ≤ _),
      show mid.length + j + 1 - mid.length = j + 1 by omega, Nat.add_sub_cancel_left, take_succ_cons]
    exact promotes_up front mid _

end Promote

/-! ### Candidates -/

section Candidates

variable {sha256 : GoString → GoString} {collection : GoString} {shardID : ℕ}

/-- The score of a node does not fall when its capacity is raised. -/
lemma stringLE_placementNodeScore {node node' : PlacementNode} (hid : node.nodeID = node'.nodeID)
    (hle : node.capacity ≤ node'.capacity) :
    StringLE (placementNodeScore sha256 collection shardID node)
      (placementNodeScore sha256 collection shardID node') := by
  have hbest : ∀ (tickets : List ℕ) (best : GoString), StringLE best (tickets.foldl (fun best ticket =>
      let score := placementTicketScore sha256 collection shardID node'.nodeID ticket
      if above score best then score else best) best) := by
    intro tickets
    induction tickets with
    | nil => exact fun best => leString_refl best
    | cons ticket tickets ih =>
      intro best
      rw [foldl_cons]
      refine leString_trans ?_ (ih _)
      dsimp only
      split_ifs with h
      · exact (leString_total _ _).resolve_right (above_iff.1 h)
      · exact leString_refl best
  obtain ⟨more, hmore⟩ := Nat.exists_eq_add_of_le (Nat.sub_le_sub_right hle 1)
  rw [placementNodeScore, placementNodeScore, hmore, ← range'_append_1, foldl_append, hid]
  exact hbest _ _

/-- What a shard reads of a node. -/
def PlacementNode.shape (node : PlacementNode) : GoString × ℕ := (node.nodeID, node.capacity)

/-- The node `x` joins, or its capacity is raised. -/
inductive Strengthens (x : GoString) (nodes nodes' : List (GoString × ℕ)) : Prop
  | joins {c : ℕ} (h' : nodes'.Perm ((x, c) :: nodes))
  | raised {c c' : ℕ} {others : List (GoString × ℕ)} (hle : c ≤ c')
    (h : nodes.Perm ((x, c) :: others)) (h' : nodes'.Perm ((x, c') :: others))

/-- The nodes in the order of a shard, from their identifiers and capacities. -/
def ranking (sha256 : GoString → GoString) (collection : GoString) (shardID : ℕ)
    (nodes : List (GoString × ℕ)) : List GoString :=
  ((nodes.map fun node => candidate sha256 collection shardID
    ⟨node.1, [], node.2, false, false⟩).insertionSort CandidateLE).map Prod.snd

lemma placementReplicas_eq_ranking (n : ℕ) (nodes : List PlacementNode) :
    placementReplicas sha256 n nodes collection shardID =
      (ranking sha256 collection shardID (nodes.map PlacementNode.shape)).take n := by
  rw [placementReplicas, ranking, map_map]
  rfl

lemma ranking_eq_of_perm {nodes nodes' : List (GoString × ℕ)} (h : nodes.Perm nodes') :
    ranking sha256 collection shardID nodes = ranking sha256 collection shardID nodes' :=
  congrArg (map Prod.snd) (insertionSort_eq_of_perm (h.map _) fun _ _ _ _ => CandidateLE.antisymm)

lemma ranking_perm (nodes : List (GoString × ℕ)) :
    (ranking sha256 collection shardID nodes).Perm (nodes.map Prod.fst) := by
  refine ((perm_insertionSort CandidateLE _).map Prod.snd).trans ?_
  rw [map_map]
  rfl

lemma candidateLE_of_capacity (x : GoString) {c c' : ℕ} (hle : c ≤ c') :
    CandidateLE (candidate sha256 collection shardID ⟨x, [], c', false, false⟩)
      (candidate sha256 collection shardID ⟨x, [], c, false, false⟩) := by
  have hscore := @stringLE_placementNodeScore sha256 collection shardID ⟨x, [], c, false, false⟩
    ⟨x, [], c', false, false⟩ rfl hle
  by_cases hback : StringLE (placementNodeScore sha256 collection shardID ⟨x, [], c', false, false⟩)
    (placementNodeScore sha256 collection shardID ⟨x, [], c, false, false⟩)
  · exact .inr ⟨leString_antisymm hback hscore, leString_refl x⟩
  · exact .inl (above_iff.2 hback)

/-- With the higher capacity a node comes before some of the nodes that it comes behind with the
lower one. -/
lemma exists_ranking (x : GoString) {c c' : ℕ} (hle : c ≤ c') (others : List (GoString × ℕ)) :
    ∃ front mid back, ranking sha256 collection shardID others = front ++ (mid ++ back) ∧
      ranking sha256 collection shardID ((x, c) :: others) = front ++ (mid ++ x :: back) ∧
      ranking sha256 collection shardID ((x, c') :: others) = front ++ x :: (mid ++ back) := by
  have hxle := @candidateLE_of_capacity sha256 collection shardID x c c' hle
  rw [ranking, ranking, ranking, map_cons, map_cons, insertionSort_cons, insertionSort_cons]
  generalize (others.map _).insertionSort CandidateLE = l
  induction l with
  | nil => exact ⟨[], [], [], rfl, rfl, rfl⟩
  | cons z l ih =>
    obtain ⟨front, mid, back, hl, hy, hy'⟩ := ih
    rw [orderedInsert_cons, orderedInsert_cons, map_cons, hl]
    by_cases hz' : CandidateLE (candidate sha256 collection shardID ⟨x, [], c', false, false⟩) z
    · rw [if_pos hz', map_cons, map_cons, hl]
      split
      · exact ⟨[], [], _, rfl, congrArg (x :: z.2 :: ·) hl, rfl⟩
      · exact ⟨[], z.2 :: (front ++ mid), back, by simp, by simp [hy], by simp; rfl⟩
    · rw [if_neg hz', if_neg fun h => hz' (IsTrans.trans _ _ _ hxle h), map_cons, map_cons, hy, hy']
      exact ⟨z.2 :: front, mid, back, rfl, rfl, rfl⟩

lemma Strengthens.promotes {x : GoString} {nodes nodes' : List (GoString × ℕ)}
    (h : Strengthens x nodes nodes') (hnodup : (nodes'.map Prod.fst).Nodup) {n : ℕ}
    (hn : n ≤ nodes.length) :
    Promotes x ((ranking sha256 collection shardID nodes).take n)
      ((ranking sha256 collection shardID nodes').take n) := by
  have hnew : ∀ {c others}, nodes'.Perm ((x, c) :: others) →
      x ∉ ranking sha256 collection shardID others := fun {c others} h hmem =>
    (nodup_cons.1 ((h.map Prod.fst).nodup_iff.1 hnodup)).1 ((ranking_perm others).mem_iff.1 hmem)
  cases h with
  | @joins c h' =>
    -- the node comes in somewhere before the end
    obtain ⟨front, mid, back, hall, -, hstrong⟩ :=
      @exists_ranking sha256 collection shardID x c c le_rfl nodes
    have hpromotes := promotes_take [] (hall ▸ hnew h') n
    have hlength : n ≤ (front ++ (mid ++ back)).length := by
      rwa [← hall, (ranking_perm nodes).length_eq, length_map]
    rw [ranking_eq_of_perm h', hstrong, hall]
    rwa [← append_assoc front, take_append_of_le_length hlength, append_nil] at hpromotes
  | @raised c c' others hle h h' =>
    obtain ⟨front, mid, back, hall, hweak, hstrong⟩ :=
      @exists_ranking sha256 collection shardID x c c' hle others
    rw [ranking_eq_of_perm h, ranking_eq_of_perm h', hweak, hstrong]
    exact promotes_take _ (fun hmem => hnew h' (hall ▸ by simpa using mem_append_left back hmem)) n

end Candidates

/-- If a node joins or its capacity is raised, a shard takes over at most this node, for at most one
other, and changes its leader only to it.  If it leaves or its capacity is lowered, read from
`strong` to `weak`, the replicas of a shard change only if it was one of them, no other is removed,
and the leader changes only if it was the leader.  The others keep their order. -/
theorem changes_move_little {sha256 : GoString → GoString} {weak strong : Membership}
    {configs : List CollectionConfig} {replicationFactor : ℕ} {table table' : ReplicaPlacementTable}
    (hweak : planReplicaPlacementWithCapacity sha256 weak configs replicationFactor = .ok table)
    (hstrong : planReplicaPlacementWithCapacity sha256 strong configs replicationFactor = .ok table')
    {x : GoString} (h : Strengthens x (table.nodes.map PlacementNode.shape)
      (table'.nodes.map PlacementNode.shape)) :
    Forall₂ (fun old new => old.collection = new.collection ∧ old.shardID = new.shardID ∧
        Promotes x old.replicas new.replicas ∧
        (new.leaderID = old.leaderID ∨ new.leaderID = x)) table.shards table'.shards := by
  have hplan : ∀ {view table}, planReplicaPlacementWithCapacity sha256 view configs
      replicationFactor = .ok table → ((table.nodes.map PlacementNode.shape).map Prod.fst).Nodup ∧
        replicationFactor ≤ (table.nodes.map PlacementNode.shape).length ∧
        table.shards = (tableShards (configs.map entryOf)).map fun shard =>
          let replicas := (ranking sha256 shard.1 shard.2
            (table.nodes.map PlacementNode.shape)).take replicationFactor
          ⟨shard.1, shard.2, replicas.headD [], replicas⟩ := by
    intro view table hok
    obtain ⟨-, -, hok⟩ := bind_eq_ok.1 hok
    obtain ⟨base, hbase, htable⟩ := bind_eq_ok.1 (mapError_eq_ok.1 hok)
    obtain ⟨nodes, hnodes, hbase⟩ := bind_eq_ok.1 hbase
    cases hbase
    split at htable
    · cases htable
    cases htable
    refine ⟨?_, ?_, ?_⟩
    · rw [map_map]
      exact nodup_placementNodes hnodes
    · rw [length_map]
      dsimp only at *
      omega
    · simp only [placementReplicas_eq_ranking]
  obtain ⟨-, hle, hshards⟩ := hplan hweak
  obtain ⟨hnodup, -, hshards'⟩ := hplan hstrong
  rw [hshards, hshards', forall₂_map_left_iff, forall₂_map_right_iff, forall₂_same]
  intro shard _
  have hpromotes := @Strengthens.promotes sha256 shard.1 shard.2 _ _ _ h hnodup _ hle
  exact ⟨rfl, rfl, hpromotes, hpromotes.leader⟩

/-- The members of `firstView` and a third one. -/
def joinedView : Membership :=
  { firstView with peers :=
      ⟨bytes "seed", List.replicate 32 51, bytes "third", 2, true⟩ :: firstView.peers }

/-- The theorem for the third member. -/
theorem changes_move_little_joined : ∃ table table' : ReplicaPlacementTable,
    planReplicaPlacementWithCapacity id firstView [.minimal (bytes "c")] 2 = .ok table ∧
    planReplicaPlacementWithCapacity id joinedView [.minimal (bytes "c")] 2 = .ok table' ∧
    Forall₂ (fun old new => Promotes (List.replicate 32 51) old.replicas new.replicas)
      table.shards table'.shards := by
  obtain ⟨table, hweak, hnodes⟩ := map_eq_ok.1 (show (planReplicaPlacementWithCapacity id firstView
    [.minimal (bytes "c")] 2).map (fun table => table.nodes.map PlacementNode.shape) =
      .ok [(List.replicate 32 49, 1), (List.replicate 32 50, 3)] by decide +kernel)
  obtain ⟨table', hstrong, hnodes'⟩ := map_eq_ok.1 (show (planReplicaPlacementWithCapacity id
    joinedView [.minimal (bytes "c")] 2).map (fun table => table.nodes.map PlacementNode.shape) =
      .ok [(List.replicate 32 49, 1), (List.replicate 32 50, 3), (List.replicate 32 51, 2)] by
        decide +kernel)
  have hjoins : Strengthens (List.replicate 32 51) (table.nodes.map PlacementNode.shape)
      (table'.nodes.map PlacementNode.shape) := by
    rw [hnodes, hnodes']
    exact .joins (c := 2) (by decide +kernel)
  exact ⟨table, table', hweak, hstrong,
    (changes_move_little hweak hstrong hjoins).imp fun _ _ h => h.2.2.1⟩

end GideonDB.Cluster
