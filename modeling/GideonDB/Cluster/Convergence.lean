/-
Placement and view digests do not depend on the node that computes them.

A node enters the computation as the local node, with its own parameters, or as a peer, with the
values it reports.  Both end up in one list that is sorted by node identifier, and nothing after
that looks at which node was the local one or at whether a peer is healthy
(`map_member_placementNodes`).  The two planners break ties in different ways, the one by keeping
the first of the best nodes, the other by sorting; both mean the same node
(`placementOwner_eq_leader`).
-/
import GideonDB.Cluster.Placement
import GideonDB.Core.Catalog

namespace GideonDB.Cluster

open Go Catalog PlacementNode CollectionConfig ReplicaPlacementTable List

/-- Why a view has no digests. -/
inductive PlanError
  | placement (error : PlacementError)
  | config (error : ConfigError)
  /-- `duplicate node ID %s`. -/
  | duplicateNode (nodeID : GoString)
  /-- An error of `json.Marshal`. -/
  | marshal
deriving DecidableEq

/-- What placement reads of a collection. -/
def entryOf (config : CollectionConfig) : CatalogEntry := ⟨config.name, config.shardCount.toNat⟩

/-- The order by name. -/
def ConfigLE (left right : CollectionConfig) : Prop := StringLE left.name right.name
deriving Decidable

/-- `sort.Slice` by name. -/
def sortConfigs (configs : List CollectionConfig) : List CollectionConfig :=
  configs.insertionSort ConfigLE

section Plan

variable (sha256 : GoString → GoString)

def planPlacementWithCapacity (members : Membership) (configs : List CollectionConfig) :
    Except PlanError PlacementTable := do
  let table ← (planPlacement sha256 members (configs.map entryOf)).mapError .placement
  ((sortConfigs configs).forM validate).mapError .config
  return table

def planReplicaPlacementWithCapacity (members : Membership) (configs : List CollectionConfig)
    (replicationFactor : ℕ) : Except PlanError ReplicaPlacementTable := do
  let _ ← planPlacementWithCapacity sha256 members configs
  (planReplicaPlacement sha256 members (configs.map entryOf) replicationFactor).mapError .placement

/-- `json.Marshal`, for the three kinds of values that are digested. -/
structure Marshal where
  nodeIDs : List GoString → Option GoString
  configs : List CollectionConfig → Option GoString
  shards : List ShardPlacement → Option GoString

def hexDigit (n : ℕ) : UInt8 := UInt8.ofNat (if n < 10 then 48 + n else 87 + n)

/-- `hex.EncodeToString`. -/
def encodeHex (data : GoString) : GoString :=
  data.flatMap fun b => [hexDigit (b.toNat / 16), hexDigit (b.toNat % 16)]

/-- `digestJSON` of a value with the given JSON text. -/
def digestJSON (text : Option GoString) : Except PlanError GoString :=
  match text with
  | none => .error .marshal
  | some payload => .ok (encodeHex (sha256 payload))

/-- A new peer's id. -/
def addNodeID (nodeIDs : List GoString) (peer : Peer) : Except PlanError (List GoString) :=
  if peer.nodeID = [] then .ok nodeIDs
  else if peer.nodeID ∈ nodeIDs then .error (.duplicateNode peer.nodeID)
  else .ok (nodeIDs ++ [peer.nodeID])

def computeViewDigestsWithCapacity (json : Marshal) (members : Membership)
    (collections : List CollectionConfig) : Except PlanError ViewDigests := do
  let nodeIDs ← members.peers.foldlM addNodeID [members.localNodeID]
  let configs := sortConfigs (collections.map normalized)
  let table ← planPlacementWithCapacity sha256 members configs
  let membership ← digestJSON sha256 (json.nodeIDs (sortStrings nodeIDs))
  let catalog ← digestJSON sha256 (json.configs configs)
  let placement ← digestJSON sha256 (json.shards table.shards)
  return ⟨membership, catalog, placement, marshalNodeCapacities (some (table.nodes.map fun node =>
    ⟨node.nodeID, node.capacity⟩))⟩

end Plan

/-! ### Members -/

/-- A node as every node of the cluster sees it. -/
structure ViewMember where
  nodeID : GoString
  advertiseAddress : GoString
  capacity : ℕ
deriving DecidableEq

/-- A valid identifier, an address, a capacity from 1 to 256. -/
structure ViewMember.Valid (member : ViewMember) : Prop where
  nodeID : validNodeID member.nodeID = true
  address : member.advertiseAddress ≠ []
  capacity : validPlacementCapacity member.capacity = true

/-- A peer without what only its observer knows. -/
def Peer.member (peer : Peer) : ViewMember :=
  ⟨peer.nodeID, peer.advertiseAddress, peer.placementCapacity⟩

/-- A node of a table without what only the node that computed the table knows. -/
def PlacementNode.member (node : PlacementNode) : ViewMember :=
  ⟨node.nodeID, node.advertiseAddress, node.capacity⟩

/-- The members a node plans with, itself first. -/
def Membership.members (view : Membership) : List ViewMember :=
  ⟨view.localNodeID, view.localAddress, view.localCapacity⟩ :: view.peers.map Peer.member

/-- The order by id. -/
def ViewMember.LE (left right : ViewMember) : Prop := StringLE left.nodeID right.nodeID
deriving Decidable

instance : Std.Total ViewMember.LE := ⟨fun left right => leString_total left.nodeID right.nodeID⟩

instance : IsTrans ViewMember ViewMember.LE := ⟨fun _ _ _ => leString_trans⟩

/-- The members by id. -/
def sortMembers (members : List ViewMember) : List ViewMember := members.insertionSort ViewMember.LE

lemma sortMembers_eq_of_perm {members members' : List ViewMember} (hperm : members.Perm members')
    (hnodup : (members.map ViewMember.nodeID).Nodup) : sortMembers members = sortMembers members' := by
  refine insertionSort_eq_of_perm hperm fun left hleft right hright hle hle' => ?_
  exact inj_on_of_nodup_map hnodup hleft hright (leString_antisymm hle hle')

section View

variable {view : Membership}

/-- Its placement node. -/
def Peer.node (peer : Peer) : PlacementNode :=
  ⟨peer.nodeID, peer.advertiseAddress, peer.capacity, peer.healthy, false⟩

lemma Peer.capacity_of_valid {peer : Peer} (h : peer.member.Valid) :
    peer.capacity = peer.placementCapacity := by
  have hcap := h.capacity
  rw [Peer.capacity, if_neg]
  intro hzero
  simp [Peer.member, hzero, validPlacementCapacity] at hcap

lemma foldlM_addPeer_of_valid {peers : List Peer} {nodes : List PlacementNode}
    (hvalid : ∀ peer ∈ peers, peer.member.Valid)
    (hnodup : (nodes.map nodeID ++ peers.map Peer.nodeID).Nodup) :
    peers.foldlM addPeer nodes = .ok (nodes ++ peers.map Peer.node) := by
  refine foldlM_eq_append (fun nodes peer hmem hfresh => ?_) hnodup
  change peer.nodeID ∉ _ at hfresh
  have hpeer := hvalid peer hmem
  have hid : validNodeID peer.nodeID := hpeer.nodeID
  have haddress : peer.advertiseAddress ≠ [] := hpeer.address
  have hcap : validPlacementCapacity peer.capacity := by
    rw [Peer.capacity_of_valid hpeer]
    exact hpeer.capacity
  rw [addPeer, if_neg (ne_nil_of_validNodeID hid), if_neg (by simp [hid, haddress]),
    if_neg hfresh, if_neg (by simp [hcap]), Peer.node]

lemma map_member_placementNodes (hepoch : view.epoch ≠ 0)
    (hvalid : ∀ member ∈ view.members, member.Valid)
    (hnodup : (view.members.map ViewMember.nodeID).Nodup) :
    ∃ nodes, placementNodes view = .ok nodes ∧ nodes.map member = sortMembers view.members := by
  obtain ⟨hlocal, hpeers⟩ := forall_mem_cons.1 hvalid
  have hpeers : ∀ peer ∈ view.peers, peer.member.Valid := fun peer hmem =>
    hpeers _ (mem_map_of_mem hmem)
  have hfold := @foldlM_addPeer_of_valid view.peers
    [⟨view.localNodeID, view.localAddress, view.localCapacity, true, true⟩] hpeers (by
      rw [Membership.members, map_cons, map_map] at hnodup
      exact hnodup)
  have hid : validNodeID view.localNodeID := hlocal.nodeID
  have haddress : view.localAddress ≠ [] := hlocal.address
  have hcap : validPlacementCapacity view.localCapacity := hlocal.capacity
  have hmems : (([⟨view.localNodeID, view.localAddress, view.localCapacity, true, true⟩] ++
      view.peers.map Peer.node : List PlacementNode).map member) = view.members := by
    rw [map_append, map_map, Membership.members]
    refine congrArg (_ :: ·) (map_congr_left fun peer hmem => ?_)
    rw [Function.comp_apply, Peer.node, member, Peer.capacity_of_valid
      (hpeers peer hmem), Peer.member]
  rw [placementNodes, if_neg (by simp [hepoch, hid, haddress]), if_neg (by simp [hcap]), hfold]
  refine ⟨_, rfl, ?_⟩
  rw [sortMembers, ← hmems]
  exact map_insertionSort PlacementNode.LE ViewMember.LE _ _ fun _ _ _ _ => Iff.rfl

end View

/-! ### Owners and leaders -/

section Candidates

lemma above_iff {left right : GoString} : above left right ↔ ¬ StringLE left right := by
  simp [above, StringLE]

lemma CandidateLE.refl (x : GoString × GoString) : CandidateLE x x :=
  .inr ⟨rfl, leString_refl _⟩

attribute [local instance] linearOrderGoString

lemma candidateLE_iff (x y : GoString × GoString) :
    CandidateLE x y ↔ y.1 < x.1 ∨ x.1 = y.1 ∧ StringLE x.2 y.2 := by
  rw [CandidateLE, above_iff, StringLE, leString_iff, not_le]

instance : Std.Total CandidateLE :=
  total_of_score (fun x y => leString_total x.2 y.2) candidateLE_iff

instance : IsTrans (GoString × GoString) CandidateLE :=
  isTrans_of_score (fun x y _ (h : StringLE x.2 y.2) => leString_trans h) candidateLE_iff

lemma CandidateLE.antisymm {x y : GoString × GoString} (hxy : CandidateLE x y)
    (hyx : CandidateLE y x) : x = y := by
  obtain ⟨hscore, hid, hid'⟩ := tie_of_score candidateLE_iff hxy hyx
  exact Prod.ext hscore (leString_antisymm hid hid')

variable {sha256 : GoString → GoString} {collection : GoString} {shardID : ℕ}

/-- A node's score and id. -/
def candidate (sha256 : GoString → GoString) (collection : GoString) (shardID : ℕ)
    (node : PlacementNode) : GoString × GoString :=
  (placementNodeScore sha256 collection shardID node, node.nodeID)

lemma foldl_best {nodes : List PlacementNode} {best : GoString × GoString}
    (hsort : nodes.Pairwise PlacementNode.LE)
    (hbest : ∀ node ∈ nodes, StringLE best.2 node.nodeID) :
    let result := nodes.foldl (fun best node =>
      let score := placementNodeScore sha256 collection shardID node
      if above score best.1 then (score, node.nodeID) else best) best
    result ∈ best :: nodes.map (candidate sha256 collection shardID) ∧
      ∀ x ∈ best :: nodes.map (candidate sha256 collection shardID), CandidateLE result x := by
  induction nodes using reverseRecOn with
  | nil => exact ⟨mem_singleton.2 rfl, fun x hx => mem_singleton.1 hx ▸ .refl _⟩
  | append_singleton nodes node ih =>
    rw [pairwise_append] at hsort
    rw [forall_mem_append] at hbest
    obtain ⟨hmem, hle⟩ := ih hsort.1 hbest.1
    simp only [foldl_append, foldl_cons, foldl_nil, map_append, map_cons, map_nil, ← cons_append,
      mem_append, mem_singleton, or_imp, forall_and, forall_eq]
    generalize nodes.foldl _ best = result at hmem hle ⊢
    split
    · -- the node is better than all before it
      rename_i habove
      exact ⟨.inr rfl, fun x hx => IsTrans.trans _ _ _ (.inl habove) (hle x hx), .refl _⟩
    · -- it is not, and its identifier is not below that of the best node
      rename_i habove
      rw [above_iff, not_not] at habove
      have hid : StringLE result.2 node.nodeID := by
        rcases mem_cons.1 hmem with rfl | hmem
        · exact hbest.2 node (mem_singleton.2 rfl)
        · obtain ⟨earlier, hearlier, rfl⟩ := mem_map.1 hmem
          exact hsort.2.2 earlier hearlier node (mem_singleton.2 rfl)
      refine ⟨.inl hmem, hle, ?_⟩
      by_cases hscore : StringLE result.1 (placementNodeScore sha256 collection shardID node)
      · exact .inr ⟨leString_antisymm hscore habove, hid⟩
      · exact .inl (above_iff.2 hscore)

/-- The owner of a shard is the first of its replicas. -/
lemma placementOwner_eq_leader {nodes : List PlacementNode} (hsort : nodes.Pairwise PlacementNode.LE)
    {replicationFactor : ℕ} (hfac : 0 < replicationFactor) :
    placementOwner sha256 collection shardID nodes =
      (placementReplicas sha256 replicationFactor nodes collection shardID).headD [] := by
  cases nodes with
  | nil => simp [placementOwner, placementReplicas]
  | cons node nodes =>
    rw [pairwise_cons] at hsort
    obtain ⟨hmem, hle⟩ := @foldl_best sha256 collection shardID nodes
      (candidate sha256 collection shardID node) hsort.2 hsort.1
    have hperm := perm_insertionSort CandidateLE
      ((node :: nodes).map (candidate sha256 collection shardID))
    have hpairwise := pairwise_insertionSort CandidateLE
      ((node :: nodes).map (candidate sha256 collection shardID))
    change _ = ((((node :: nodes).map (candidate sha256 collection shardID)).insertionSort
      CandidateLE).map Prod.snd |>.take replicationFactor).headD []
    cases hcandidates : ((node :: nodes).map (candidate sha256 collection
        shardID)).insertionSort CandidateLE with
    | nil =>
      rw [hcandidates] at hperm
      cases hperm.nil_eq
    | cons leader rest =>
      rw [hcandidates] at hperm hpairwise
      have hleader := hperm.mem_iff.1 (@mem_cons_self _ leader rest)
      have hfirst : ∀ x ∈ leader :: rest, CandidateLE leader x :=
        forall_mem_cons.2 ⟨.refl leader, (pairwise_cons.1 hpairwise).1⟩
      obtain ⟨factor, rfl⟩ := Nat.exists_eq_add_of_lt hfac
      exact congrArg Prod.snd ((hle leader hleader).antisymm (hfirst _ (hperm.mem_iff.2 hmem)))

end Candidates

/-! ### Two observers -/

section Observers

variable {sha256 : GoString → GoString}

/-- Its placement node. -/
def ViewMember.node (member : ViewMember) : PlacementNode :=
  ⟨member.nodeID, member.advertiseAddress, member.capacity, false, false⟩

lemma placementOwner_eq (collection : GoString) (shardID : ℕ) (nodes : List PlacementNode) :
    placementOwner sha256 collection shardID nodes = placementOwner sha256 collection shardID
        ((nodes.map member).map ViewMember.node) := by
  cases nodes with
  | nil => rfl
  | cons node nodes =>
    rw [map_map, map_cons, placementOwner, placementOwner, foldl_map]
    rfl

lemma placementReplicas_eq (replicationFactor : ℕ) (nodes : List PlacementNode)
    (collection : GoString) (shardID : ℕ) :
    placementReplicas sha256 replicationFactor nodes collection shardID =
      placementReplicas sha256 replicationFactor
        ((nodes.map member).map ViewMember.node) collection shardID := by
  rw [placementReplicas, placementReplicas, map_map, map_map]
  rfl

/-- The leader of each shard. -/
def assignments (sha256 : GoString → GoString) (members : List ViewMember)
    (configs : List CollectionConfig) : List ShardPlacement :=
  (tableShards (configs.map entryOf)).map fun shard =>
    ⟨shard.1, shard.2, placementOwner sha256 shard.1 shard.2 ((sortMembers members).map ViewMember.node)⟩

/-- The replicas of each shard. -/
def replicaSets (sha256 : GoString → GoString) (members : List ViewMember)
    (configs : List CollectionConfig) (replicationFactor : ℕ) : List ShardReplicaPlacement :=
  (tableShards (configs.map entryOf)).map fun shard =>
    let replicas := placementReplicas sha256 replicationFactor
      ((sortMembers members).map ViewMember.node) shard.1 shard.2
    ⟨shard.1, shard.2, replicas.headD [], replicas⟩

/-- What a node sees of a cluster: members that are valid and distinct. -/
structure Membership.Sees (view : Membership) (members : List ViewMember) : Prop where
  perm : view.members.Perm members
  valid : ∀ member ∈ members, member.Valid
  nodup : (members.map ViewMember.nodeID).Nodup

namespace Membership.Sees

variable {view : Membership} {members : List ViewMember} {configs : List CollectionConfig}

lemma nodes (h : view.Sees members) (hepoch : view.epoch ≠ 0) :
    ∃ nodes, placementNodes view = .ok nodes ∧ nodes.map member = sortMembers members := by
  have hnodup := (h.perm.map ViewMember.nodeID).nodup_iff.2 h.nodup
  obtain ⟨nodes, hnodes, hmems⟩ := map_member_placementNodes hepoch
    (fun member hmem => h.valid member (h.perm.mem_iff.1 hmem)) hnodup
  exact ⟨nodes, hnodes, hmems.trans (sortMembers_eq_of_perm h.perm hnodup)⟩

lemma planPlacement (h : view.Sees members) (hepoch : view.epoch ≠ 0) :
    ∃ nodes, nodes.map member = sortMembers members ∧
      Cluster.planPlacement sha256 view (configs.map entryOf) =
        .ok ⟨view.epoch, nodes, assignments sha256 members configs⟩ := by
  obtain ⟨nodes, hnodes, hmems⟩ := h.nodes hepoch
  refine ⟨nodes, hmems, ?_⟩
  rw [Cluster.planPlacement, hnodes, assignments, ← hmems]
  refine congrArg (fun shards => Except.ok (PlacementTable.mk view.epoch nodes shards))
    (map_congr_left fun shard _ => ?_)
  rw [placementOwner_eq]

lemma planPlacement_zero (hepoch : view.epoch = 0) (collections : List CatalogEntry) :
    Cluster.planPlacement sha256 view collections = .error .invalidLocal := by
  rw [Cluster.planPlacement, placementNodes, if_pos (.inl hepoch)]
  rfl

end Membership.Sees

/-- The members and the shards of the placement table over the given members. -/
def plannedTable (sha256 : GoString → GoString) (epoch : ℕ) (members : List ViewMember)
    (configs : List CollectionConfig) : Except PlanError (List ViewMember × List ShardPlacement) := do
  if epoch = 0 then .error (.placement .invalidLocal)
  else
    ((sortConfigs configs).forM validate).mapError .config
    return (sortMembers members, assignments sha256 members configs)

/-- The replicas of a view. -/
def plannedReplicas (sha256 : GoString → GoString) (epoch : ℕ) (members : List ViewMember)
    (configs : List CollectionConfig) (replicationFactor : ℕ) :
    Except PlanError (List ShardReplicaPlacement) := do
  let _ ← plannedTable sha256 epoch members configs
  if replicationFactor < 1 ∨ members.length < replicationFactor then
    .error (.placement (.replicationFactor members.length))
  else return replicaSets sha256 members configs replicationFactor

/-- The digests of a view. -/
def plannedDigests (sha256 : GoString → GoString) (json : Marshal) (epoch : ℕ)
    (members : List ViewMember) (collections : List CollectionConfig) :
    Except PlanError ViewDigests := do
  let configs := sortConfigs (collections.map normalized)
  let table ← plannedTable sha256 epoch members configs
  let membership ← digestJSON sha256 (json.nodeIDs (sortStrings (members.map ViewMember.nodeID)))
  let catalog ← digestJSON sha256 (json.configs configs)
  let placement ← digestJSON sha256 (json.shards table.2)
  return ⟨membership, catalog, placement, marshalNodeCapacities (some (table.1.map fun member =>
    ⟨member.nodeID, member.capacity⟩))⟩

namespace Membership.Sees

variable {view : Membership} {members : List ViewMember}

lemma planPlacementWithCapacity (h : view.Sees members) (configs : List CollectionConfig) :
    (Cluster.planPlacementWithCapacity sha256 view configs).map (fun table =>
        (table.nodes.map member, table.shards)) =
      plannedTable sha256 view.epoch members configs := by
  rw [Cluster.planPlacementWithCapacity, plannedTable]
  by_cases hepoch : view.epoch = 0
  · rw [planPlacement_zero hepoch, if_pos hepoch]
    rfl
  · obtain ⟨nodes, hnodes, htable⟩ := @planPlacement sha256 view members configs h hepoch
    rw [htable, if_neg hepoch, ← hnodes]
    cases (sortConfigs configs).forM validate <;> rfl

lemma planReplicaPlacementWithCapacity (h : view.Sees members) (configs : List CollectionConfig)
    (replicationFactor : ℕ) :
    (Cluster.planReplicaPlacementWithCapacity sha256 view configs replicationFactor).map shards =
      plannedReplicas sha256 view.epoch members configs replicationFactor := by
  have hplan := @planPlacementWithCapacity sha256 _ _ h configs
  rw [Cluster.planReplicaPlacementWithCapacity, plannedReplicas, ← hplan]
  by_cases hepoch : view.epoch = 0
  · rw [Cluster.planPlacementWithCapacity, planPlacement_zero hepoch]
    rfl
  · obtain ⟨nodes, hnodes, htable⟩ := @planPlacement sha256 view members configs h hepoch
    have hlength : nodes.length = members.length := by
      rw [← length_map member, hnodes, sortMembers, length_insertionSort]
    rw [Cluster.planPlacementWithCapacity, planReplicaPlacement, htable, ← hlength]
    cases (sortConfigs configs).forM validate with
    | error error => rfl
    | ok _ =>
      have hsets : ((tableShards (configs.map entryOf)).map fun shard =>
          let replicas := placementReplicas sha256 replicationFactor nodes shard.1 shard.2
          (⟨shard.1, shard.2, replicas.headD [], replicas⟩ : ShardReplicaPlacement)) =
            replicaSets sha256 members configs replicationFactor := by
        rw [replicaSets, ← hnodes]
        refine map_congr_left fun shard _ => ?_
        rw [placementReplicas_eq]
      dsimp only [Bind.bind, Except.bind, Except.mapError, Except.map, Pure.pure, Except.pure]
      rw [← hsets]
      by_cases hfac : replicationFactor < 1 ∨ nodes.length < replicationFactor
      · rw [if_pos hfac, if_pos hfac]
      · rw [if_neg hfac, if_neg hfac]

lemma foldlM_addNodeID {peers : List Peer} {nodeIDs : List GoString}
    (hvalid : ∀ peer ∈ peers, peer.member.Valid)
    (hnodup : (nodeIDs ++ peers.map Peer.nodeID).Nodup) :
    peers.foldlM addNodeID nodeIDs = .ok (nodeIDs ++ peers.map Peer.nodeID) := by
  refine @foldlM_eq_append _ _ _ _ _ _ id _ _ (fun nodeIDs peer hmem hfresh => ?_)
    (by simpa using hnodup)
  have hid : validNodeID peer.nodeID := (hvalid peer hmem).nodeID
  rw [addNodeID, if_neg (ne_nil_of_validNodeID hid), if_neg (by simpa using hfresh)]

lemma computeViewDigestsWithCapacity (h : view.Sees members) (json : Marshal)
    (collections : List CollectionConfig) :
    Cluster.computeViewDigestsWithCapacity sha256 json view collections =
      plannedDigests sha256 json view.epoch members collections := by
  have hids : view.members.map ViewMember.nodeID =
      [view.localNodeID] ++ view.peers.map Peer.nodeID := by
    rw [Membership.members, map_cons, map_map]
    rfl
  have hvalid : ∀ peer ∈ view.peers, peer.member.Valid := fun peer hmem =>
    h.valid _ (h.perm.mem_iff.1 (mem_cons_of_mem _ (mem_map_of_mem hmem)))
  have hperm := h.perm.map ViewMember.nodeID
  have hfold := foldlM_addNodeID hvalid (hids ▸ hperm.nodup_iff.2 h.nodup)
  rw [← hids] at hfold
  rw [Cluster.computeViewDigestsWithCapacity, plannedDigests, hfold,
    ← h.planPlacementWithCapacity, ← sortStrings_eq_of_perm hperm]
  dsimp only [Bind.bind, Except.bind]
  cases Cluster.planPlacementWithCapacity sha256 view
    (sortConfigs (collections.map normalized)) with
  | error error => rfl
  | ok table =>
    dsimp only [Except.map]
    rw [map_map]
    rfl

end Membership.Sees

lemma assignments_eq_replicaSets (members : List ViewMember) (configs : List CollectionConfig)
    {replicationFactor : ℕ} (hfac : 0 < replicationFactor) :
    (assignments sha256 members configs).map (fun shard =>
        (shard.collection, shard.shardID, shard.nodeID)) =
      (replicaSets sha256 members configs replicationFactor).map fun shard =>
        (shard.collection, shard.shardID, shard.leaderID) := by
  have hsort : ((sortMembers members).map ViewMember.node).Pairwise PlacementNode.LE :=
    pairwise_map.2 (pairwise_insertionSort ViewMember.LE members)
  rw [assignments, replicaSets, map_map, map_map]
  refine map_congr_left fun shard _ => ?_
  exact congrArg (fun owner => (shard.1, shard.2, owner)) (placementOwner_eq_leader hsort hfac)

lemma plannedTable_eq_ok {epoch : ℕ} {members : List ViewMember} {configs : List CollectionConfig}
    {table : List ViewMember × List ShardPlacement} :
    plannedTable sha256 epoch members configs = .ok table ↔
      epoch ≠ 0 ∧ (sortConfigs configs).forM validate = .ok () ∧
        table = (sortMembers members, assignments sha256 members configs) := by
  rw [plannedTable]
  by_cases hepoch : epoch = 0
  · simp [hepoch]
  · rw [if_neg hepoch]
    cases (sortConfigs configs).forM validate with
    | error error => simp [Except.mapError, Bind.bind, Except.bind]
    | ok _ => simp [Except.mapError, Bind.bind, Except.bind, Pure.pure, Except.pure, hepoch, eq_comm]

lemma plannedReplicas_eq_ok {epoch replicationFactor : ℕ} {members : List ViewMember}
    {configs : List CollectionConfig} {shards : List ShardReplicaPlacement} :
    plannedReplicas sha256 epoch members configs replicationFactor = .ok shards ↔
      (∃ table, plannedTable sha256 epoch members configs = .ok table) ∧ 1 ≤ replicationFactor ∧
        replicationFactor ≤ members.length ∧
          shards = replicaSets sha256 members configs replicationFactor := by
  rw [plannedReplicas, bind_eq_ok]
  by_cases hfac : replicationFactor < 1 ∨ members.length < replicationFactor
  · rw [if_pos hfac]
    simp only [reduceCtorEq, and_false, exists_false, false_iff]
    omega
  · rw [if_neg hfac]
    rw [not_or, not_lt, not_lt] at hfac
    simp [hfac, Pure.pure, Except.pure, eq_comm]

lemma forM_validate_eq_ok {configs : List CollectionConfig} : configs.forM validate = .ok () ↔
      ∀ config ∈ configs, config.validate = .ok () := by
  induction configs with
  | nil => simp [Pure.pure, Except.pure]
  | cons config configs ih =>
    rw [List.forM, forall_mem_cons, bind_eq_ok, ← ih]
    constructor
    · rintro ⟨⟨⟩, hconf, hrest⟩
      exact ⟨hconf, hrest⟩
    · rintro ⟨hconf, hrest⟩
      exact ⟨(), hconf, hrest⟩

/-- Two nodes that see the same members, each as the local node with the others as its peers,
compute the same shard assignments, the same replica lists and the same view digests.  The owner
of a shard is the leader of its replicas, and there are as many replicas as the replication factor
says, all different.  For a valid catalog nothing fails. -/
theorem placement_independent_of_observer {json : Marshal} {members : List ViewMember}
    {left right : Membership} (hleft : left.Sees members) (hright : right.Sees members)
    (hepoch : left.epoch = right.epoch) (configs : List CollectionConfig) (replicationFactor : ℕ) :
    ((planPlacementWithCapacity sha256 left configs).map PlacementTable.shards =
        (planPlacementWithCapacity sha256 right configs).map PlacementTable.shards ∧
      (planReplicaPlacementWithCapacity sha256 left configs replicationFactor).map
          shards =
        (planReplicaPlacementWithCapacity sha256 right configs replicationFactor).map
          shards ∧
      computeViewDigestsWithCapacity sha256 json left configs =
        computeViewDigestsWithCapacity sha256 json right configs) ∧
    (∀ table replicaTable, planPlacementWithCapacity sha256 left configs = .ok table →
      planReplicaPlacementWithCapacity sha256 left configs replicationFactor = .ok replicaTable →
      table.shards.map (fun shard => (shard.collection, shard.shardID, shard.nodeID)) =
          replicaTable.shards.map (fun shard => (shard.collection, shard.shardID, shard.leaderID)) ∧
        ∀ shard ∈ replicaTable.shards,
          shard.replicas.length = replicationFactor ∧ shard.replicas.Nodup) ∧
    (left.epoch ≠ 0 → (∀ config ∈ configs, config.validate = .ok ()) →
      (∃ table, planPlacementWithCapacity sha256 left configs = .ok table) ∧
        (1 ≤ replicationFactor → replicationFactor ≤ members.length →
          ∃ table, planReplicaPlacementWithCapacity sha256 left configs replicationFactor =
            .ok table)) := by
  have htable := fun {view : Membership} (h : view.Sees members) =>
    @Membership.Sees.planPlacementWithCapacity sha256 view members h configs
  have hshards : ∀ {view : Membership}, view.Sees members →
      (planPlacementWithCapacity sha256 view configs).map PlacementTable.shards =
        (plannedTable sha256 view.epoch members configs).map Prod.snd := by
    intro view h
    rw [← htable h]
    cases planPlacementWithCapacity sha256 view configs <;> rfl
  have hreps := fun {view : Membership} (h : view.Sees members) =>
    @Membership.Sees.planReplicaPlacementWithCapacity sha256 view members h configs
      replicationFactor
  refine ⟨⟨?_, ?_, ?_⟩, fun table replicaTable hok hreplicaOk => ⟨?_, fun shard hmem => ?_⟩,
    fun hpositive hvalid => ?_⟩
  · rw [hshards hleft, hshards hright, hepoch]
  · rw [hreps hleft, hreps hright, hepoch]
  · rw [hleft.computeViewDigestsWithCapacity, hright.computeViewDigestsWithCapacity, hepoch]
  · -- both tables list the shards in the same order
    have hplanned := htable hleft
    have hreplicaPlanned := hreps hleft
    rw [hok] at hplanned
    rw [hreplicaOk] at hreplicaPlanned
    obtain ⟨-, -, htableEq⟩ := plannedTable_eq_ok.1 hplanned.symm
    obtain ⟨-, hone, -, hreplicaEq⟩ := plannedReplicas_eq_ok.1 hreplicaPlanned.symm
    rw [show table.shards = _ from congrArg Prod.snd htableEq, hreplicaEq]
    exact assignments_eq_replicaSets members configs hone
  · obtain ⟨-, -, hplan⟩ := bind_eq_ok.1 hreplicaOk
    have hreg := regular_of_planReplicaPlacement (mapError_eq_ok.1 hplan) hmem
    exact ⟨hreg.length, hreg.nodup⟩
  · have hplanned := (@plannedTable_eq_ok sha256 _ members configs _).2 ⟨hpositive,
      forM_validate_eq_ok.2 fun config hmem => hvalid config
        ((perm_insertionSort ConfigLE configs).mem_iff.1 hmem), rfl⟩
    refine ⟨?_, fun hone hle => ?_⟩
    · obtain ⟨table, hok, -⟩ := map_eq_ok.1 ((htable hleft).trans hplanned)
      exact ⟨table, hok⟩
    · obtain ⟨table, hok, -⟩ := map_eq_ok.1 ((hreps hleft).trans
        (plannedReplicas_eq_ok.2 ⟨⟨_, hplanned⟩, hone, hle, rfl⟩))
      exact ⟨table, hok⟩

end Observers

def smallMembers : List ViewMember :=
  [⟨List.replicate 32 49, bytes "first", 1⟩, ⟨List.replicate 32 50, bytes "second", 3⟩]

def firstView : Membership :=
  ⟨1, List.replicate 32 49, bytes "first", 1,
    [⟨bytes "seed", List.replicate 32 50, bytes "second", 3, false⟩]⟩

def secondView : Membership :=
  ⟨1, List.replicate 32 50, bytes "second", 3,
    [⟨bytes "seed", List.replicate 32 49, bytes "first", 1, true⟩]⟩

lemma valid_smallMembers : ∀ member ∈ smallMembers, member.Valid := by
  have hall : ∀ member ∈ smallMembers, validNodeID member.nodeID ∧
      member.advertiseAddress ≠ [] ∧ validPlacementCapacity member.capacity = true := by
    decide +kernel
  exact fun member hmem => ⟨(hall member hmem).1, (hall member hmem).2.1, (hall member hmem).2.2⟩

lemma firstView_sees : firstView.Sees smallMembers := ⟨.refl _, valid_smallMembers, by decide⟩

lemma secondView_sees : secondView.Sees smallMembers :=
  ⟨.swap _ _ _, valid_smallMembers, by decide⟩

/-- Both nodes plan two replicas for the shard of a collection, the same ones. -/
theorem placement_independent_of_observer_two_nodes :
    firstView.Sees smallMembers ∧ secondView.Sees smallMembers ∧
    (∃ table, planReplicaPlacementWithCapacity id firstView [.minimal (bytes "c")] 2 = .ok table) ∧
    (planReplicaPlacementWithCapacity id firstView [.minimal (bytes "c")] 2).map
        shards =
      (planReplicaPlacementWithCapacity id secondView [.minimal (bytes "c")] 2).map
        shards := by
  obtain ⟨hsame, -, hok⟩ := @placement_independent_of_observer id ⟨fun _ => none, fun _ => none,
    fun _ => none⟩ smallMembers firstView secondView firstView_sees secondView_sees rfl
      [.minimal (bytes "c")] 2
  refine ⟨firstView_sees, secondView_sees, ?_, hsame.2.1⟩
  refine (hok (by decide) (fun config hmem => ?_)).2 (by decide) (by decide)
  obtain rfl := mem_singleton.1 hmem
  decide +kernel

end GideonDB.Cluster
