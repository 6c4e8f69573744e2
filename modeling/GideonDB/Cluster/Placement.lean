/-
Placement of shards on nodes.

Every node computes the table for itself from the members it knows: the nodes are ranked for
each shard by a hash, the highest is the leader and the next ones are the other replicas.  The
hash is a parameter; nothing below depends on its values.
-/
import GideonDB.Cluster.View
import GideonDB.Go.Loop

namespace GideonDB.Cluster

open Go List

/-- The fields of `Peer` that placement reads. -/
structure Peer where
  seedURL : GoString
  nodeID : GoString
  advertiseAddress : GoString
  placementCapacity : ℕ
  healthy : Bool
deriving DecidableEq

/-- `PlacementNode`. -/
structure PlacementNode where
  nodeID : GoString
  advertiseAddress : GoString
  capacity : ℕ
  healthy : Bool
  isLocal : Bool
deriving DecidableEq

/-- A collection of the catalog, as placement sees it. -/
structure CatalogEntry where
  name : GoString
  shardCount : ℕ
deriving DecidableEq

/-- `ShardPlacement`. -/
structure ShardPlacement where
  collection : GoString
  shardID : ℕ
  nodeID : GoString
deriving DecidableEq

/-- `PlacementTable`. -/
structure PlacementTable where
  epoch : ℕ
  nodes : List PlacementNode
  shards : List ShardPlacement
deriving DecidableEq

/-- `ShardReplicaPlacement`. -/
structure ShardReplicaPlacement where
  collection : GoString
  shardID : ℕ
  leaderID : GoString
  replicas : List GoString
deriving DecidableEq

/-- `ReplicaPlacementTable`. -/
structure ReplicaPlacementTable where
  epoch : ℕ
  replicationFactor : ℕ
  nodes : List PlacementNode
  shards : List ShardReplicaPlacement
deriving DecidableEq

/-- Why there is no placement. -/
inductive PlacementError
  /-- `valid epoch, local node ID, and local address are required`. -/
  | invalidLocal
  /-- `local node: placement capacity must be between 1 and 256`. -/
  | localCapacity
  /-- `invalid discovered peer %q`. -/
  | invalidPeer (seedURL : GoString)
  /-- `duplicate placement node ID %s`. -/
  | duplicateNode (nodeID : GoString)
  /-- `peer %s: placement capacity must be between 1 and 256`. -/
  | peerCapacity (nodeID : GoString)
  /-- `replication factor must be between 1 and %d`. -/
  | replicationFactor (nodes : ℕ)
deriving DecidableEq

/-- What a node plans with: its epoch, itself and its capacity, the members it knows. -/
structure Membership where
  epoch : ℕ
  localNodeID : GoString
  localAddress : GoString
  localCapacity : ℕ
  peers : List Peer

section Plan

variable (sha256 : GoString → GoString)

/-- `binary.BigEndian.PutUint32`. -/
def bigEndian32 (n : ℕ) : GoString :=
  [UInt8.ofNat (n / 2 ^ 24), UInt8.ofNat (n / 2 ^ 16), UInt8.ofNat (n / 2 ^ 8), UInt8.ofNat n]

/-- `placementScore`. -/
def placementScore (collection : GoString) (shardID : ℕ) (nodeID : GoString) : GoString :=
  sha256 (collection ++ [0] ++ bigEndian32 shardID ++ nodeID)

def placementTicketScore (collection : GoString) (shardID : ℕ) (nodeID : GoString) (ticket : ℕ) :
    GoString :=
  sha256 (collection ++ [0] ++ bigEndian32 shardID ++ nodeID ++ bigEndian32 ticket)

/-- `bytes.Compare(left, right) > 0`. -/
def above (left right : GoString) : Bool := !leString left right

def placementNodeScore (collection : GoString) (shardID : ℕ) (node : PlacementNode) : GoString :=
  (range' 1 (node.capacity - 1)).foldl (fun best ticket =>
    let score := placementTicketScore sha256 collection shardID node.nodeID ticket
    if above score best then score else best) (placementScore sha256 collection shardID node.nodeID)

/-- The capacity of a peer; if it is omitted, it is one. -/
def Peer.capacity (peer : Peer) : ℕ :=
  if peer.placementCapacity = 0 then 1 else peer.placementCapacity

/-- A peer with a new id. -/
def addPeer (nodes : List PlacementNode) (peer : Peer) : Except PlacementError (List PlacementNode) :=
  if peer.nodeID = [] then .ok nodes
  else if validNodeID peer.nodeID = false ∨ peer.advertiseAddress = [] then
    .error (.invalidPeer peer.seedURL)
  else if peer.nodeID ∈ nodes.map PlacementNode.nodeID then .error (.duplicateNode peer.nodeID)
  else if validPlacementCapacity peer.capacity = false then .error (.peerCapacity peer.nodeID)
  else .ok (nodes ++ [⟨peer.nodeID, peer.advertiseAddress, peer.capacity, peer.healthy, false⟩])

/-- The order by id. -/
def PlacementNode.LE (left right : PlacementNode) : Prop := StringLE left.nodeID right.nodeID
deriving Decidable

/-- The order by name. -/
def CatalogEntry.LE (left right : CatalogEntry) : Prop := StringLE left.name right.name
deriving Decidable

/-- The nodes of a plan, by id. -/
def placementNodes (members : Membership) : Except PlacementError (List PlacementNode) :=
  if members.epoch = 0 ∨ validNodeID members.localNodeID = false ∨ members.localAddress = [] then
    .error .invalidLocal
  else if validPlacementCapacity members.localCapacity = false then .error .localCapacity
  else do
    let nodes ← members.peers.foldlM addPeer
      [⟨members.localNodeID, members.localAddress, members.localCapacity, true, true⟩]
    return nodes.insertionSort PlacementNode.LE

/-- The node with the highest score. -/
def placementOwner (collection : GoString) (shardID : ℕ) : List PlacementNode → GoString
  | [] => []
  | node :: nodes =>
    (nodes.foldl (fun best node =>
      let score := placementNodeScore sha256 collection shardID node
      if above score best.1 then (score, node.nodeID) else best)
      (placementNodeScore sha256 collection shardID node, node.nodeID)).2

/-- All shards. -/
def tableShards (collections : List CatalogEntry) : List (GoString × ℕ) :=
  (collections.insertionSort CatalogEntry.LE).flatMap fun config =>
    (List.range config.shardCount).map fun shardID => (config.name, shardID)

/-- `PlanPlacementWithCapacity`. -/
def planPlacement (members : Membership) (collections : List CatalogEntry) :
    Except PlacementError PlacementTable := do
  let nodes ← placementNodes members
  return ⟨members.epoch, nodes, (tableShards collections).map fun shard =>
    ⟨shard.1, shard.2, placementOwner sha256 shard.1 shard.2 nodes⟩⟩

/-- The order of the candidates of a shard: the highest score first, then by node. -/
def CandidateLE (left right : GoString × GoString) : Prop :=
  above left.1 right.1 = true ∨ left.1 = right.1 ∧ StringLE left.2 right.2
deriving Decidable

/-- The best nodes. -/
def placementReplicas (replicationFactor : ℕ) (nodes : List PlacementNode) (collection : GoString)
    (shardID : ℕ) : List GoString :=
  (((nodes.map fun node => (placementNodeScore sha256 collection shardID node,
    node.nodeID)).insertionSort CandidateLE).map Prod.snd).take replicationFactor

/-- `PlanReplicaPlacementWithCapacity`. -/
def planReplicaPlacement (members : Membership) (collections : List CatalogEntry)
    (replicationFactor : ℕ) : Except PlacementError ReplicaPlacementTable := do
  let base ← planPlacement sha256 members collections
  if replicationFactor < 1 ∨ base.nodes.length < replicationFactor then
    .error (.replicationFactor base.nodes.length)
  else
    return ⟨members.epoch, replicationFactor, base.nodes, (tableShards collections).map fun shard =>
      let replicas := placementReplicas sha256 replicationFactor base.nodes shard.1 shard.2
      ⟨shard.1, shard.2, replicas.headD [], replicas⟩⟩

end Plan

/-! ### Tables -/

section Tables

variable {sha256 : GoString → GoString} {members : Membership} {collections : List CatalogEntry}

lemma addPeer_nodup {nodes nodes' : List PlacementNode} {peer : Peer}
    (h : addPeer nodes peer = .ok nodes') (hnodup : (nodes.map PlacementNode.nodeID).Nodup) :
    (nodes'.map PlacementNode.nodeID).Nodup := by
  rw [addPeer] at h
  split at h
  · rwa [← Except.ok.inj h]
  split at h
  · cases h
  split at h
  · cases h
  rename_i hnot
  split at h
  · cases h
  · rw [← Except.ok.inj h, map_append, map_singleton]
    exact hnodup.append (nodup_singleton _) (disjoint_singleton.2 hnot)

lemma foldlM_addPeer_nodup {peers : List Peer} {nodes nodes' : List PlacementNode}
    (h : peers.foldlM addPeer nodes = .ok nodes') (hnodup : (nodes.map PlacementNode.nodeID).Nodup) :
    (nodes'.map PlacementNode.nodeID).Nodup :=
  foldlM_invariant (P := fun nodes => (nodes.map PlacementNode.nodeID).Nodup)
    (fun _ _ _ _ hnodup h => addPeer_nodup h hnodup) hnodup h

lemma nodup_placementNodes {nodes : List PlacementNode} (h : placementNodes members = .ok nodes) :
    (nodes.map PlacementNode.nodeID).Nodup := by
  rw [placementNodes] at h
  split at h
  · cases h
  split at h
  · cases h
  obtain ⟨found, hfound, hnodes⟩ := bind_eq_ok.1 h
  rw [← Except.ok.inj hnodes]
  exact (((perm_insertionSort _ found).map _).nodup_iff).2
    (foldlM_addPeer_nodup hfound (nodup_singleton _))

/-- What a table says about a shard: as many replicas as the replication factor, all different,
the leader first. -/
structure ShardReplicaPlacement.Regular (placement : ShardReplicaPlacement)
    (replicationFactor : ℕ) : Prop where
  nodup : placement.replicas.Nodup
  length : placement.replicas.length = replicationFactor
  leader : placement.replicas.head? = some placement.leaderID

theorem regular_of_planReplicaPlacement {replicationFactor : ℕ} {table : ReplicaPlacementTable}
    (h : planReplicaPlacement sha256 members collections replicationFactor = .ok table)
    {placement : ShardReplicaPlacement} (hmem : placement ∈ table.shards) :
    placement.Regular replicationFactor := by
  obtain ⟨base, hbase, htable⟩ := bind_eq_ok.1 h
  obtain ⟨nodes, hnodes, hbase⟩ := bind_eq_ok.1 hbase
  cases hbase
  split at htable
  · cases htable
  rename_i hfac
  rw [not_or, not_lt, not_lt] at hfac
  rw [← Except.ok.inj htable] at hmem
  obtain ⟨shard, -, rfl⟩ := mem_map.1 hmem
  -- The candidates are the nodes in another order.
  have hperm : (((nodes.map fun node => (placementNodeScore sha256 shard.1 shard.2 node,
      node.nodeID)).insertionSort CandidateLE).map Prod.snd).Perm
        (nodes.map PlacementNode.nodeID) := by
    have hsort := (perm_insertionSort CandidateLE (nodes.map fun node =>
      (placementNodeScore sha256 shard.1 shard.2 node, node.nodeID))).map Prod.snd
    rwa [map_map] at hsort
  have hlength : (placementReplicas sha256 replicationFactor nodes shard.1 shard.2).length =
      replicationFactor := by
    rw [placementReplicas, length_take, hperm.length_eq, length_map]
    exact min_eq_left hfac.2
  refine ⟨?_, hlength, ?_⟩
  · exact ((hperm.nodup_iff).2 (nodup_placementNodes hnodes)).sublist (take_sublist _ _)
  · dsimp only
    cases hreps : placementReplicas sha256 replicationFactor nodes shard.1 shard.2 with
    | nil =>
      rw [hreps] at hlength
      rw [← hlength] at hfac
      exact absurd hfac.1 (by decide)
    | cons leader replicas => rfl

end Tables

end GideonDB.Cluster
