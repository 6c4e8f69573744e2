/-
The replicas of one shard.

The leader writes to its own log and sends what it has written to the other replicas, which
append it at the same sequence.  A replica that has a gap is sent a snapshot of the leader.
Messages may be lost, delivered late and delivered again, so a message that has been sent can be
delivered at any time and any number of times.  The checks of `validateInternalFence` and of the
sender's term and placement can only refuse a message, so the model delivers every one.

Writes are taken only while `clusterReadinessState` finds all peers at the local epoch, with the
local digests.  So one leader is accepted at a time, and a commit is one of the group's leader.
-/
import GideonDB.Cluster.Placement
import GideonDB.Engine.Idempotency

namespace GideonDB.Replication

open Go GideonDB.Core Engine Cluster

/-- The acknowledgement levels. -/
inductive Acknowledgement
  | leader | quorum | all
deriving DecidableEq

def requiredAcknowledgements (level : Acknowledgement) (replicationFactor : ℕ) : ℕ :=
  match level with
  | .leader => 1
  | .all => replicationFactor
  | .quorum => replicationFactor / 2 + 1

/-! ### Messages -/

/-- `replicaAppendRequest`, with its operation, and `replicaSnapshotRequest`. -/
inductive Message
  | append (sequence : ℕ) (records : List Record)
  | delete (sequence : ℕ) (ns id : GoString)
  | snapshot (sequence : ℕ) (records : List Record)

namespace Message

/-- The sequence it carries. -/
def sequence : Message → ℕ
  | append sequence _ => sequence
  | delete sequence _ _ => sequence
  | snapshot sequence _ => sequence

/-- What the handler of the request does. -/
def op : Message → Op
  | append sequence records => .applyReplicaBatch sequence records
  | delete sequence ns id => .applyReplicaDelete sequence ns id
  | snapshot sequence records => .installReplicaSnapshot sequence records

/-- The request as the receiver decodes it; `none` if it cannot be encoded. -/
def throughJSON (env : Env) : Message → Option Message
  | append sequence records => (records.mapM env.codec).map (append sequence)
  | delete sequence ns id => some (delete sequence (coerceUTF8 ns) (coerceUTF8 id))
  | snapshot sequence records => (records.mapM env.codec).map (snapshot sequence)

end Message

/-- The answer of a replica to a request. -/
structure Answer where
  replica : GoString
  message : Message
  result : Except Engine.Error Unit

/-- Whether the code of the answer makes the leader send a snapshot. -/
def Answer.asksForSnapshot (answer : Answer) (sequence : ℕ) : Bool :=
  match answer.message, answer.result with
  | .append s _, .error (.replicationGap _ _) => s = sequence
  | .append s _, .error .replicationCompacted => s = sequence
  | _, _ => false

/-! ### The group -/

/-- A batch for `commitLeaderShardBatch`, with or without a key. -/
inductive Write
  | plain (prepared : List Record)
  | keyed (key : GoString) (request prepared : List Record)

namespace Write

/-- `BatchUpsertShardIdempotent`. -/
def prog (env : Env) : Write → Action (List Record × ℕ)
  | plain prepared => batchUpsert env prepared
  | keyed key request prepared => batchUpsertIdempotent env key request prepared

/-- What the engine does. -/
def op : Write → Op
  | plain prepared => .batchUpsert prepared
  | keyed key request prepared => .batchUpsertIdempotent key request prepared

lemma prog_op (env : Env) (write : Write) :
    write.op.prog env = (write.prog env >>= fun _ => pure ()) := by
  cases write <;> rfl

end Write

/-- A call of `commitLeaderShardBatch` after the engine has returned: the replicas of the shard,
and those that have acknowledged the batch so far. -/
structure Fanout where
  sequence : ℕ
  records : List Record
  replicas : List GoString
  replicationFactor : ℕ
  level : Acknowledgement
  acknowledged : List GoString

/-- The call returns without an error. -/
def Fanout.Returns (fanout : Fanout) : Prop :=
  requiredAcknowledgements fanout.level fanout.replicationFactor ≤ fanout.acknowledged.length

/-- The replicas of a shard and the network between them. -/
structure Group where
  leader : GoString
  node : GoString → Node
  /-- What the leader has to send: the writes that its engine has returned. -/
  issued : List Message
  sent : List (GoString × Message)
  answers : List Answer
  fanouts : List Fanout
  /-- Not part of the program: the mutations of the leader's log from the first on. -/
  history : List Mutation

namespace Group

/-- New shards, nothing sent. -/
def new (env : Env) (leader : GoString) : Group :=
  ⟨leader, fun _ => Node.new env, [], [], [], [], []⟩

/-- What can happen. -/
inductive Event
  /-- `commitLeaderShardBatch` on the node of `members`. -/
  | commit (members : Membership) (config : CatalogEntry) (replicationFactor : ℕ)
      (level : Acknowledgement) (write : Write)
  /-- The engine call of `commitLeaderShardDelete`. -/
  | delete (ns id : GoString)
  /-- A write of the leader that is not replicated. -/
  | upsert (record : Record)
  | checkpoint (replica : GoString)
  /-- A request is sent, for the first time or again. -/
  | send (target : GoString) (index : ℕ)
  /-- A snapshot of the leader is sent, after a gap or by a repair pass. -/
  | snapshot (target : GoString)
  | deliver (index : ℕ)
  /-- A fan-out takes an answer for an acknowledgement. -/
  | acknowledge (fanout answer : ℕ)
  /-- The shard gets another leader. -/
  | move (leader : GoString)

/-- One replica changes. -/
def setNode (g : Group) (replica : GoString) (n' : Node) : Group :=
  { g with node := Function.update g.node replica n' }

/-- The mutation that an operation has added to the log. -/
def logged (op : Op) (n n' : Node) : List Mutation :=
  if n'.nextLSN = n.nextLSN then [] else (op.mutation n).toList

/-- The leader after an operation of its own. -/
def setLeader (g : Group) (op : Op) (n' : Node) : Group :=
  { g.setNode g.leader n' with history := g.history ++ logged op (g.node g.leader) n' }

/-- The placement of the shard, if it names the node itself as the leader. -/
def plannedReplicas (sha256 : GoString → GoString) (env : Env) (members : Membership)
    (config : CatalogEntry) (replicationFactor : ℕ) : Option (List GoString) :=
  match planReplicaPlacement sha256 members [config] replicationFactor with
  | .error _ => none
  | .ok table =>
    match table.shards.find? fun placement => placement.shardID = env.shardID with
    | none => none
    | some placement =>
      if placement.leaderID = members.localNodeID then some placement.replicas else none

/-- `commitLeaderShardBatch` up to the fan-out. -/
def commit (env : Env) (replicas : List GoString) (replicationFactor : ℕ)
    (level : Acknowledgement) (write : Write) (g : Group) : Group :=
  let outcome := (write.prog env).eval (g.node g.leader)
  let g' := g.setLeader write.op outcome.1
  match outcome.2 with
  | .error _ => g'
  | .ok (records, sequence) => { g' with
      issued := g.issued ++ [.append sequence records]
      fanouts := g.fanouts ++ [⟨sequence, records, replicas, replicationFactor, level,
        [g.leader]⟩] }

/-- `commitLeaderShardDelete` up to the fan-out. -/
def commitDelete (env : Env) (ns id : GoString) (g : Group) : Group :=
  let outcome := (Engine.delete env ns id).eval (g.node g.leader)
  let g' := g.setLeader (.delete ns id) outcome.1
  match outcome.2 with
  | .error _ => g'
  | .ok sequence => { g' with issued := g.issued ++ [.delete sequence ns id] }

/-- A request is on its way. -/
def post (env : Env) (target : GoString) (message : Message) (g : Group) : Option Group :=
  (message.throughJSON env).map fun message => { g with sent := g.sent ++ [(target, message)] }

/-- The handler of a replica runs, and answers. -/
def deliver (env : Env) (target : GoString) (message : Message) (g : Group) : Group :=
  let outcome := (message.op.prog env).eval (g.node target)
  { g.setNode target outcome.1 with answers := g.answers ++ [⟨target, message, outcome.2⟩] }

/-- `remoteReplicaAppend` returns without an error: the replica has appended the batch, or it has
asked for a snapshot and installed one that is not behind the batch. -/
def succeeds (g : Group) (fanout : Fanout) (answer : Answer) : Bool :=
  match answer.message, answer.result with
  | .append sequence _, .ok () => sequence = fanout.sequence
  | .snapshot sequence _, .ok () => fanout.sequence ≤ sequence && g.answers.any fun earlier =>
    earlier.replica = answer.replica && earlier.asksForSnapshot fanout.sequence
  | _, _ => false

/-- It counts the replica. -/
def acknowledge (index : ℕ) (fanout : Fanout) (answer : Answer) (g : Group) : Option Group :=
  if answer.replica ∈ fanout.replicas.tail ∧ answer.replica ∉ fanout.acknowledged ∧
      g.succeeds fanout answer = true then
    some { g with fanouts := g.fanouts.set index { fanout with
      acknowledged := fanout.acknowledged ++ [answer.replica] } }
  else none

/-- One step of the group; `none` if the event cannot happen. -/
def step (sha256 : GoString → GoString) (env : Env) (g : Group) : Event → Option Group
  | .commit members config replicationFactor level write =>
    if members.localNodeID = g.leader then
      (plannedReplicas sha256 env members config replicationFactor).map fun replicas =>
        g.commit env replicas replicationFactor level write
    else none
  | .delete ns id => some (g.commitDelete env ns id)
  | .upsert record => some (g.setLeader (.upsert record)
      (((Op.upsert record).prog env).eval (g.node g.leader)).1)
  | .checkpoint replica => some (g.setNode replica ((checkpointShard env).eval (g.node replica)).1)
  | .send target index => g.issued[index]?.bind fun message => g.post env target message
  | .snapshot target => g.post env target
      (.snapshot (exportReplicaSnapshot (g.node g.leader)).1 (exportReplicaSnapshot (g.node g.leader)).2)
  | .deliver index => g.sent[index]?.map fun request => g.deliver env request.1 request.2
  | .acknowledge fanout answer => g.fanouts[fanout]?.bind fun f => g.answers[answer]?.bind fun a =>
    g.acknowledge fanout f a
  | .move leader => some { g with leader := leader }

/-- A sequence of events. -/
def run (sha256 : GoString → GoString) (env : Env) (g : Group) (events : List Event) :
    Option Group :=
  events.foldlM (fun g event => g.step sha256 env event) g

/-- A run of allowed events. -/
def Reaches (sha256 : GoString → GoString) (env : Env) (allowed : Group → Event → Prop) :
    Group → Group → Prop :=
  Relation.ReflTransGen fun g g' => ∃ event, allowed g event ∧ g.step sha256 env event = some g'

lemma reaches_of_run {sha256 : GoString → GoString} {env : Env} {allowed : Group → Event → Prop}
    {events : List Event} (hallow : ∀ event ∈ events, ∀ g, allowed g event) {g g' : Group}
    (hrun : g.run sha256 env events = some g') : Reaches sha256 env allowed g g' := by
  induction events generalizing g with
  | nil =>
    cases hrun
    exact .refl
  | cons event events ih =>
    rw [run, List.foldlM_cons] at hrun
    obtain ⟨mid, hmid, hrest⟩ := Option.bind_eq_some_iff.1 hrun
    exact .head ⟨event, hallow event List.mem_cons_self g, hmid⟩
      (ih (List.forall_mem_cons.1 hallow).2 hrest)

end Group

end GideonDB.Replication
