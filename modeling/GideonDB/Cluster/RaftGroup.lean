/-
A group of stores that exchange messages: the metadata Raft group as a whole.

The state keeps every message and answer ever sent, so that a message can be lost,
repeated, delayed and overtaken: delivering one refers to it by its position and
leaves it where it is.  A node acts as leader in a term in which it has counted a
quorum of votes (`winners`).  What nodes have applied is recorded entry by entry.

Requests carry the state their sender had when it sent them; nothing a node does depends
on these copies.  `ChangeVoters` is run step by step: `Change` is what the call keeps in
its local variables while it holds `proposalMu`.
-/
import GideonDB.Cluster.RaftOpen

namespace GideonDB.Cluster

open Go

/-- A vote request and the state its sender stands with. -/
structure Candidacy where
  request : RequestVoteRequest
  state : RaftPersistentState

/-- `voter` answered a vote request of `candidate` in `term` with a granted vote. -/
structure Grant where
  voter : GoString
  term : ℕ
  candidate : GoString
deriving DecidableEq

/-- An append request and the state of the leader that sent it. -/
structure AppendMessage where
  request : AppendEntriesRequest
  sender : RaftPersistentState

/-- `node` answered a request of `leader` in `term` with success up to `index`. -/
structure Acknowledgement where
  node : GoString
  leader : GoString
  term : ℕ
  index : ℕ
deriving DecidableEq

/-- `node` applied `command` at `index`. -/
structure AppliedCommand where
  node : GoString
  index : ℕ
  command : MetadataCommand
deriving DecidableEq

/-- How far a call of `ChangeVoters` has come. -/
inductive Stage
  /-- The configuration is read and checked. -/
  | started
  /-- The begin entry is appended at this index. -/
  | begun (index : ℕ)
  /-- The begin entry is committed. -/
  | joint
  /-- The finalize entry is appended at this index. -/
  | finalized (index : ℕ)
deriving DecidableEq

/-- A call of `ChangeVoters` in progress. -/
structure Change where
  term : ℕ
  epoch : ℕ
  oldVoters : List GoString
  newVoters : List GoString
  view : ViewDigests
  stage : Stage

/-- Its begin entry. -/
def Change.begin (c : Change) : MetadataCommand :=
  ⟨.beginJointConsensus, c.epoch, [], [], [], [], c.oldVoters, c.newVoters⟩

/-- Its finalize entry. -/
def Change.finalize (c : Change) : MetadataCommand :=
  ⟨.finalizeJointConsensus, addOne c.epoch, c.view.membership, c.view.catalog, c.view.placement,
    c.view.capacityManifest, c.oldVoters, c.newVoters⟩

/-- The stores and everything that has been sent. -/
structure Group where
  store : GoString → RaftStore
  candidacies : List Candidacy
  grants : List Grant
  winners : List (GoString × ℕ)
  appends : List AppendMessage
  snapshots : List InstallSnapshotRequest
  acks : List Acknowledgement
  applied : List AppliedCommand
  changes : GoString → Option Change

/-- What can happen. -/
inductive Event
  | beginElection (node : GoString)
  | requestVote (node : GoString) (message : ℕ)
  | countVotes (node : GoString) (votes : List GoString)
  | observeTerm (node : GoString) (term : ℕ)
  | appendCommand (node : GoString) (command : MetadataCommand)
  | propose (node : GoString) (command : MetadataCommand)
  | sendAppend (node : GoString) (nextIndex limit : ℕ)
  | appendEntries (node : GoString) (message : ℕ)
  | sendSnapshot (node : GoString)
  | installSnapshot (node : GoString) (message : ℕ)
  | commit (node : GoString) (index : ℕ) (acknowledgements : List GoString)
  | compact (node : GoString)
  | restart (node : GoString)
  | changeVoters (node : GoString) (newVoters : List GoString) (view : ViewDigests)
  | beginJoint (node : GoString)
  | commitJoint (node : GoString) (acknowledgements : List GoString)
  | finalizeJoint (node : GoString)
  | commitFinal (node : GoString) (acknowledgements : List GoString)

/-- The node that acts. -/
def Event.node : Event → GoString
  | .beginElection n | .requestVote n _ | .countVotes n _ | .observeTerm n _
  | .appendCommand n _ | .propose n _ | .sendAppend n _ _ | .appendEntries n _
  | .sendSnapshot n | .installSnapshot n _ | .commit n _ _ | .compact n | .restart n
  | .changeVoters n _ _ | .beginJoint n | .commitJoint n _ | .finalizeJoint n
  | .commitFinal n _ => n

namespace Group

/-- The store of a node that was opened for the first time and, when it is one of the
founding voters, configured with them. -/
def founder (bootstrapEpoch : ℕ) (voters : List GoString) (n : GoString) : RaftStore :=
  let r : RaftStore := ⟨n, .bootstrap bootstrapEpoch, .bootstrap bootstrapEpoch⟩
  if n ∈ voters then (r.configureVoters voters true).2 else r

/-- A new group. -/
def init (bootstrapEpoch : ℕ) (voters : List GoString) : Group where
  store := founder bootstrapEpoch voters
  candidacies := []
  grants := []
  winners := []
  appends := []
  snapshots := []
  acks := []
  applied := []
  changes _ := none

/-- The state in memory. -/
def state (g : Group) (n : GoString) : RaftPersistentState := (g.store n).state

/-- One store changes. -/
def setStore (g : Group) (n : GoString) (r : RaftStore) : Group :=
  { g with store := Function.update g.store n r }

/-- Sets a node's change. -/
def setChange (g : Group) (n : GoString) (c : Option Change) : Group :=
  { g with changes := Function.update g.changes n c }

/-- The node has counted a quorum of votes in its current term. -/
def leads (g : Group) (n : GoString) : Bool := g.winners.contains (n, (g.state n).currentTerm)

/-- Every node of the list is the leader itself or has acknowledged `index` to it. -/
def acknowledged (g : Group) (leader : GoString) (term index : ℕ) (nodes : List GoString) : Bool :=
  nodes.all fun v => v == leader ||
    g.acks.any fun a => a.node == v && a.leader == leader && a.term == term && a.index ≥ index

/-- What a call has applied. -/
def newlyApplied (n : GoString) (before after : RaftPersistentState) : List AppliedCommand :=
  (List.range' before.commitIndex (after.commitIndex - before.commitIndex)).filterMap fun i =>
    after.entries[i - after.snapshotIndex]?.map fun entry => ⟨n, i + 1, entry.command⟩

/-- What a call applied is recorded. -/
def advance (g : Group) (n : GoString) (r : RaftStore) : Group :=
  { g.setStore n r with applied := g.applied ++ newlyApplied n (g.state n) r.state }

/-! ### Elections -/

/-- A node stands for election. -/
def beginElection (g : Group) (n : GoString) : Option Group :=
  match (g.store n).beginElection true with
  | (.error _, r) => some (g.setStore n r)
  | (.ok request, r) =>
    some { g.setStore n r with
      candidacies := g.candidacies ++ [⟨request, r.state⟩]
      grants := g.grants ++ [⟨n, request.term, n⟩] }

/-- The grant, if any. -/
def granted (voter : GoString) (request : RequestVoteRequest) :
    Except RaftError RequestVoteResponse → List Grant
  | .ok response => if response.voteGranted then [⟨voter, request.term, request.candidateID⟩] else []
  | .error _ => []

/-- A vote request reaches a node other than its sender. -/
def requestVote (g : Group) (n : GoString) (message : ℕ) : Option Group :=
  match g.candidacies[message]? with
  | none => none
  | some c =>
    if c.request.candidateID = n then none
    else
      let call := (g.store n).requestVote c.request true
      some { g.setStore n call.2 with grants := g.grants ++ granted n c.request call.1 }

/-- A candidate finds a quorum among the votes granted to it in its current term. -/
def countVotes (g : Group) (n : GoString) (votes : List GoString) : Option Group :=
  if votes.all (fun v => g.grants.contains ⟨v, (g.state n).currentTerm, n⟩) ∧
      (g.state n).hasVoterQuorum votes then
    some { g with winners := g.winners ++ [(n, (g.state n).currentTerm)] }
  else none

/-- A node hears of a term. -/
def observeTerm (g : Group) (n : GoString) (term : ℕ) : Option Group :=
  some (g.setStore n ((g.store n).observeTerm term true).2)

/-! ### Replication -/

/-- A leader that is not in the middle of another proposal appends a command. -/
def appendCommand (g : Group) (n : GoString) (command : MetadataCommand) : Option Group :=
  if g.leads n ∧ (g.changes n).isNone then
    some (g.setStore n ((g.store n).appendCommand (g.state n).currentTerm command true).2)
  else none

/-- `Propose` up to its `AppendCommand`. -/
def propose (g : Group) (n : GoString) (command : MetadataCommand) : Option Group :=
  if command.epoch = addOne (g.state n).appliedEpoch then g.appendCommand n command else none

/-- A leader sends entries. -/
def sendAppend (g : Group) (n : GoString) (nextIndex limit : ℕ) : Option Group :=
  if g.leads n then
    match (g.state n).logBatch nextIndex limit with
    | .error _ => none
    | .ok batch =>
      some { g with
        appends := g.appends ++ [⟨⟨batch.term, n, batch.prevIndex, batch.prevTerm, batch.entries,
          batch.commitIndex⟩, g.state n⟩] }
  else none

/-- The acknowledgement, if any. -/
def accepted (node leader : GoString) (term : ℕ) :
    Except RaftError AppendEntriesResponse → List Acknowledgement
  | .ok response => if response.success then [⟨node, leader, term, response.matchIndex⟩] else []
  | .error _ => []

/-- An append request reaches a node other than its sender. -/
def appendEntries (g : Group) (n : GoString) (message : ℕ) : Option Group :=
  match g.appends[message]? with
  | none => none
  | some m =>
    if m.request.leaderID = n then none
    else
      let call := (g.store n).appendEntries m.request true
      some { g.advance n call.2 with
        acks := g.acks ++ accepted n m.request.leaderID m.request.term call.1 }

/-- A leader sends a snapshot. -/
def sendSnapshot (g : Group) (n : GoString) : Option Group :=
  if g.leads n then
    match (g.state n).snapshot with
    | none => none
    | some snapshot =>
      some { g with snapshots := g.snapshots ++ [⟨(g.state n).currentTerm, n, snapshot⟩] }
  else none

/-- A snapshot request reaches a node other than its sender. -/
def installSnapshot (g : Group) (n : GoString) (message : ℕ) : Option Group :=
  match g.snapshots[message]? with
  | none => none
  | some request =>
    if request.leaderID = n then none
    else
      let call := (g.store n).installSnapshot request true
      some { g.setStore n call.2 with
        acks := g.acks ++ accepted n request.leaderID request.term call.1 }

/-- A leader that is not in the middle of a membership change commits an entry. -/
def commit (g : Group) (n : GoString) (index : ℕ) (nodes : List GoString) : Option Group :=
  if g.leads n ∧ (g.changes n).isNone ∧
      g.acknowledged n (g.state n).currentTerm index nodes then
    some (g.advance n
      ((g.store n).commitWithVoterAcks index (g.state n).currentTerm nodes true).2)
  else none

/-- A node compacts its log. -/
def compact (g : Group) (n : GoString) : Option Group :=
  some (g.setStore n ((g.store n).compactCommitted true).2)

/-- The process dies and is started again.  A node whose file does not validate stays
down. -/
def restart (bootstrapEpoch : ℕ) (g : Group) (n : GoString) : Option Group :=
  match openRaftStore n bootstrapEpoch (some (g.store n).file) true with
  | .error _ => none
  | .ok r => some ((g.setStore n r).setChange n none)

/-! ### Membership changes -/

/-- `ChangeVoters` reads the configuration and checks the request. -/
def changeVoters (g : Group) (n : GoString) (newVoters : List GoString) (view : ViewDigests) :
    Option Group :=
  let s := g.state n
  if g.leads n ∧ (g.changes n).isNone ∧ validView view ∧ s.jointOldVoters = [] ∧
      s.jointNewVoters = [] ∧ Canonical newVoters ∧
      voterSetDifference s.voters newVoters = 1 then
    some (g.setChange n
      (some ⟨s.currentTerm, s.appliedEpoch, s.voters, newVoters, view, .started⟩))
  else none

/-- `ChangeVoters` appends the begin entry. -/
def beginJoint (g : Group) (n : GoString) : Option Group :=
  match g.changes n with
  | none => none
  | some c =>
    if c.stage = .started then
      match (g.store n).appendCommand c.term c.begin true with
      | (.error _, r) => some ((g.setStore n r).setChange n none)
      | (.ok index, r) => some ((g.setStore n r).setChange n (some { c with stage := .begun index }))
    else none

/-- `ChangeVoters` commits the begin entry, once every joining node has it. -/
def commitJoint (g : Group) (n : GoString) (nodes : List GoString) : Option Group :=
  match g.changes n with
  | none => none
  | some c =>
    match c.stage with
    | .begun index =>
      if ¬ g.acknowledged n c.term index nodes then none
      else if ¬ c.newVoters.all (fun v => containsString c.oldVoters v || nodes.contains v) then
        some (g.setChange n none)
      else
        match (g.store n).commitWithVoterAcks index c.term nodes true with
        | (.error _, r) => some ((g.advance n r).setChange n none)
        | (.ok (), r) => some ((g.advance n r).setChange n (some { c with stage := .joint }))
    | _ => none

/-- `ChangeVoters` appends the finalize entry. -/
def finalizeJoint (g : Group) (n : GoString) : Option Group :=
  match g.changes n with
  | none => none
  | some c =>
    if c.stage = .joint then
      match (g.store n).appendCommand c.term c.finalize true with
      | (.error _, r) => some ((g.setStore n r).setChange n none)
      | (.ok index, r) =>
        some ((g.setStore n r).setChange n (some { c with stage := .finalized index }))
    else none

/-- `ChangeVoters` commits the finalize entry and returns. -/
def commitFinal (g : Group) (n : GoString) (nodes : List GoString) : Option Group :=
  match g.changes n with
  | none => none
  | some c =>
    match c.stage with
    | .finalized index =>
      if g.acknowledged n c.term index nodes then
        some ((g.advance n
          ((g.store n).commitWithVoterAcks index c.term nodes true).2).setChange n none)
      else none
    | _ => none

/-! ### Runs -/

/-- One event, if it can happen. -/
def step (bootstrapEpoch : ℕ) (g : Group) (event : Event) : Option Group :=
  if ¬ validNodeID event.node then none
  else
    match event with
    | .beginElection n => g.beginElection n
    | .requestVote n message => g.requestVote n message
    | .countVotes n votes => g.countVotes n votes
    | .observeTerm n term => g.observeTerm n term
    | .appendCommand n command => g.appendCommand n command
    | .propose n command => g.propose n command
    | .sendAppend n nextIndex limit => g.sendAppend n nextIndex limit
    | .appendEntries n message => g.appendEntries n message
    | .sendSnapshot n => g.sendSnapshot n
    | .installSnapshot n message => g.installSnapshot n message
    | .commit n index nodes => g.commit n index nodes
    | .compact n => g.compact n
    | .restart n => g.restart bootstrapEpoch n
    | .changeVoters n newVoters view => g.changeVoters n newVoters view
    | .beginJoint n => g.beginJoint n
    | .commitJoint n nodes => g.commitJoint n nodes
    | .finalizeJoint n => g.finalizeJoint n
    | .commitFinal n nodes => g.commitFinal n nodes

/-- A run of allowed events. -/
def run (allowed : Group → Event → Prop) [∀ g event, Decidable (allowed g event)]
    (bootstrapEpoch : ℕ) : Group → List Event → Option Group
  | g, [] => some g
  | g, event :: events =>
    if allowed g event then
      match g.step bootstrapEpoch event with
      | none => none
      | some g' => g'.run allowed bootstrapEpoch events
    else none

/-- The states a group founded with `voters` can reach by events that are allowed where
they happen. -/
inductive Reachable (bootstrapEpoch : ℕ) (voters : List GoString) (allowed : Group → Event → Prop) :
    Group → Prop
  | init : Reachable bootstrapEpoch voters allowed (init bootstrapEpoch voters)
  | step {g g' : Group} {event : Event} (h : Reachable bootstrapEpoch voters allowed g)
      (hallow : allowed g event) (hstep : g.step bootstrapEpoch event = some g') :
      Reachable bootstrapEpoch voters allowed g'

lemma Reachable.run {epoch : ℕ} {voters : List GoString} {allowed : Group → Event → Prop}
    [∀ g event, Decidable (allowed g event)] {g g' : Group} {events : List Event}
    (h : Reachable epoch voters allowed g) (hrun : g.run allowed epoch events = some g') :
    Reachable epoch voters allowed g' := by
  induction events generalizing g with
  | nil =>
    rw [Group.run, Option.some.injEq] at hrun
    exact hrun ▸ h
  | cons event events ih =>
    rw [Group.run] at hrun
    split at hrun
    · rename_i hallow
      split at hrun
      · simp at hrun
      · rename_i g₁ hstep
        exact ih (.step h hallow hstep) hrun
    · simp at hrun

end Group

/-- No election is begun in the last term of the range of a `uint64`: the next one would
be term zero again. -/
def Event.termFits (g : Group) : Event → Prop
  | .beginElection n => (g.state n).currentTerm + 1 < 2 ^ 64
  | _ => True

instance (g : Group) (event : Event) : Decidable (event.termFits g) := by
  induction event using Event.casesOn <;> dsimp only [Event.termFits] <;> infer_instance

end GideonDB.Cluster
