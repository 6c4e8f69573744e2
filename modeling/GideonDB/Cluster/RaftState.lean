/-
The persistent state of the metadata Raft group: commands, log entries, the record
that is written to `CLUSTER_RAFT.json`, and the functions of the source that only
read it.

Terms and epochs are `uint64` in the source; where it adds one to them the sum wraps
around (`addOne`).  Log indexes are natural numbers: they count entries, except after an
`InstallSnapshot`, which takes over any index (`StoreCall.inRange` keeps them in range).
-/
import GideonDB.Cluster.Voters

namespace GideonDB.Cluster

open Go

/-- `n + 1` for a `uint64`. -/
def addOne (n : ℕ) : ℕ := (n + 1) % 2 ^ 64

/-- The types of a command. -/
inductive CommandType
  | advanceEpoch
  | beginJointConsensus
  | finalizeJointConsensus
  /-- Any other text. -/
  | unknown (name : GoString)
deriving DecidableEq, Repr

/-- `MetadataCommand`. -/
structure MetadataCommand where
  type : CommandType
  epoch : ℕ
  membershipDigest : GoString
  catalogDigest : GoString
  placementDigest : GoString
  capacityManifest : GoString
  oldVoters : List GoString
  newVoters : List GoString
deriving DecidableEq, Repr

/-- `RaftEntry`. -/
@[ext] structure RaftEntry where
  term : ℕ
  command : MetadataCommand
deriving DecidableEq, Repr

/-- `raftPersistentState`. -/
@[ext] structure RaftPersistentState where
  format : ℕ
  currentTerm : ℕ
  votedFor : GoString
  commitIndex : ℕ
  appliedEpoch : ℕ
  snapshotIndex : ℕ
  snapshotTerm : ℕ
  snapshotEpoch : ℕ
  snapshotView : Option ViewDigests
  voters : List GoString
  jointOldVoters : List GoString
  jointNewVoters : List GoString
  committedView : Option ViewDigests
  entries : List RaftEntry
deriving DecidableEq, Repr

/-! ### Commands and entries -/

/-- The digests of a command. -/
def commandView (command : MetadataCommand) : ViewDigests :=
  ⟨command.membershipDigest, command.catalogDigest, command.placementDigest,
    command.capacityManifest⟩

/-- The check `validateRaftEntry` makes of the voter lists of a joint-consensus command:
both are canonical and they differ in one node. -/
def validTransition (command : MetadataCommand) : Bool :=
  decide (Canonical command.oldVoters) && decide (Canonical command.newVoters) &&
    voterSetDifference command.oldVoters command.newVoters == 1

def validateRaftEntry (entry : RaftEntry) : Except RaftError Unit :=
  let command := entry.command
  if entry.term = 0 then .error (.text "invalid metadata log entry")
  else
    match command.type with
    | .advanceEpoch =>
      if command.epoch < 2 ∨ command.oldVoters ≠ [] ∨ command.newVoters ≠ [] ∨
          ¬ validView (commandView command) then
        .error (.text "invalid metadata log entry")
      else .ok ()
    | .beginJointConsensus =>
      if command.epoch = 0 ∨ ¬ validTransition command then
        .error (.text "invalid joint-consensus begin entry")
      else .ok ()
    | .finalizeJointConsensus =>
      if command.epoch < 2 ∨ ¬ validTransition command ∨ ¬ validView (commandView command) then
        .error (.text "invalid joint-consensus finalize entry")
      else .ok ()
    | .unknown _ => .error (.text "invalid metadata log entry")

/-- An entry `validateRaftEntry` accepts. -/
def ValidEntry (entry : RaftEntry) : Prop := validateRaftEntry entry = .ok ()
deriving Decidable

namespace RaftPersistentState

/-- `lastLogLocked`: the index and the term of the last entry. -/
def lastLogLocked (s : RaftPersistentState) : ℕ × ℕ :=
  match s.entries.getLast? with
  | none => (s.snapshotIndex, s.snapshotTerm)
  | some entry => (s.snapshotIndex + s.entries.length, entry.term)

/-- `termAtLocked`. -/
def termAtLocked (s : RaftPersistentState) (index : ℕ) : Except RaftError ℕ :=
  if index = s.snapshotIndex then .ok s.snapshotTerm
  else if index < s.snapshotIndex then
    .error (.text "Raft log index is outside retained range")
  else
    match s.entries[index - s.snapshotIndex - 1]? with
    | none => .error (.text "Raft log index is outside retained range")
    | some entry => .ok entry.term

/-- The entry at an index. -/
def entryAt (s : RaftPersistentState) (index : ℕ) : Option RaftEntry :=
  if index ≤ s.snapshotIndex then none else s.entries[index - s.snapshotIndex - 1]?

def activeVotersLocked (s : RaftPersistentState) : List GoString :=
  if s.jointOldVoters = [] then s.voters
  else sortStrings (stringSet (s.jointOldVoters ++ s.jointNewVoters))

/-- `HasVoterQuorum`. -/
def hasVoterQuorum (s : RaftPersistentState) (acknowledgements : List GoString) : Bool :=
  if s.jointOldVoters ≠ [] then
    voterMajority s.jointOldVoters acknowledgements &&
      voterMajority s.jointNewVoters acknowledgements
  else voterMajority s.voters acknowledgements

/-! ### Applying committed entries -/

end RaftPersistentState

/-- What `applyThroughLocked` computes: the commit index and the metadata applied up
to it. -/
@[ext] structure Applied where
  commitIndex : ℕ
  appliedEpoch : ℕ
  committedView : Option ViewDigests
  voters : List GoString
  jointOld : List GoString
  jointNew : List GoString
deriving DecidableEq, Repr

/-- The local variables of `applyThroughLocked` before its loop. -/
def RaftPersistentState.applied (s : RaftPersistentState) : Applied :=
  ⟨s.commitIndex, s.appliedEpoch, s.committedView, s.voters, s.jointOldVoters, s.jointNewVoters⟩

/-- One round of the loop of `applyThroughLocked`. -/
def Applied.apply (a : Applied) (command : MetadataCommand) : Except RaftError Applied :=
  match command.type with
  | .advanceEpoch =>
    if a.jointOld ≠ [] ∨ command.epoch > addOne a.appliedEpoch ∨
        command.epoch < a.appliedEpoch then
      .error (.text "metadata epoch must advance exactly once")
    else if command.epoch = addOne a.appliedEpoch then
      .ok { a with
        commitIndex := a.commitIndex + 1
        appliedEpoch := command.epoch
        committedView := some (commandView command) }
    else if a.committedView ≠ some (commandView command) then
      .error (.text "duplicate metadata epoch has conflicting view digests")
    else .ok { a with commitIndex := a.commitIndex + 1 }
  | .beginJointConsensus =>
    let voters := if a.voters = [] then command.oldVoters else a.voters
    if command.epoch ≠ a.appliedEpoch ∨ a.jointOld ≠ [] ∨ command.oldVoters ≠ voters then
      .error (.text "invalid joint-consensus begin")
    else
      .ok { a with
        commitIndex := a.commitIndex + 1
        voters := voters
        jointOld := command.oldVoters
        jointNew := command.newVoters }
  | .finalizeJointConsensus =>
    if command.epoch ≠ addOne a.appliedEpoch ∨ command.oldVoters ≠ a.jointOld ∨
        command.newVoters ≠ a.jointNew then
      .error (.text "invalid joint-consensus finalize")
    else
      .ok { a with
        commitIndex := a.commitIndex + 1
        appliedEpoch := command.epoch
        committedView := some (commandView command)
        voters := command.newVoters
        jointOld := []
        jointNew := [] }
  | .unknown _ => .error (.text "unknown metadata command")

/-- The loop of `applyThroughLocked`, `rounds` times; `index` is where the next entry
stands in the slice. -/
def applyLoop (entries : List RaftEntry) : ℕ → ℕ → Applied → Except RaftError Applied
  | 0, _, a => .ok a
  | rounds + 1, index, a =>
    match entries[index]? with
    | none => .error .panic
    | some entry =>
      match a.apply entry.command with
      | .error err => .error err
      | .ok a' => applyLoop entries rounds (index + 1) a'

/-- `applyThroughLocked`: nothing is changed unless every entry up to `target` applies. -/
def RaftPersistentState.applyThroughLocked (s : RaftPersistentState) (target : ℕ) :
    Except RaftError RaftPersistentState :=
  if s.commitIndex < target ∧ s.commitIndex < s.snapshotIndex then .error .panic
  else
    match applyLoop s.entries (target - s.commitIndex) (s.commitIndex - s.snapshotIndex)
        s.applied with
    | .error err => .error err
    | .ok a =>
      .ok { s with
        commitIndex := a.commitIndex
        appliedEpoch := a.appliedEpoch
        committedView := a.committedView
        voters := a.voters
        jointOldVoters := a.jointOld
        jointNewVoters := a.jointNew }

/-! ### Sample data -/

def sampleNode (digit : UInt8) : GoString := List.replicate 32 (48 + digit)

def sampleView (digit : UInt8) : ViewDigests :=
  let digest := List.replicate 64 (48 + digit)
  ⟨digest, digest, digest, []⟩

def sampleAdvance (epoch : ℕ) (digit : UInt8) : MetadataCommand :=
  let view := sampleView digit
  ⟨.advanceEpoch, epoch, view.membership, view.catalog, view.placement, view.capacityManifest, [], []⟩

end GideonDB.Cluster
