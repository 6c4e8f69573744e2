/-
`OpenRaftStore` and the validation it makes of a state read from the file.

`validateLocked` replays the committed suffix with a loop of its own.  It is close to
`applyThroughLocked` but not the same: a begin entry is not compared with the voters
held before it, and the voters replayed are only compared at the end.
-/
import GideonDB.Cluster.RaftStore

namespace GideonDB.Cluster

open Go RaftPersistentState

/-- The local variables of `validateLocked`. -/
@[ext] structure Replayed where
  appliedEpoch : ℕ
  committedView : Option ViewDigests
  voters : List GoString
  jointOld : List GoString
  jointNew : List GoString
deriving DecidableEq, Repr

/-- What `validateLocked` does with one committed command. -/
def Replayed.replay (a : Replayed) (command : MetadataCommand) : Except RaftError Replayed :=
  match command.type with
  | .advanceEpoch =>
    if a.jointOld ≠ [] ∨ command.epoch > addOne a.appliedEpoch ∨
        command.epoch < a.appliedEpoch then
      .error (.text "invalid committed metadata epoch sequence")
    else if command.epoch = addOne a.appliedEpoch then
      .ok { a with
        appliedEpoch := command.epoch
        committedView := some (commandView command) }
    else if a.committedView ≠ some (commandView command) then
      .error (.text "conflicting committed metadata view")
    else .ok a
  | .beginJointConsensus =>
    if command.epoch ≠ a.appliedEpoch ∨ a.jointOld ≠ [] then
      .error (.text "invalid committed joint-consensus begin")
    else
      .ok { a with
        voters := command.oldVoters
        jointOld := command.oldVoters
        jointNew := command.newVoters }
  | .finalizeJointConsensus =>
    if command.epoch ≠ addOne a.appliedEpoch ∨ command.oldVoters ≠ a.jointOld ∨
        command.newVoters ≠ a.jointNew then
      .error (.text "invalid committed joint-consensus finalize")
    else
      .ok { a with
        appliedEpoch := command.epoch
        committedView := some (commandView command)
        voters := command.newVoters
        jointOld := []
        jointNew := [] }
  | .unknown _ => .ok a

/-- The loop of `validateLocked` from the absolute index `index` on. -/
def validateLoop (commitIndex : ℕ) : ℕ → List RaftEntry → Replayed → Except RaftError Replayed
  | _, [], a => .ok a
  | index, entry :: rest, a =>
    match validateRaftEntry entry with
    | .error err => .error err
    | .ok () =>
      if index ≤ commitIndex then
        match a.replay entry.command with
        | .error err => .error err
        | .ok a' => validateLoop commitIndex (index + 1) rest a'
      else validateLoop commitIndex (index + 1) rest a

namespace RaftPersistentState

/-- A state written before snapshots had an epoch gets the bootstrap epoch. -/
def withSnapshotEpoch (s : RaftPersistentState) (bootstrapEpoch : ℕ) : RaftPersistentState :=
  if s.snapshotEpoch = 0 ∧ s.snapshotIndex = 0 then { s with snapshotEpoch := bootstrapEpoch }
  else s

/-- The checks of `validateLocked` before the replay. -/
def validateHeader (s : RaftPersistentState) (bootstrapEpoch : ℕ) : Except RaftError Unit :=
  if s.format ≠ 1 ∨ s.appliedEpoch < bootstrapEpoch ∨ s.commitIndex < s.snapshotIndex ∨
      s.commitIndex > s.lastLogLocked.1 ∨ s.snapshotEpoch < bootstrapEpoch then
    .error (.text "invalid Raft state")
  else if s.snapshotIndex = 0 ∧ s.snapshotTerm ≠ 0 ∨ s.snapshotIndex > 0 ∧ s.snapshotTerm = 0 then
    .error (.text "invalid Raft snapshot boundary")
  else if s.snapshotEpoch = bootstrapEpoch ∧ s.snapshotView ≠ none ∨
      s.snapshotEpoch > bootstrapEpoch ∧ s.snapshotView = none then
    .error (.text "invalid Raft snapshot metadata")
  else if s.snapshotView.any (fun view => !validView view) then
    .error (.text "invalid Raft snapshot view digests")
  else if s.voters ≠ [] ∧ ¬ Canonical s.voters then
    .error (.text "invalid persisted Raft voters")
  else if (s.jointOldVoters ≠ [] ∨ s.jointNewVoters ≠ []) ∧
      (¬ Canonical s.jointOldVoters ∨ ¬ Canonical s.jointNewVoters ∨
        s.voters ≠ s.jointOldVoters) then
    .error (.text "invalid persisted joint voter configuration")
  else .ok ()

/-- The comparison of `validateLocked` after the replay. -/
def validateReplayed (s : RaftPersistentState) (a : Replayed) :
    Except RaftError RaftPersistentState :=
  if a.appliedEpoch ≠ s.appliedEpoch then
    .error (.text "applied metadata epoch does not match committed log")
  else if a.voters ≠ [] ∧ a.voters ≠ s.voters ∨ a.jointOld ≠ s.jointOldVoters ∨
      a.jointNew ≠ s.jointNewVoters then
    .error (.text "persisted voter configuration does not match committed log")
  else
    match a.committedView, s.committedView with
    | none, some _ => .error (.text "unexpected committed metadata view")
    | none, none => .ok s
    | some view, none => .ok { s with committedView := some view }
    | some view, some view' =>
      if view ≠ view' then .error (.text "committed metadata view does not match log") else .ok s

/-- `validateLocked`: the state with the fields it fills in. -/
def validateLocked (s : RaftPersistentState) (bootstrapEpoch : ℕ) :
    Except RaftError RaftPersistentState :=
  let s := s.withSnapshotEpoch bootstrapEpoch
  match s.validateHeader bootstrapEpoch with
  | .error err => .error err
  | .ok () =>
    match validateLoop s.commitIndex (s.snapshotIndex + 1) s.entries
        ⟨s.snapshotEpoch, s.snapshotView, [], [], []⟩ with
    | .error err => .error err
    | .ok a => s.validateReplayed a

end RaftPersistentState

/-- `OpenRaftStore` on the decoded contents of the file, if there is one. -/
def openRaftStore (nodeID : GoString) (bootstrapEpoch : ℕ) (file : Option RaftPersistentState)
    (ok : Bool) : Except RaftError RaftStore :=
  if ¬ validNodeID nodeID ∨ bootstrapEpoch = 0 then
    .error (.text "valid node ID and bootstrap epoch are required")
  else
    match file with
    | none =>
      let state := bootstrap bootstrapEpoch
      if ok then .ok ⟨nodeID, state, state⟩ else .error .io
    | some file =>
      match file.validateLocked bootstrapEpoch with
      | .error err => .error err
      | .ok state => .ok ⟨nodeID, state, file⟩

/-! ### What reopening can change -/

lemma validateReplayed_ok {s s' : RaftPersistentState} {a : Replayed}
    (h : s.validateReplayed a = .ok s') :
    ∃ view, s' = { s with committedView := view } ∧ (s.committedView ≠ none → view = s.committedView) := by
  simp only [validateReplayed] at h
  split at h
  · simp at h
  split at h
  · simp at h
  split at h
  · simp at h
  · rename_i hview
    refine ⟨none, ?_, fun hne => absurd hview hne⟩
    rw [← Except.ok.inj h, ← hview]
  · rename_i hview
    exact ⟨_, (Except.ok.inj h).symm, fun hne => absurd hview hne⟩
  · rename_i hview
    split at h
    · simp at h
    · refine ⟨s.committedView, ?_, fun _ => rfl⟩
      rw [← Except.ok.inj h]

lemma validateLocked_ok {s s' : RaftPersistentState} {epoch : ℕ}
    (h : s.validateLocked epoch = .ok s') :
    ∃ snapshotEpoch view, s' = { s with snapshotEpoch := snapshotEpoch, committedView := view } := by
  simp only [validateLocked] at h
  split at h
  · simp at h
  split at h
  · simp at h
  · obtain ⟨view, rfl, -⟩ := validateReplayed_ok h
    rw [withSnapshotEpoch]
    split
    · exact ⟨_, _, rfl⟩
    · exact ⟨_, _, rfl⟩

end GideonDB.Cluster
