/-
`RaftStore`: the durable safety core of the metadata Raft group, call by call.

A store has the state in memory and the contents of its file.  Every call takes the
outcome `ok` of the one `persistLocked` it may make: a failed one leaves the file as
it was.  As in the source, memory is changed before it is persisted and not restored
when an error is returned, so each call gives back its result and the store it leaves.
-/
import GideonDB.Cluster.RaftState

namespace GideonDB.Cluster

open Go

/-- `RequestVoteRequest`. -/
structure RequestVoteRequest where
  term : ℕ
  candidateID : GoString
  lastLogIndex : ℕ
  lastLogTerm : ℕ
deriving DecidableEq, Repr

/-- `RequestVoteResponse`. -/
structure RequestVoteResponse where
  term : ℕ
  voteGranted : Bool
deriving DecidableEq, Repr

/-- `AppendEntriesRequest`. -/
structure AppendEntriesRequest where
  term : ℕ
  leaderID : GoString
  prevLogIndex : ℕ
  prevLogTerm : ℕ
  entries : List RaftEntry
  leaderCommit : ℕ
deriving DecidableEq, Repr

/-- `AppendEntriesResponse` and `InstallSnapshotResponse`, which have the same fields. -/
structure AppendEntriesResponse where
  term : ℕ
  success : Bool
  matchIndex : ℕ
deriving DecidableEq, Repr

/-- `RaftSnapshot`. -/
structure RaftSnapshot where
  lastIncludedIndex : ℕ
  lastIncludedTerm : ℕ
  appliedEpoch : ℕ
  voters : List GoString
  committedView : Option ViewDigests
deriving DecidableEq, Repr

/-- `InstallSnapshotRequest`. -/
structure InstallSnapshotRequest where
  term : ℕ
  leaderID : GoString
  snapshot : RaftSnapshot
deriving DecidableEq, Repr

/-- What `LogBatch` returns. -/
structure LogBatch where
  term : ℕ
  commitIndex : ℕ
  prevIndex : ℕ
  prevTerm : ℕ
  entries : List RaftEntry
deriving DecidableEq, Repr

/-- `RaftStore`, with the contents of the file at its path. -/
@[ext] structure RaftStore where
  nodeID : GoString
  state : RaftPersistentState
  file : RaftPersistentState
deriving DecidableEq, Repr

namespace RaftPersistentState

/-- The state `OpenRaftStore` creates when there is no file. -/
def bootstrap (bootstrapEpoch : ℕ) : RaftPersistentState where
  format := 1
  currentTerm := 0
  votedFor := []
  commitIndex := 0
  appliedEpoch := bootstrapEpoch
  snapshotIndex := 0
  snapshotTerm := 0
  snapshotEpoch := bootstrapEpoch
  snapshotView := none
  voters := []
  jointOldVoters := []
  jointNewVoters := []
  committedView := none
  entries := []

/-- A message of a higher term raises the current term and clears the vote. -/
def withTerm (s : RaftPersistentState) (term : ℕ) : RaftPersistentState :=
  if term > s.currentTerm then { s with currentTerm := term, votedFor := [] } else s

/-- `LogBatch`. -/
def logBatch (s : RaftPersistentState) (nextIndex limit : ℕ) : Except RaftError LogBatch :=
  if nextIndex ≤ s.snapshotIndex ∨ nextIndex > s.lastLogLocked.1 + 1 ∨ limit < 1 ∨ limit > 1024 then
    .error (.text "invalid Raft log batch request")
  else
    match s.termAtLocked (nextIndex - 1) with
    | .error err => .error err
    | .ok prevTerm =>
      .ok ⟨s.currentTerm, s.commitIndex, nextIndex - 1, prevTerm,
        (s.entries.drop (nextIndex - s.snapshotIndex - 1)).take limit⟩

/-- `snapshotLocked`. -/
def snapshotLocked (s : RaftPersistentState) : RaftSnapshot :=
  ⟨s.snapshotIndex, s.snapshotTerm, s.snapshotEpoch, s.voters, s.snapshotView⟩

/-- `Snapshot`. -/
def snapshot (s : RaftPersistentState) : Option RaftSnapshot :=
  if s.snapshotIndex = 0 then none else some s.snapshotLocked

end RaftPersistentState

namespace RaftStore

/-- `persistLocked`: `ok` if it succeeds. -/
def persistLocked (r : RaftStore) (ok : Bool) : Except RaftError Unit × RaftStore :=
  if ok then (.ok (), { r with file := r.state }) else (.error .io, r)

/-- A call that ends by persisting: the error of `persistLocked`, or else `result`. -/
def persisted {α : Type} (r : RaftStore) (ok : Bool) (result : α) : Except RaftError α × RaftStore :=
  match r.persistLocked ok with
  | (.error err, r') => (.error err, r')
  | (.ok (), r') => (.ok result, r')

/-- `ObserveTerm`: a later term, without a vote. -/
def observeTerm (r : RaftStore) (term : ℕ) (ok : Bool) : Except RaftError Unit × RaftStore :=
  if term ≤ r.state.currentTerm then (.ok (), r)
  else
    { r with state := { r.state with currentTerm := term, votedFor := [] } }.persistLocked ok

def configureVoters (r : RaftStore) (voters : List GoString) (ok : Bool) :
    Except RaftError Unit × RaftStore :=
  match normalizeVoters voters r.nodeID with
  | .error err => (.error err, r)
  | .ok normalized =>
    if r.state.voters ≠ [] then
      if r.state.voters ≠ normalized then
        (.error (.text "configured voters do not match persisted Raft membership"), r)
      else (.ok (), r)
    else { r with state := { r.state with voters := normalized } }.persistLocked ok

/-- `BeginElection`. -/
def beginElection (r : RaftStore) (ok : Bool) : Except RaftError RequestVoteRequest × RaftStore :=
  if r.state.voters ≠ [] ∧ ¬ containsString r.state.activeVotersLocked r.nodeID then
    (.error (.text "local node is not an active Raft voter"), r)
  else
    let state := { r.state with
      currentTerm := addOne r.state.currentTerm
      votedFor := r.nodeID }
    { r with state }.persisted ok
      ⟨state.currentTerm, r.nodeID, state.lastLogLocked.1, state.lastLogLocked.2⟩

/-- The up-to-date check of `RequestVote`. -/
def upToDate (s : RaftPersistentState) (request : RequestVoteRequest) : Bool :=
  request.lastLogTerm > s.lastLogLocked.2 ||
    (request.lastLogTerm == s.lastLogLocked.2 && request.lastLogIndex ≥ s.lastLogLocked.1)

/-- `RequestVote`. -/
def requestVote (r : RaftStore) (request : RequestVoteRequest) (ok : Bool) :
    Except RaftError RequestVoteResponse × RaftStore :=
  if ¬ validNodeID request.candidateID ∨ request.term = 0 then
    (.error (.text "invalid vote request"), r)
  else if r.state.voters ≠ [] ∧
      ¬ containsString r.state.activeVotersLocked request.candidateID then
    (.ok ⟨r.state.currentTerm, false⟩, r)
  else if request.term < r.state.currentTerm then
    (.ok ⟨r.state.currentTerm, false⟩, r)
  else
    let s := r.state.withTerm request.term
    let granted := upToDate s request && (s.votedFor == [] || s.votedFor == request.candidateID)
    let s' := if granted then { s with votedFor := request.candidateID } else s
    -- `changed` of the source: the term was raised or a new vote was recorded
    if request.term > r.state.currentTerm ∨ (granted ∧ s.votedFor ≠ request.candidateID) then
      { r with state := s' }.persisted ok ⟨s'.currentTerm, granted⟩
    else (.ok ⟨s'.currentTerm, granted⟩, { r with state := s' })

/-- The loop of `AppendEntries` over the entries of the request, the first of which has
the absolute index `index`: entries that agree in the term are skipped, the first that
disagrees cuts the log there. -/
def appendLoop (commitIndex snapshotIndex : ℕ) :
    ℕ → List RaftEntry → List RaftEntry → Except RaftError Unit × List RaftEntry
  | _, [], log => (.ok (), log)
  | index, entry :: rest, log =>
    if index ≤ snapshotIndex then appendLoop commitIndex snapshotIndex (index + 1) rest log
    else
      match log[index - snapshotIndex - 1]? with
      | some existing =>
        if existing.term = entry.term then
          appendLoop commitIndex snapshotIndex (index + 1) rest log
        else if index ≤ commitIndex then
          (.error (.text "refusing to overwrite committed entry"), log)
        else
          match validateRaftEntry entry with
          | .error err => (.error err, log.take (index - snapshotIndex - 1))
          | .ok () =>
            appendLoop commitIndex snapshotIndex (index + 1) rest
              (log.take (index - snapshotIndex - 1) ++ [entry])
      | none =>
        match validateRaftEntry entry with
        | .error err => (.error err, log)
        | .ok () => appendLoop commitIndex snapshotIndex (index + 1) rest (log ++ [entry])

/-- The consistency check of `AppendEntries`: the store retains the entry before the
batch and it has the leader's term. -/
def matchesPrevious (s : RaftPersistentState) (request : AppendEntriesRequest) : Bool :=
  s.snapshotIndex ≤ request.prevLogIndex && request.prevLogIndex ≤ s.lastLogLocked.1 &&
    s.termAtLocked request.prevLogIndex == .ok request.prevLogTerm

/-- The part of `AppendEntries` after the batch is in the log: commit and persist. -/
def appendCommit (r : RaftStore) (request : AppendEntriesRequest) (ok : Bool) :
    Except RaftError AppendEntriesResponse × RaftStore :=
  let response : AppendEntriesResponse := ⟨r.state.currentTerm, true,
    max request.prevLogIndex r.state.snapshotIndex + request.entries.length⟩
  if request.leaderCommit > r.state.commitIndex then
    match r.state.applyThroughLocked (min request.leaderCommit r.state.lastLogLocked.1) with
    | .error err => (.error err, r)
    | .ok state => { r with state }.persisted ok response
  else r.persisted ok response

/-- `AppendEntries`. -/
def appendEntries (r : RaftStore) (request : AppendEntriesRequest) (ok : Bool) :
    Except RaftError AppendEntriesResponse × RaftStore :=
  if ¬ validNodeID request.leaderID ∨ request.term = 0 then
    (.error (.text "invalid append request"), r)
  else if r.state.voters ≠ [] ∧ ¬ containsString r.state.activeVotersLocked request.leaderID then
    (.ok ⟨r.state.currentTerm, false, 0⟩, r)
  else if request.entries.length > 1024 then
    (.error (.text "append request exceeds entry limit"), r)
  else if request.term < r.state.currentTerm then
    (.ok ⟨r.state.currentTerm, false, 0⟩, r)
  else
    let s := r.state.withTerm request.term
    if ¬ matchesPrevious s request then
      { r with state := s }.persisted ok ⟨s.currentTerm, false, 0⟩
    else
      match appendLoop s.commitIndex s.snapshotIndex (request.prevLogIndex + 1) request.entries
          s.entries with
      | (.error err, log) => (.error err, { r with state := { s with entries := log } })
      | (.ok (), log) => { r with state := { s with entries := log } }.appendCommit request ok

/-- The message of `AppendCommand` for a node that is not the leader of `term`. -/
def notLeader (term : ℕ) : RaftError := .text s!"node is not leader for term {term}"

/-- `AppendCommand`. -/
def appendCommand (r : RaftStore) (term : ℕ) (command : MetadataCommand) (ok : Bool) :
    Except RaftError ℕ × RaftStore :=
  if term = 0 ∨ term ≠ r.state.currentTerm ∨ r.state.votedFor ≠ r.nodeID then
    (.error (notLeader term), r)
  else
    let entry : RaftEntry := ⟨term, command⟩
    match validateRaftEntry entry with
    | .error err => (.error err, r)
    | .ok () =>
      -- a repeated uncommitted command is answered with the index it already has
      if r.state.lastLogLocked.1 > r.state.commitIndex ∧
          r.state.entries.getLast? = some entry then
        (.ok r.state.lastLogLocked.1, r)
      else
        let state := { r.state with entries := r.state.entries ++ [entry] }
        { r with state }.persisted ok state.lastLogLocked.1

def commitWithVoterAcks (r : RaftStore) (index term : ℕ) (acknowledgements : List GoString)
    (ok : Bool) : Except RaftError Unit × RaftStore :=
  if ¬ r.state.hasVoterQuorum acknowledgements then
    (.error (.text (if r.state.jointOldVoters ≠ [] then "metadata joint quorum not reached"
      else "metadata quorum not reached")), r)
  else if term ≠ r.state.currentTerm ∨ index ≤ r.state.snapshotIndex ∨
      r.state.termAtLocked index ≠ .ok term then
    (.error (.text "entry is not committable in current term"), r)
  else
    match r.state.applyThroughLocked index with
    | .error err => (.error err, r)
    | .ok state => { r with state }.persistLocked ok

def compactCommitted (r : RaftStore) (ok : Bool) : Except RaftError Unit × RaftStore :=
  if r.state.jointOldVoters ≠ [] then
    (.error (.text "cannot compact metadata log during joint consensus"), r)
  else if r.state.commitIndex = r.state.snapshotIndex then (.ok (), r)
  else
    match r.state.termAtLocked r.state.commitIndex with
    | .error err => (.error err, r)
    | .ok term =>
      { r with
        state := { r.state with
          entries := r.state.entries.drop (r.state.commitIndex - r.state.snapshotIndex)
          snapshotIndex := r.state.commitIndex
          snapshotTerm := term
          snapshotEpoch := r.state.appliedEpoch
          snapshotView := r.state.committedView } }.persistLocked ok

/-- The entries `InstallSnapshot` keeps: those after the snapshot, if the store has the
snapshot's last entry. -/
def retained (s : RaftPersistentState) (snapshot : RaftSnapshot) : List RaftEntry :=
  if s.termAtLocked snapshot.lastIncludedIndex = .ok snapshot.lastIncludedTerm then
    s.entries.drop (snapshot.lastIncludedIndex - s.snapshotIndex)
  else []

/-- The state `InstallSnapshot` leaves when the snapshot is ahead of the commit index. -/
def installed (s : RaftPersistentState) (snapshot : RaftSnapshot) : RaftPersistentState :=
  { s with
    snapshotIndex := snapshot.lastIncludedIndex
    snapshotTerm := snapshot.lastIncludedTerm
    snapshotEpoch := snapshot.appliedEpoch
    snapshotView := snapshot.committedView
    commitIndex := snapshot.lastIncludedIndex
    appliedEpoch := snapshot.appliedEpoch
    committedView := snapshot.committedView
    voters := snapshot.voters
    entries := retained s snapshot }

/-- `InstallSnapshot` finds the snapshot well formed for this node. -/
def validSnapshot (nodeID : GoString) (snapshot : RaftSnapshot) : Bool :=
  normalizeVoters snapshot.voters nodeID == .ok snapshot.voters &&
    snapshot.lastIncludedIndex != 0 && snapshot.lastIncludedTerm != 0 &&
    snapshot.appliedEpoch ≥ 2 && snapshot.committedView.any validView

def installSnapshot (r : RaftStore) (request : InstallSnapshotRequest) (ok : Bool) :
    Except RaftError AppendEntriesResponse × RaftStore :=
  let snapshot := request.snapshot
  if ¬ validNodeID request.leaderID ∨ request.term = 0 then
    (.error (.text "invalid snapshot request"), r)
  else if r.state.voters ≠ [] ∧ ¬ containsString r.state.voters request.leaderID then
    (.ok ⟨r.state.currentTerm, false, 0⟩, r)
  else if ¬ validSnapshot r.nodeID snapshot then
    (.error (.text "invalid Raft snapshot"), r)
  else if r.state.voters ≠ [] ∧ r.state.voters ≠ snapshot.voters then
    (.error (.text "snapshot voter set does not match persisted membership"), r)
  else if request.term < r.state.currentTerm then
    (.ok ⟨r.state.currentTerm, false, 0⟩, r)
  else
    let s := r.state.withTerm request.term
    if snapshot.lastIncludedIndex ≤ s.commitIndex then
      { r with state := s }.persisted ok ⟨s.currentTerm, true, s.commitIndex⟩
    else
      { r with state := installed s snapshot }.persisted ok
        ⟨s.currentTerm, true, snapshot.lastIncludedIndex⟩

end RaftStore

end GideonDB.Cluster
