/-
What the runtime of a node makes of a rejected message.

`RaftRuntime.AppendEntries` and `RaftRuntime.InstallSnapshot` take an answer in the term of the
request for a sign of a leader.  The store answers in its own term also when it does not know the
sender as a voter, so a message of such a node in the current term makes the receiver its follower.
-/
import GideonDB.Cluster.RaftStore
import GideonDB.Go.Map

namespace GideonDB.Cluster

open Go

/-- `RaftRole`. -/
inductive RaftRole
  | follower
  | candidate
  | leader
deriving DecidableEq

/-- `RaftPeer`. -/
structure RaftPeer where
  nodeID : GoString
  baseURL : GoString

/-- `RaftRuntime`, with the peers that are discovered by now. -/
structure RaftRuntime where
  store : RaftStore
  nodeID : GoString
  peers : List RaftPeer
  role : RaftRole
  leaderID : GoString
  nextIndex : GoMap GoString ℕ
  /-- The channel `reset` holds a signal: the election timer starts anew. -/
  reset : Bool

/-- What a leader sends. -/
inductive LeaderMessage
  | appendEntries (request : AppendEntriesRequest)
  | installSnapshot (request : InstallSnapshotRequest)

namespace LeaderMessage

/-- The sender's term. -/
def term : LeaderMessage → ℕ
  | appendEntries request => request.term
  | installSnapshot request => request.term

/-- The sender. -/
def leaderID : LeaderMessage → GoString
  | appendEntries request => request.leaderID
  | installSnapshot request => request.leaderID

/-- What the store answers. -/
def answer (store : RaftStore) (ok : Bool) :
    LeaderMessage → Except RaftError AppendEntriesResponse × RaftStore
  | appendEntries request => store.appendEntries request ok
  | installSnapshot request => store.installSnapshot request ok

/-- The sender is one of the voters that the store listens to, or the store has none. -/
def Heard (s : RaftPersistentState) : LeaderMessage → Prop
  | appendEntries request =>
    s.voters = [] ∨ containsString s.activeVotersLocked request.leaderID = true
  | installSnapshot request => s.voters = [] ∨ containsString s.voters request.leaderID = true

/-- The store rejects the message: it is malformed, its sender is not an active voter, or its term
is stale. -/
def Rejected (store : RaftStore) (ok : Bool) (message : LeaderMessage) : Prop :=
  (∃ err, (message.answer store ok).1 = .error err) ∨ ¬ message.Heard store.state ∨
    message.term < store.state.currentTerm

end LeaderMessage

namespace RaftRuntime

/-- `becomeFollower`. -/
def becomeFollower (r : RaftRuntime) (leader : GoString) : RaftRuntime :=
  { r with role := .follower, leaderID := leader, nextIndex := .empty }

/-- `signalReset`. -/
def signalReset (r : RaftRuntime) : RaftRuntime := { r with reset := true }

/-- `consensusPeers`, without the list it returns: whether the voters are discovered, and the
store, which gets its voters here if it has none. -/
def consensusPeers (r : RaftRuntime) (ok : Bool) : Bool × RaftStore :=
  let found := r.peers.map RaftPeer.nodeID
  if r.peers.any (fun peer => !validNodeID peer.nodeID || peer.baseURL = []) ∨
      ¬ (r.nodeID :: found).Nodup then (false, r.store)
  else
    let configured := if r.store.state.activeVotersLocked = [] then
      r.store.configureVoters (r.nodeID :: found) ok else (.ok (), r.store)
    match configured with
    | (.error _, store) => (false, store)
    | (.ok (), store) =>
      (store.state.activeVotersLocked.all fun voter => voter = r.nodeID || found.contains voter, store)

/-- Whether a message is taken. -/
def receiver (r : RaftRuntime) (ok : Bool) : LeaderMessage → Bool × RaftStore
  | .appendEntries _ =>
    if r.store.state.activeVotersLocked = [] then (true, r.store) else r.consensusPeers ok
  | .installSnapshot _ => r.consensusPeers ok

/-- `AppendEntries` and `InstallSnapshot`; `ok` and `ok'` say which writes of the store succeed. -/
def handle (r : RaftRuntime) (message : LeaderMessage) (ok ok' : Bool) :
    Except RaftError AppendEntriesResponse × RaftRuntime :=
  let (ready, store) := r.receiver ok message
  if ready then
    let (response, store') := message.answer store ok'
    let r' := { r with store := store' }
    (response, if response.toOption.any (fun y => message.term = y.term) then
      (r'.becomeFollower message.leaderID).signalReset else r')
  else (.ok ⟨store.state.currentTerm, false, 0⟩, { r with store := store })

/-- Role, leader, next indexes and election timer are the same. -/
structure SameLeadership (r r' : RaftRuntime) : Prop where
  role : r'.role = r.role
  leaderID : r'.leaderID = r.leaderID
  nextIndex : r'.nextIndex = r.nextIndex
  reset : r'.reset = r.reset

/-- A well-formed message in the current term comes from a node that is not an active voter. -/
structure Intrudes (r : RaftRuntime) (message : LeaderMessage) (ok : Bool) : Prop where
  ready : (r.receiver ok message).1 = true
  sender : validNodeID message.leaderID = true
  positive : message.term ≠ 0
  unheard : ¬ message.Heard (r.receiver ok message).2.state
  current : message.term = (r.receiver ok message).2.state.currentTerm

end RaftRuntime

section

variable {store : RaftStore} {message : LeaderMessage} {ok ok' : Bool} {r : RaftRuntime}

lemma LeaderMessage.answer_of_unheard (hsender : validNodeID message.leaderID)
    (hterm : message.term ≠ 0) (hunheard : ¬ message.Heard store.state) :
    message.answer store ok = (.ok ⟨store.state.currentTerm, false, 0⟩, store) := by
  cases message with
  | appendEntries request =>
    have hguard : ¬ (¬ validNodeID request.leaderID ∨ request.term = 0) :=
      not_or.2 ⟨not_not.2 hsender, hterm⟩
    rw [answer, RaftStore.appendEntries, if_neg hguard, if_pos (not_or.1 hunheard)]
  | installSnapshot request =>
    have hguard : ¬ (¬ validNodeID request.leaderID ∨ request.term = 0) :=
      not_or.2 ⟨not_not.2 hsender, hterm⟩
    rw [answer, RaftStore.installSnapshot, if_neg hguard, if_pos (not_or.1 hunheard)]

/-- A rejected message is answered with an error or, if it is well formed, in the term of the
store. -/
lemma LeaderMessage.Rejected.answer (h : message.Rejected store ok) :
    (∃ err, (message.answer store ok).1 = .error err) ∨
      (message.answer store ok).1 = .ok ⟨store.state.currentTerm, false, 0⟩ ∧
        validNodeID message.leaderID ∧ message.term ≠ 0 := by
  rcases h with h | h
  · exact .inl h
  cases message with
  | appendEntries request =>
    rw [LeaderMessage.answer, RaftStore.appendEntries]
    split
    · exact .inl ⟨_, rfl⟩
    rename_i hguard
    rw [not_or, not_not] at hguard
    split
    · exact .inr ⟨rfl, hguard⟩
    rename_i hheard
    split
    · exact .inl ⟨_, rfl⟩
    split_ifs with hstale
    · exact .inr ⟨rfl, hguard⟩
    exact absurd h (not_or.2 ⟨by simpa [Heard, or_iff_not_imp_left] using hheard, hstale⟩)
  | installSnapshot request =>
    rw [LeaderMessage.answer, RaftStore.installSnapshot]
    dsimp only
    split
    · exact .inl ⟨_, rfl⟩
    rename_i hguard
    rw [not_or, not_not] at hguard
    split
    · exact .inr ⟨rfl, hguard⟩
    rename_i hheard
    split
    · exact .inl ⟨_, rfl⟩
    split
    · exact .inl ⟨_, rfl⟩
    split
    · exact .inr ⟨rfl, hguard⟩
    rename_i hstale
    exact absurd h (not_or.2 ⟨by simpa [Heard, or_iff_not_imp_left] using hheard, hstale⟩)

/-- A rejected message changes nothing about leadership, unless a node that is not an active voter
sends it in the current term: it makes the receiver its follower. -/
theorem sameLeadership_iff (h : message.Rejected (r.receiver ok message).2 ok') :
    r.SameLeadership (r.handle message ok ok').2 ↔ ¬ r.Intrudes message ok ∨
      r.SameLeadership ((r.becomeFollower message.leaderID).signalReset) := by
  rw [RaftRuntime.handle]
  by_cases hready : (r.receiver ok message).1 = true
  swap
  · simp only [if_neg hready]
    exact iff_of_true ⟨rfl, rfl, rfl, rfl⟩ (.inl fun hintrudes => hready hintrudes.ready)
  simp only [if_pos hready]
  by_cases hintrudes : r.Intrudes message ok
  · -- The answer comes in the current term.
    rw [LeaderMessage.answer_of_unheard hintrudes.sender hintrudes.positive hintrudes.unheard,
      if_pos (by exact decide_eq_true hintrudes.current)]
    simp only [hintrudes, not_true_eq_false, false_or]
    exact ⟨fun hsame => ⟨hsame.1, hsame.2, hsame.3, hsame.4⟩,
      fun hsame => ⟨hsame.1, hsame.2, hsame.3, hsame.4⟩⟩
  · refine iff_of_true ?_ (.inl hintrudes)
    rw [if_neg]
    · exact ⟨rfl, rfl, rfl, rfl⟩
    rcases h.answer with ⟨err, herr⟩ | ⟨hok, hsender, hterm⟩
    · simp [herr, Except.toOption]
    · rw [hok]
      intro hcurrent
      have hcur : message.term = (r.receiver ok message).2.state.currentTerm :=
        of_decide_eq_true hcurrent
      refine hintrudes ⟨hready, hsender, hterm, ?_, hcur⟩
      rcases h with ⟨err, herr⟩ | hunheard | hstale
      · simp [hok] at herr
      · exact hunheard
      · omega

end

def leadingRuntime : RaftRuntime where
  store :=
    let state := { RaftPersistentState.bootstrap 1 with
      currentTerm := 2, votedFor := sampleNode 1
      voters := [sampleNode 1, sampleNode 2, sampleNode 3] }
    ⟨sampleNode 1, state, state⟩
  nodeID := sampleNode 1
  peers := [⟨sampleNode 2, bytes "b"⟩, ⟨sampleNode 3, bytes "c"⟩]
  role := .leader
  leaderID := sampleNode 1
  nextIndex := (GoMap.empty.set (sampleNode 2) 1).set (sampleNode 3) 1
  reset := false

def heartbeat (digit : UInt8) (term : ℕ) : LeaderMessage :=
  .appendEntries ⟨term, sampleNode digit, 0, 0, [], 0⟩

/-- The theorem for a request with an old term. -/
theorem sameLeadership_of_stale :
    (heartbeat 2 1).Rejected (leadingRuntime.receiver true (heartbeat 2 1)).2 true ∧
    leadingRuntime.SameLeadership (leadingRuntime.handle (heartbeat 2 1) true true).2 :=
  have hrejected : (heartbeat 2 1).Rejected (leadingRuntime.receiver true (heartbeat 2 1)).2 true :=
    .inr (.inr (by decide +kernel))
  ⟨hrejected, (sameLeadership_iff hrejected).2 (.inl fun hintrudes =>
    absurd hintrudes.current (by decide +kernel))⟩

/-- Node 4, which is not a voter, sends a request in the current term: the store rejects it, and
the leader becomes a follower of node 4. -/
theorem leader_follows_intruder :
    (heartbeat 4 2).Rejected (leadingRuntime.receiver true (heartbeat 4 2)).2 true ∧
    (leadingRuntime.handle (heartbeat 4 2) true true).1.toOption = some ⟨2, false, 0⟩ ∧
    ¬ leadingRuntime.SameLeadership (leadingRuntime.handle (heartbeat 4 2) true true).2 :=
  ⟨.inr (.inl (not_or.2 ⟨by decide +kernel, by decide +kernel⟩)), by decide +kernel,
    fun hsame => absurd hsame.role (by decide +kernel)⟩

end GideonDB.Cluster
