/-
What a store has promised is in its file.

Any write of a store may fail, and the process may die and start again from the file at any
time.  As long as no call finds its effect in memory that a failed write has kept out of the
file (`StoreCall.fits`) and indexes stay in range (`StoreCall.inRange`), every positive answer
is backed by the file, and so no two candidates get the node's vote in one term.

The store itself does not make sure of that: memory is changed before it is written and
not restored when the write fails, and `RequestVote` and `AppendCommand` answer a repeated
call from memory without writing (`broken_promises`).
-/
import GideonDB.Cluster.RaftStoreSpec

namespace GideonDB.Cluster

open Go Relation RaftPersistentState RaftStore List

/-! ### Calls -/

/-- A call of a store, with the outcome of the write it may make, or the end of the process
and a new start from the file. -/
inductive StoreCall
  | configureVoters (voters : List GoString) (ok : Bool)
  | observeTerm (term : ℕ) (ok : Bool)
  | beginElection (ok : Bool)
  | requestVote (request : RequestVoteRequest) (ok : Bool)
  | appendEntries (request : AppendEntriesRequest) (ok : Bool)
  | appendCommand (term : ℕ) (command : MetadataCommand) (ok : Bool)
  | commitWithVoterAcks (index term : ℕ) (acknowledgements : List GoString) (ok : Bool)
  | compactCommitted (ok : Bool)
  | installSnapshot (request : InstallSnapshotRequest) (ok : Bool)
  | reopen

namespace StoreCall

/-- The store after a call. -/
def run (bootstrapEpoch : ℕ) (r : RaftStore) : StoreCall → Option RaftStore
  | .configureVoters voters ok => some (r.configureVoters voters ok).2
  | .observeTerm term ok => some (r.observeTerm term ok).2
  | .beginElection ok => some (r.beginElection ok).2
  | .requestVote request ok => some (r.requestVote request ok).2
  | .appendEntries request ok => some (r.appendEntries request ok).2
  | .appendCommand term command ok => some (r.appendCommand term command ok).2
  | .commitWithVoterAcks index term acks ok => some (r.commitWithVoterAcks index term acks ok).2
  | .compactCommitted ok => some (r.compactCommitted ok).2
  | .installSnapshot request ok => some (r.installSnapshot request ok).2
  | .reopen => (openRaftStore r.nodeID bootstrapEpoch (some r.file) true).toOption

/-- The votes a call gives: the term and the candidate.  A node that begins an election
votes for itself. -/
def votes (r : RaftStore) : StoreCall → List (ℕ × GoString)
  | .requestVote request ok =>
    match (r.requestVote request ok).1 with
    | .ok response => if response.voteGranted then [(request.term, request.candidateID)] else []
    | .error _ => []
  | .beginElection ok =>
    match (r.beginElection ok).1 with
    | .ok request => [(request.term, request.candidateID)]
    | .error _ => []
  | _ => []

end StoreCall

/-- The state has the vote for `candidate` in `term`, or is past the term. -/
def HoldsVote (s : RaftPersistentState) (term : ℕ) (candidate : GoString) : Prop :=
  term ≤ s.currentTerm ∧ (s.currentTerm = term → s.votedFor = candidate)

/-- The vote of the current term. -/
def Voted (s : RaftPersistentState) (term : ℕ) (candidate : GoString) : Prop :=
  s.currentTerm = term ∧ s.votedFor = candidate

lemma Voted.holds {s : RaftPersistentState} {term : ℕ} {candidate : GoString}
    (h : Voted s term candidate) : HoldsVote s term candidate := ⟨h.1.ge, fun _ => h.2⟩

/-- It installs a snapshot. -/
def StoreCall.isInstall : StoreCall → Bool
  | .installSnapshot .. => true
  | _ => false

/-- It compacts the log. -/
def StoreCall.isCompact : StoreCall → Bool
  | .compactCommitted _ => true
  | _ => false

lemma StoreCall.eq_compactCommitted {call : StoreCall} (h : call.isCompact) :
    ∃ ok, call = .compactCommitted ok := by
  cases call with
  | compactCommitted ok => exact ⟨ok, rfl⟩
  | _ => simp [StoreCall.isCompact] at h

/-- What the answer to a call promises about the file. -/
def StoreCall.Kept (r : RaftStore) : StoreCall → Prop
  | .requestVote request ok =>
    ∀ response, (r.requestVote request ok).1 = .ok response → response.voteGranted = true →
      HoldsVote (r.requestVote request ok).2.file request.term request.candidateID
  | .appendEntries request ok =>
    ∀ response, (r.appendEntries request ok).1 = .ok response → response.success = true →
      let file := (r.appendEntries request ok).2.file
      response.matchIndex ≤ file.lastLogLocked.1 ∧
        ∀ k entry, request.entries[k]? = some entry →
          file.entryAt (request.prevLogIndex + k + 1) = some entry
  | .appendCommand term command ok =>
    ∀ index, (r.appendCommand term command ok).1 = .ok index →
      (r.appendCommand term command ok).2.file.entryAt index = some ⟨term, command⟩
  | .installSnapshot request ok =>
    ∀ response, (r.installSnapshot request ok).1 = .ok response → response.success = true →
      let file := (r.installSnapshot request ok).2.file
      request.snapshot.lastIncludedIndex ≤ response.matchIndex ∧
        response.matchIndex ≤ file.commitIndex ∧ file.commitIndex ≤ file.lastLogLocked.1 ∧
        (r.state.commitIndex < request.snapshot.lastIncludedIndex →
          file.snapshotLocked = request.snapshot)
  | _ => True

/-- What memory already says and the call relies on is in the file, and the term is in
range.  Entries of a request that have the index and the term of a retained entry are that
entry, as it is for the requests of leaders. -/
def StoreCall.fits (r : RaftStore) : StoreCall → Prop
  | .requestVote request _ =>
    r.state.currentTerm = request.term ∧ r.state.votedFor = request.candidateID →
      r.file.currentTerm = r.state.currentTerm ∧ r.file.votedFor = r.state.votedFor
  | .appendCommand term command _ =>
    r.state.entries.getLast? = some ⟨term, command⟩ →
      r.file.entries = r.state.entries ∧ r.file.snapshotIndex = r.state.snapshotIndex
  | .appendEntries request _ =>
    ∀ p ∈ request.entries.zipIdx, ∀ entry ∈ r.state.entryAt (request.prevLogIndex + p.2 + 1),
      entry.term = p.1.term → entry = p.1
  | .beginElection _ => r.state.currentTerm + 1 < 2 ^ 64
  | _ => True

instance (r : RaftStore) (call : StoreCall) : Decidable (call.fits r) := by
  induction call using StoreCall.casesOn <;> dsimp only [StoreCall.fits] <;> infer_instance

/-- No index of the log leaves the range of `uint64`.  Without a snapshot indexes count entries; a
snapshot can start the log at any index. -/
def StoreCall.inRange (r : RaftStore) (call : StoreCall) : Prop :=
  r.state.lastLogLocked.1 + 1 < 2 ^ 64 ∧
    match call with
    | .appendEntries request _ => request.prevLogIndex + request.entries.length < 2 ^ 64
    | _ => True

instance (r : RaftStore) (call : StoreCall) : Decidable (call.inRange r) := by
  induction call using StoreCall.casesOn <;> dsimp only [StoreCall.inRange] <;> infer_instance

/-- A store and the votes it has given since it was opened. -/
structure Journal where
  store : RaftStore
  votes : List (ℕ × GoString)

variable {epoch : ℕ} {allowed : RaftStore → StoreCall → Prop} {j : Journal}

namespace Journal

/-- One call, with its votes. -/
def step (bootstrapEpoch : ℕ) (j : Journal) (call : StoreCall) : Option Journal :=
  (call.run bootstrapEpoch j.store).map fun r => ⟨r, j.votes ++ call.votes j.store⟩

/-- A run of allowed calls. -/
def run (allowed : RaftStore → StoreCall → Prop) [∀ r call, Decidable (allowed r call)]
    (bootstrapEpoch : ℕ) : Journal → List StoreCall → Option Journal
  | j, [] => some j
  | j, call :: calls =>
    if allowed j.store call then
      match j.step bootstrapEpoch call with
      | none => none
      | some j' => j'.run allowed bootstrapEpoch calls
    else none

/-- What a node that opens its file, whatever is in it, can get to by allowed calls. -/
inductive Reachable (bootstrapEpoch : ℕ) (allowed : RaftStore → StoreCall → Prop) : Journal → Prop
  | opened {nodeID : GoString} {file : Option RaftPersistentState} {r : RaftStore}
      (hopen : openRaftStore nodeID bootstrapEpoch file true = .ok r) :
      Reachable bootstrapEpoch allowed ⟨r, []⟩
  | step {j j' : Journal} {call : StoreCall} (h : Reachable bootstrapEpoch allowed j)
      (hallow : allowed j.store call) (hstep : j.step bootstrapEpoch call = some j') :
      Reachable bootstrapEpoch allowed j'

lemma Reachable.run [∀ r call, Decidable (allowed r call)] {j' : Journal} {calls : List StoreCall}
    (h : Reachable epoch allowed j) (hrun : j.run allowed epoch calls = some j') :
    Reachable epoch allowed j' := by
  induction calls generalizing j with
  | nil =>
    rw [Journal.run, Option.some.injEq] at hrun
    exact hrun ▸ h
  | cons call calls ih =>
    rw [Journal.run] at hrun
    split at hrun
    · rename_i hallow
      split at hrun
      · simp at hrun
      · rename_i j₁ hstep
        exact ih (.step h hallow hstep) hrun
    · simp at hrun

end Journal

/-! ### What calls do to the vote and to the log -/

/-- A vote that is given is not taken back before the term ends. -/
def KeepsVote (s s' : RaftPersistentState) : Prop :=
  s.currentTerm < s'.currentTerm ∨
    s'.currentTerm = s.currentTerm ∧ (s.votedFor = [] ∨ s'.votedFor = s.votedFor)

lemma KeepsVote.refl (s : RaftPersistentState) : KeepsVote s s := Or.inr ⟨rfl, Or.inr rfl⟩

lemma KeepsVote.withTerm (s : RaftPersistentState) (t : ℕ) : KeepsVote s (s.withTerm t) := by
  rw [RaftPersistentState.withTerm]
  split
  · exact .inl ‹_›
  · exact .refl s

variable {s : RaftPersistentState} {t : ℕ}

lemma KeepsVote.withTerm_vote (hle : s.currentTerm ≤ t) (hfree : (s.withTerm t).votedFor = [])
    (c : GoString) : KeepsVote s { s.withTerm t with votedFor := c } := by
  have hcur := withTerm_currentTerm hle
  rcases Nat.lt_or_ge s.currentTerm t with hlt | hge
  · left
    change s.currentTerm < (s.withTerm t).currentTerm
    omega
  · rw [withTerm_of_le hge] at hfree ⊢
    exact .inr ⟨rfl, .inl hfree⟩

variable {s' : RaftPersistentState} {c : GoString}

lemma HoldsVote.keeps (h : HoldsVote s t c)
    (hc : c ≠ []) (hkeeps : KeepsVote s s') : HoldsVote s' t c := by
  obtain ⟨hle, hvote⟩ := h
  rcases hkeeps with hlt | ⟨hterm, hsame⟩
  · exact ⟨by omega, fun heq => by omega⟩
  · refine ⟨by omega, fun heq => ?_⟩
    have hv := hvote (hterm.symm.trans heq)
    rcases hsame with hnil | hsame
    · exact absurd (hv.symm.trans hnil) hc
    · rw [hsame, hv]

/-- The snapshot ends within the committed log, and the committed log within the log. -/
def WellIndexed (s : RaftPersistentState) : Prop :=
  s.snapshotIndex ≤ s.commitIndex ∧ s.commitIndex ≤ s.snapshotIndex + s.entries.length

lemma lastLogLocked_fst (s : RaftPersistentState) :
    s.lastLogLocked.1 = s.snapshotIndex + s.entries.length := by
  rw [lastLogLocked]
  split
  · rename_i hnone
    rw [List.getLast?_eq_none_iff] at hnone
    rw [hnone, length_nil, Nat.add_zero]
  · rfl

lemma WellIndexed.withTerm (h : WellIndexed s) (t : ℕ) : WellIndexed (s.withTerm t) := by
  rw [withTerm_eq]
  exact h

lemma WellIndexed.applyThrough (h : WellIndexed s) {target : ℕ}
    (happly : s.applyThroughLocked target = .ok s') : WellIndexed s' := by
  obtain ⟨a, ha, rfl⟩ := applyThroughLocked_ok happly
  obtain ⟨hsnap, hcommit⟩ := h
  have hrounds := (applyLoop_commitIndex ha).2
  constructor
  · change s.snapshotIndex ≤ max s.commitIndex target
    omega
  · change max s.commitIndex target ≤ s.snapshotIndex + s.entries.length
    omega

variable {commit index : ℕ} {entries log log' : List RaftEntry} {x : Except RaftError Unit}

/-- Once the loop of `AppendEntries` runs through, the batch is in the log.  `i` is the
index before the next entry; the log reaches up to it. -/
lemma appendLoop_getElem? {snap : ℕ} {i : ℕ}
    (h : appendLoop commit snap (i + 1) entries log = (.ok (), log')) (hsnap : snap ≤ i)
    (hlen : i - snap ≤ log.length)
    (hagree : ∀ k e d, entries[k]? = some e → log[i + k - snap]? = some d → d.term = e.term → d = e) :
    i - snap + entries.length ≤ log'.length ∧
      ∀ k e, entries[k]? = some e → log'[i + k - snap]? = some e := by
  have hhead := length_take_of_le hlen
  rw [← take_append_drop (i - snap) log] at h
  rcases appendLoop_eq_takeOver (by omega) h with ⟨-, rfl⟩ | ⟨⟨err, herr⟩, -⟩
  swap
  · simp at herr
  have hpre : entries <+: takeOver (log.drop (i - snap)) entries := by
    rcases takeOver_cases (fun k d e hd he => hagree k e d he (by
      rwa [getElem?_drop, show i - snap + k = i + k - snap by omega] at hd)) with
      ⟨hpre, heq⟩ | ⟨-, heq⟩
    · rwa [heq]
    · simp [heq]
  refine ⟨by simpa [hhead] using hpre.length_le, fun k e he => ?_⟩
  obtain ⟨hk, rfl⟩ := List.getElem?_eq_some_iff.1 he
  rw [List.getElem?_append_right (by omega), hhead, show i + k - snap - (i - snap) = k by omega]
  exact prefix_iff_getElem?.1 hpre k hk

lemma appendLoop_valid {snap : ℕ} (h : appendLoop commit snap index entries log = (x, log')) :
    ∀ e ∈ log', e ∈ log ∨ ValidEntry e := by
  refine appendLoop_preserves (P := fun m => ∀ d ∈ m, d ∈ log ∨ ValidEntry d)
    (fun m k _ hm d hd => hm d (mem_of_mem_take hd)) (fun m e _ hvalid hm d hd => ?_) h
    fun d => .inl
  rcases mem_append.1 hd with hd | hd
  · exact hm d hd
  · exact .inr (mem_singleton.1 hd ▸ hvalid)

/-- One change of the state in memory.  The snapshot and what is committed stay. -/
inductive Edit (s : RaftPersistentState) : RaftPersistentState → Prop
  | vote (term : ℕ) (votedFor : GoString) :
      Edit s { s with currentTerm := term, votedFor := votedFor }
  | configure {voters : List GoString} (hnil : s.voters = []) (hcanonical : Canonical voters) :
      Edit s { s with voters := voters }
  | log {log : List RaftEntry} (hvalid : ∀ e ∈ log, e ∈ s.entries ∨ ValidEntry e)
      (hlen : s.commitIndex - s.snapshotIndex ≤ log.length)
      (htake : log.take (s.commitIndex - s.snapshotIndex) =
        s.entries.take (s.commitIndex - s.snapshotIndex)) : Edit s { s with entries := log }
  | apply {target : ℕ} {s' : RaftPersistentState} (happly : s.applyThroughLocked target = .ok s') :
      Edit s s'

lemma Edit.withTerm (s : RaftPersistentState) (t : ℕ) : Edit s (s.withTerm t) := by
  rw [withTerm_eq]
  exact .vote _ _

lemma Edit.snapshotIndex (h : Edit s s') : s'.snapshotIndex = s.snapshotIndex := by
  cases h with
  | vote | configure | log => rfl
  | apply happly =>
    obtain ⟨a, -, rfl⟩ := applyThroughLocked_ok happly
    rfl

lemma Edit.indexed (h : Edit s s') (hidx : WellIndexed s) : WellIndexed s' := by
  cases h with
  | vote | configure => exact hidx
  | log _ hlen => exact ⟨hidx.1, Nat.sub_le_iff_le_add'.1 hlen⟩
  | apply happly => exact hidx.applyThrough happly

/-- A call edits the state in memory, and writes nothing or everything.  Under the condition
`p` it takes back no vote. -/
structure StoreEdits (p : Prop) (r r' : RaftStore) : Prop where
  nodeID : r'.nodeID = r.nodeID
  state : ReflTransGen Edit r.state r'.state
  file : r'.file = r.file ∨ r'.file = r'.state
  vote : p → KeepsVote r.state r'.state

variable {p : Prop} {q : AppendEntriesRequest}

namespace StoreEdits

variable {r r' : RaftStore} {s : RaftPersistentState}

lemma refl (r : RaftStore) : StoreEdits p r r := ⟨rfl, .refl, Or.inl rfl, fun _ => .refl _⟩

lemma snapshotIndex (h : StoreEdits p r r') : r'.state.snapshotIndex = r.state.snapshotIndex := by
  obtain ⟨-, hedits, -⟩ := h
  generalize r'.state = s' at hedits ⊢
  induction hedits with
  | refl => rfl
  | tail _ he ih => exact he.snapshotIndex.trans ih

lemma indexed (h : StoreEdits p r r') (hidx : WellIndexed r.state) : WellIndexed r'.state := by
  obtain ⟨-, hedits, -⟩ := h
  generalize r'.state = s' at hedits ⊢
  induction hedits with
  | refl => exact hidx
  | tail _ he ih => exact he.indexed ih

section

variable (h : ReflTransGen Edit r.state s) (hvote : p → KeepsVote r.state s)

include h hvote

lemma unwritten : StoreEdits p r { r with state := s } :=
  ⟨rfl, h, .inl rfl, hvote⟩

lemma persistLocked (ok : Bool) : StoreEdits p r ({ r with state := s }.persistLocked ok).2 := by
  cases ok with
  | false => exact unwritten h hvote
  | true => exact ⟨rfl, h, .inr rfl, hvote⟩

lemma persisted {α : Type} (ok : Bool) (result : α) :
    StoreEdits p r ({ r with state := s }.persisted ok result).2 := by
  cases ok with
  | false => exact unwritten h hvote
  | true => exact ⟨rfl, h, .inr rfl, hvote⟩

end

lemma observeTerm (r : RaftStore) (t : ℕ) (ok : Bool) : StoreEdits p r (r.observeTerm t ok).2 := by
  rcases r.observeTerm_cases t ok with ⟨-, hcall⟩ | ⟨-, hcall⟩ <;> rw [hcall]
  · exact refl r
  · exact persistLocked (.single (.withTerm _ t)) (fun _ => .withTerm _ t) ok

lemma beginElection (r : RaftStore) (ok : Bool) :
    StoreEdits (r.state.currentTerm + 1 < 2 ^ 64) r (r.beginElection ok).2 := by
  rcases r.beginElection_cases ok with ⟨err, hcall⟩ | ⟨s, rfl, hcall⟩ <;> rw [hcall]
  · exact refl r
  · refine persisted (.single (.vote _ _)) (fun hfits => .inl ?_) ok _
    change r.state.currentTerm < addOne r.state.currentTerm
    rw [addOne, Nat.mod_eq_of_lt hfits]
    omega

lemma requestVote (r : RaftStore) (q : RequestVoteRequest) (ok : Bool) :
    StoreEdits p r (r.requestVote q ok).2 := by
  rcases r.requestVote_cases q ok with ⟨x, -, hcall⟩ | ⟨-, hcall⟩ | ⟨-, hle, -, hfree, hcall⟩ |
    ⟨-, -, -, hcall⟩ <;> rw [hcall]
  · exact refl r
  · exact persisted (.single (.withTerm _ _)) (fun _ => .withTerm _ _) ok _
  · exact persisted ((ReflTransGen.single (.withTerm _ _)).tail (.vote _ _))
      (fun _ => .withTerm_vote hle hfree _) ok _
  · exact refl r

lemma configureVoters (r : RaftStore) (voters : List GoString) (ok : Bool) :
    StoreEdits p r (r.configureVoters voters ok).2 := by
  rcases r.configureVoters_cases voters ok with ⟨x, hcall⟩ | ⟨hnil, normalized, hnorm, hcall⟩ <;>
    rw [hcall]
  · exact refl r
  · exact persistLocked (.single (.configure hnil (canonical_of_normalizeVoters hnorm)))
      (fun _ => .inr ⟨rfl, .inr rfl⟩) ok

lemma appendCommand (h : WellIndexed r.state) (t : ℕ) (command : MetadataCommand) (ok : Bool) :
    StoreEdits p r (r.appendCommand t command ok).2 := by
  rcases r.appendCommand_cases t command ok with ⟨err, hcall⟩ |
    ⟨-, -, -, hvalid, ⟨-, -, hcall⟩ | ⟨-, s, rfl, hcall⟩⟩ <;> rw [hcall]
  · exact refl r
  · exact refl r
  · obtain ⟨hsnap, hcommit⟩ := h
    refine persisted (.single (.log ?_ ?_ ?_)) (fun _ => ?_) ok _
    · exact forall_mem_append.2 ⟨fun e he => .inl he, forall_mem_singleton.2 (.inr hvalid)⟩
    · rw [length_append]
      omega
    · exact take_append_of_le_length (by omega)
    · exact .inr ⟨rfl, .inr rfl⟩

lemma appendEntries (h : WellIndexed r.state) (q : AppendEntriesRequest) (ok : Bool) :
    StoreEdits p r (r.appendEntries q ok).2 := by
  rcases r.appendEntries_cases q ok with ⟨x, -, hcall⟩ | ⟨-, s, rfl, hrest⟩
  · rw [hcall]
    exact refl r
  have hs : ReflTransGen Edit r.state (r.state.withTerm q.term) := .single (.withTerm _ _)
  have hvote : p → KeepsVote r.state (r.state.withTerm q.term) := fun _ => .withTerm _ _
  rcases hrest with hcall | ⟨-, y, log, hloop, hrest⟩
  · rw [hcall]
    exact persisted hs hvote ok _
  have hlen : (r.state.withTerm q.term).commitIndex - (r.state.withTerm q.term).snapshotIndex ≤
      (r.state.withTerm q.term).entries.length := by
    have := (h.withTerm q.term).2
    omega
  have hlog := hs.tail (.log (appendLoop_valid hloop) (appendLoop_take hloop hlen).1
    (appendLoop_take hloop hlen).2)
  rcases hrest with ⟨err, -, hcall⟩ | ⟨-, err, -, -, hcall⟩ | ⟨-, s', hs', hcall⟩ <;> rw [hcall]
  · exact unwritten hlog hvote
  · exact unwritten hlog hvote
  · rcases hs' with ⟨-, rfl⟩ | ⟨-, happly⟩
    · exact persisted hlog hvote ok _
    · refine persisted (hlog.tail (.apply happly)) ?_ ok _
      obtain ⟨a, -, rfl⟩ := applyThroughLocked_ok happly
      exact hvote

lemma commitWithVoterAcks (r : RaftStore) (index t : ℕ) (nodes : List GoString) (ok : Bool) :
    StoreEdits p r (r.commitWithVoterAcks index t nodes ok).2 := by
  rcases r.commitWithVoterAcks_cases index t nodes ok with ⟨err, hcall⟩ |
    ⟨-, -, -, -, s, hs, hcall⟩ <;> rw [hcall]
  · exact refl r
  · refine persistLocked (.single (.apply hs)) ?_ ok
    obtain ⟨a, -, rfl⟩ := applyThroughLocked_ok hs
    exact fun _ => .inr ⟨rfl, .inr rfl⟩

/-- A snapshot is refused, covered by what is committed, or installed. -/
lemma installSnapshot (r : RaftStore) (q : InstallSnapshotRequest) (ok : Bool) :
    StoreEdits True r (r.installSnapshot q ok).2 ∨
      r.state.commitIndex < q.snapshot.lastIncludedIndex ∧ validSnapshot r.nodeID q.snapshot ∧
        (r.installSnapshot q ok).2 = ({ r with
          state := installed (r.state.withTerm q.term) q.snapshot }.persistLocked ok).2 := by
  rcases r.installSnapshot_cases q ok with ⟨x, -, hcall⟩ |
    ⟨-, hvalid, -, s, rfl, ⟨-, hcall⟩ | ⟨hlt, hcall⟩⟩ <;> rw [hcall]
  · exact .inl (refl r)
  · exact .inl (persisted (.single (.withTerm _ _)) (fun _ => .withTerm _ _) ok _)
  · have hcommit : (r.state.withTerm q.term).commitIndex = r.state.commitIndex :=
      congrArg Applied.commitIndex (StoreSameLog.withTerm r.state q.term).applied
    refine .inr ⟨hcommit ▸ hlt, hvalid, ?_⟩
    cases ok <;> rfl

end StoreEdits

variable {ok : Bool}

lemma openRaftStore_ok {n : GoString} {file : Option RaftPersistentState} {r : RaftStore}
    (h : openRaftStore n epoch file ok = .ok r) :
    validNodeID n ∧ r.nodeID = n ∧ WellIndexed r.state ∧
      r.state.currentTerm = r.file.currentTerm ∧ r.state.votedFor = r.file.votedFor ∧
      ∀ f, file = some f → r.file = f := by
  rw [openRaftStore.eq_def] at h
  split at h
  · simp at h
  rename_i hvalid
  simp only [not_or, not_not] at hvalid
  refine ⟨hvalid.1, ?_⟩
  cases file with
  | none =>
    simp only at h
    split at h
    · cases h
      exact ⟨rfl, ⟨le_rfl, le_rfl⟩, rfl, rfl, by simp⟩
    · simp at h
  | some f =>
    simp only at h
    split at h
    · simp at h
    rename_i s hs
    cases h
    have hidx := hs
    simp only [validateLocked] at hidx
    obtain ⟨snapshotEpoch, view, rfl⟩ := validateLocked_ok hs
    refine ⟨rfl, ?_, rfl, rfl, fun f' hf' => Option.some.inj hf'⟩
    split at hidx
    · simp at hidx
    rename_i hheader
    rw [validateHeader] at hheader
    split at hheader
    · simp at hheader
    rename_i hbounds
    simp only [not_or, not_lt, gt_iff_lt, lastLogLocked_fst] at hbounds
    have hsame : (f.withSnapshotEpoch epoch).snapshotIndex = f.snapshotIndex ∧
        (f.withSnapshotEpoch epoch).commitIndex = f.commitIndex ∧
        (f.withSnapshotEpoch epoch).entries = f.entries := by
      rw [withSnapshotEpoch]
      split <;> exact ⟨rfl, rfl, rfl⟩
    rw [hsame.1, hsame.2.1, hsame.2.2] at hbounds
    exact ⟨hbounds.2.2.1, hbounds.2.2.2.1⟩

/-! ### Promises -/

section

variable {r r' : RaftStore} {epoch : ℕ} {call : StoreCall}

lemma StoreCall.edits (h : WellIndexed r.state) (hins : call.isInstall = false)
    (hcompact : call.isCompact = false) (hrun : call.run epoch r = some r') :
    StoreEdits (call.fits r) r r' ∨ call = .reopen := by
  cases call with
  | configureVoters voters ok =>
    cases hrun
    exact .inl (.configureVoters r voters ok)
  | observeTerm t ok =>
    cases hrun
    exact .inl (.observeTerm r t ok)
  | beginElection ok =>
    cases hrun
    exact .inl (.beginElection r ok)
  | requestVote q ok =>
    cases hrun
    exact .inl (.requestVote r q ok)
  | appendEntries q ok =>
    cases hrun
    exact .inl (.appendEntries h q ok)
  | appendCommand t command ok =>
    cases hrun
    exact .inl (.appendCommand h t command ok)
  | commitWithVoterAcks index t nodes ok =>
    cases hrun
    exact .inl (.commitWithVoterAcks r index t nodes ok)
  | compactCommitted => simp [StoreCall.isCompact] at hcompact
  | installSnapshot => simp [StoreCall.isInstall] at hins
  | reopen => exact .inr rfl

/-- What a call, other than a new start, does to the vote and to what is on disk. -/
structure Moves (r r' : RaftStore) : Prop where
  nodeID : r'.nodeID = r.nodeID
  vote : KeepsVote r.state r'.state
  file : r'.file = r.file ∨ r'.file = r'.state
  indexed : WellIndexed r'.state

lemma StoreEdits.moves (h : StoreEdits p r r') (hp : p) (hidx : WellIndexed r.state) : Moves r r' :=
  ⟨h.nodeID, h.vote hp, h.file, h.indexed hidx⟩

lemma Moves.persistLocked (hvote : KeepsVote r.state s) (hidx : WellIndexed s) (ok : Bool) :
    Moves r ({ r with state := s }.persistLocked ok).2 := by
  cases ok with
  | false => exact ⟨rfl, hvote, .inl rfl, hidx⟩
  | true => exact ⟨rfl, hvote, .inr rfl, hidx⟩

lemma StoreCall.moves (h : WellIndexed r.state) (hfits : call.fits r) (hne : call ≠ .reopen)
    (hrun : call.run epoch r = some r') : Moves r r' := by
  cases call with
  | compactCommitted ok =>
    cases hrun
    rcases r.compactCommitted_cases ok with ⟨x, hcall⟩ | ⟨-, -, term, -, hcall⟩ <;> rw [hcall]
    · exact (StoreEdits.refl r).moves trivial h
    · refine .persistLocked ?_ ⟨le_rfl, Nat.le_add_right _ _⟩ ok
      exact .inr ⟨rfl, .inr rfl⟩
  | installSnapshot q ok =>
    cases hrun
    rcases StoreEdits.installSnapshot r q ok with hedits | ⟨-, -, hcall⟩
    · exact hedits.moves trivial h
    · rw [hcall]
      refine .persistLocked ?_ ⟨le_rfl, Nat.le_add_right _ _⟩ ok
      exact .withTerm r.state q.term
  | _ => exact ((StoreCall.edits h rfl rfl hrun).resolve_right hne).moves hfits h

lemma StoreCall.run_reopen (hrun : StoreCall.reopen.run epoch r = some r') :
    openRaftStore r.nodeID epoch (some r.file) true = .ok r' := by
  rw [StoreCall.run] at hrun
  cases hopen : openRaftStore r.nodeID epoch (some r.file) true with
  | error err => simp [hopen, Except.toOption] at hrun
  | ok r₁ =>
    rw [hopen] at hrun
    rw [show r₁ = r' from Option.some.inj hrun]

lemma RaftStore.persisted_ok {α : Type} {result x : α} (h : (r.persisted ok result).1 = .ok x) :
    x = result ∧ (r.persisted ok result).2 = ⟨r.nodeID, r.state, r.state⟩ := by
  cases ok with
  | false => simp [persisted_false] at h
  | true => exact ⟨(Except.ok.inj h).symm, rfl⟩

lemma requestVote_kept {q : RequestVoteRequest} {y : RequestVoteResponse}
    (hfits : (StoreCall.requestVote q ok).fits r) (hok : (r.requestVote q ok).1 = .ok y)
    (hgrant : y.voteGranted) : q.candidateID ≠ [] ∧
      Voted (r.requestVote q ok).2.state q.term q.candidateID ∧
      Voted (r.requestVote q ok).2.file q.term q.candidateID := by
  rcases r.requestVote_cases q ok with ⟨x, hx, hcall⟩ | ⟨-, hcall⟩ | ⟨hvalid, hle, -, -, hcall⟩ |
    ⟨hvalid, hterm, hvote, hcall⟩ <;> rw [hcall] at hok ⊢
  · simp [hx y hok] at hgrant
  · obtain ⟨rfl, -⟩ := persisted_ok hok
    simp at hgrant
  · have hcur := withTerm_currentTerm hle
    rw [(persisted_ok hok).2]
    exact ⟨ne_nil_of_validNodeID hvalid, ⟨hcur, rfl⟩, hcur, rfl⟩
  · -- answered from memory: the file has it by assumption
    obtain ⟨hfile, hfileVote⟩ := hfits ⟨hterm, hvote⟩
    exact ⟨ne_nil_of_validNodeID hvalid, ⟨hterm, hvote⟩, hfile.trans hterm, hfileVote.trans hvote⟩

lemma beginElection_kept {y : RequestVoteRequest} (hok : (r.beginElection ok).1 = .ok y) :
    y.candidateID = r.nodeID ∧ Voted (r.beginElection ok).2.state y.term r.nodeID ∧
      Voted (r.beginElection ok).2.file y.term r.nodeID := by
  rcases r.beginElection_cases ok with ⟨err, hcall⟩ | ⟨s, rfl, hcall⟩ <;> rw [hcall] at hok ⊢
  · simp at hok
  · obtain ⟨rfl, hr⟩ := persisted_ok hok
    rw [hr]
    exact ⟨rfl, ⟨rfl, rfl⟩, rfl, rfl⟩

/-- A vote a call gives is in memory and in the file. -/
lemma StoreCall.votes_kept (hfits : call.fits r) (hvalid : validNodeID r.nodeID)
    (hrun : call.run epoch r = some r') (hc : (t, c) ∈ call.votes r) :
    c ≠ [] ∧ Voted r'.state t c ∧ Voted r'.file t c := by
  cases call with
  | requestVote q ok =>
    cases hrun
    rw [StoreCall.votes] at hc
    split at hc
    · rename_i y hok
      split_ifs at hc with hgrant
      · obtain ⟨rfl, rfl⟩ := Prod.mk.inj (mem_singleton.1 hc)
        exact requestVote_kept hfits hok hgrant
      · simp at hc
    · simp at hc
  | beginElection ok =>
    cases hrun
    rw [StoreCall.votes] at hc
    split at hc
    · rename_i y hok
      obtain ⟨rfl, rfl⟩ := Prod.mk.inj (mem_singleton.1 hc)
      obtain ⟨hid, hkept⟩ := beginElection_kept hok
      rw [hid]
      exact ⟨ne_nil_of_validNodeID hvalid, hkept⟩
    · simp at hc
  | configureVoters | observeTerm | appendEntries | appendCommand | commitWithVoterAcks
  | compactCommitted | installSnapshot | reopen => simp [StoreCall.votes] at hc

lemma entryAt_of_lt {i : ℕ} (h : s.snapshotIndex < i) :
    s.entryAt i = s.entries[i - s.snapshotIndex - 1]? := by
  rw [entryAt, if_neg (by omega)]

lemma appendEntries_kept (hfits : (StoreCall.appendEntries q ok).fits r) :
    (StoreCall.appendEntries q ok).Kept r := by
  intro y hok hsucs
  rcases r.appendEntries_cases q ok with ⟨x, hx, hcall⟩ | ⟨-, s, hs, hrest⟩
  · rw [hcall] at hok
    simp [hx y hok] at hsucs
  rcases hrest with hcall | ⟨hprev, x, log, hloop, hrest⟩
  · rw [hcall] at hok
    obtain ⟨rfl, -⟩ := persisted_ok hok
    simp at hsucs
  rcases hrest with ⟨err, -, hcall⟩ | ⟨-, err, -, -, hcall⟩ | ⟨rfl, s', hs', hcall⟩
  · simp [hcall] at hok
  · simp [hcall] at hok
  rw [hcall] at hok ⊢
  obtain ⟨rfl, hr⟩ := persisted_ok hok
  rw [hr]
  simp only
  -- the batch is in the log that is committed and written
  have hsame : s'.snapshotIndex = s.snapshotIndex ∧ s'.entries = log := by
    rcases hs' with ⟨-, rfl⟩ | ⟨-, happly⟩
    · exact ⟨rfl, rfl⟩
    · obtain ⟨a, -, rfl⟩ := applyThroughLocked_ok happly
      exact ⟨rfl, rfl⟩
  obtain ⟨hsnap, hlast, -⟩ := matchesPrevious_iff.1 hprev
  rw [lastLogLocked_fst] at hlast
  obtain ⟨hlen, hget⟩ := appendLoop_getElem? hloop hsnap (by omega) (by
    intro k e d he hd hterm
    refine hfits (e, k) (mem_zipIdx_iff_getElem?.2 he) d ?_ hterm
    have hstate : r.state.entries = s.entries ∧ r.state.snapshotIndex = s.snapshotIndex := by
      rw [hs]
      obtain ⟨-, h₂, -, -, -, -, h₇⟩ := StoreSameLog.withTerm r.state q.term
      exact ⟨h₇.symm, h₂.symm⟩
    rw [entryAt_of_lt (by simp only; omega), hstate.1, hstate.2,
      show q.prevLogIndex + k + 1 - s.snapshotIndex - 1 = q.prevLogIndex + k - s.snapshotIndex by omega]
    exact hd)
  refine ⟨?_, fun k e he => ?_⟩
  · rw [lastLogLocked_fst, hsame.1, hsame.2]
    omega
  · rw [entryAt_of_lt (by omega), hsame.1, hsame.2,
      show q.prevLogIndex + k + 1 - s.snapshotIndex - 1 = q.prevLogIndex + k - s.snapshotIndex by omega]
    exact hget k e he

lemma appendCommand_kept {command : MetadataCommand}
    (hfits : (StoreCall.appendCommand t command ok).fits r) :
    (StoreCall.appendCommand t command ok).Kept r := by
  intro index hok
  rcases r.appendCommand_cases t command ok with ⟨err, hcall⟩ |
    ⟨-, -, -, -, ⟨-, hlast, hcall⟩ | ⟨-, s, rfl, hcall⟩⟩ <;> rw [hcall] at hok ⊢
  · simp at hok
  · -- answered from memory: the file has the log by assumption
    obtain ⟨hents, hsnap⟩ := hfits hlast
    cases hok
    rw [List.getLast?_eq_getElem?] at hlast
    have hpos := (List.getElem?_eq_some_iff.1 hlast).1
    rw [lastLogLocked_fst, entryAt_of_lt (by rw [hsnap]; omega), hents, hsnap, Nat.add_sub_cancel_left]
    exact hlast
  · obtain ⟨rfl, hr⟩ := persisted_ok hok
    rw [hr, lastLogLocked_fst]
    simp only [length_append, length_singleton]
    rw [entryAt_of_lt (by simp only; omega)]
    simp only
    rw [show r.state.snapshotIndex + (r.state.entries.length + 1) - r.state.snapshotIndex - 1 =
      r.state.entries.length by omega, List.getElem?_append_right le_rfl, Nat.sub_self]
    rfl

lemma installSnapshot_kept (hidx : WellIndexed r.state) (q : InstallSnapshotRequest) (ok : Bool) :
    (StoreCall.installSnapshot q ok).Kept r := by
  intro y hok hsucs
  have hcommit : (r.state.withTerm q.term).commitIndex = r.state.commitIndex :=
    congrArg Applied.commitIndex (StoreSameLog.withTerm r.state q.term).applied
  rcases r.installSnapshot_cases q ok with ⟨x, hx, hcall⟩ |
    ⟨-, -, -, s, rfl, ⟨hle, hcall⟩ | ⟨hlt, hcall⟩⟩ <;> rw [hcall] at hok ⊢
  · simp [hx y hok] at hsucs
  · obtain ⟨rfl, hr⟩ := persisted_ok hok
    simp only [hr, lastLogLocked_fst]
    exact ⟨hle, le_rfl, (hidx.withTerm q.term).2, fun hlt => by omega⟩
  · obtain ⟨rfl, hr⟩ := persisted_ok hok
    simp only [hr, lastLogLocked_fst]
    exact ⟨le_rfl, le_rfl, Nat.le_add_right _ _, fun _ => rfl⟩

lemma StoreCall.kept (hfits : call.fits r) (hidx : WellIndexed r.state) : call.Kept r := by
  cases call with
  | requestVote q ok =>
    intro y hok hgrant
    exact (requestVote_kept hfits hok hgrant).2.2.holds
  | appendEntries q ok => exact appendEntries_kept hfits
  | appendCommand t command ok => exact appendCommand_kept hfits
  | installSnapshot q ok => exact installSnapshot_kept hidx q ok
  | configureVoters | observeTerm | beginElection | commitWithVoterAcks | compactCommitted
  | reopen => trivial

end

/-- What holds of a store along a run. -/
structure JournalInv (j : Journal) : Prop where
  nodeID : validNodeID j.store.nodeID = true
  indexed : WellIndexed j.store.state
  votes : ∀ t c, (t, c) ∈ j.votes → c ≠ [] ∧ HoldsVote j.store.state t c ∧ HoldsVote j.store.file t c
  unique : ∀ t c c', (t, c) ∈ j.votes → (t, c') ∈ j.votes → c = c'

lemma JournalInv.step {j j' : Journal} {epoch : ℕ} {call : StoreCall} (h : JournalInv j)
    (hfits : call.fits j.store) (hstep : j.step epoch call = some j') : JournalInv j' := by
  obtain ⟨r', hrun, rfl⟩ := Option.map_eq_some_iff.1 hstep
  -- votes that were given stay in memory and in the file
  have hold : validNodeID r'.nodeID ∧ WellIndexed r'.state ∧ ∀ t c, (t, c) ∈ j.votes →
      c ≠ [] ∧ HoldsVote r'.state t c ∧ HoldsVote r'.file t c := by
    by_cases hcall : call = .reopen
    · subst hcall
      obtain ⟨hvalid, hid, hidx, hterm, hvote, hfile⟩ :=
        openRaftStore_ok (StoreCall.run_reopen hrun)
      refine ⟨hid ▸ hvalid, hidx, fun t c hc => ?_⟩
      obtain ⟨hne, -, hheld⟩ := h.votes t c hc
      rw [HoldsVote, HoldsVote, hterm, hvote, hfile _ rfl]
      exact ⟨hne, hheld, hheld⟩
    · have hmoves := StoreCall.moves h.indexed hfits hcall hrun
      refine ⟨hmoves.nodeID ▸ h.nodeID, hmoves.indexed, fun t c hc => ?_⟩
      obtain ⟨hne, hmem, hheld⟩ := h.votes t c hc
      have hmem' := hmem.keeps hne hmoves.vote
      refine ⟨hne, hmem', ?_⟩
      rcases hmoves.file with hfile | hfile <;> rw [hfile]
      · exact hheld
      · exact hmem'
  obtain ⟨hvalid, hidx, hold⟩ := hold
  have hnew : ∀ t c, (t, c) ∈ call.votes j.store → c ≠ [] ∧ Voted r'.state t c ∧ Voted r'.file t c :=
    fun t c hc => StoreCall.votes_kept hfits h.nodeID hrun hc
  have holdnew : ∀ t c c', (t, c) ∈ j.votes → (t, c') ∈ call.votes j.store → c = c' := by
    intro t c c' hc hc'
    obtain ⟨-, ⟨hterm, hvote⟩, -⟩ := hnew t c' hc'
    exact ((hold t c hc).2.1.2 hterm).symm.trans hvote
  refine ⟨hvalid, hidx, fun t c hc => ?_, fun t c c' hc hc' => ?_⟩
  · rcases mem_append.1 hc with hc | hc
    · exact hold t c hc
    · obtain ⟨hne, hmem, hfile⟩ := hnew t c hc
      exact ⟨hne, hmem.holds, hfile.holds⟩
  · rcases mem_append.1 hc with hc | hc <;> rcases mem_append.1 hc' with hc' | hc'
    · exact h.unique t c c' hc hc'
    · exact holdnew t c c' hc hc'
    · exact (holdnew t c' c hc' hc).symm
    · exact (hnew t c hc).2.1.2.symm.trans (hnew t c' hc').2.1.2

lemma Journal.Reachable.inv
    (h : Journal.Reachable epoch (fun r call => call.fits r ∧ call.inRange r) j) :
    JournalInv j := by
  induction h with
  | opened hopen =>
    obtain ⟨hvalid, hid, hidx, -⟩ := openRaftStore_ok hopen
    exact ⟨hid ▸ hvalid, hidx, by simp, by simp⟩
  | step _ hallow hstep ih => exact ih.step hallow.1 hstep

/-- **Durable promises.**  Whatever writes fail and whenever the process starts again, the
answer to every call is backed by the file, and the node votes for one candidate a term. -/
theorem durable_promises {epoch : ℕ} {j : Journal}
    (h : Journal.Reachable epoch (fun r call => call.fits r ∧ call.inRange r) j) :
    (∀ call : StoreCall, call.fits j.store ∧ call.inRange j.store → call.Kept j.store) ∧
      ∀ t c c', (t, c) ∈ j.votes → (t, c') ∈ j.votes → c = c' :=
  ⟨fun _ hallow => StoreCall.kept hallow.1 h.inv.indexed, h.inv.unique⟩

def freshJournal : Journal :=
  ⟨⟨sampleNode 1, .bootstrap 1, .bootstrap 1⟩, []⟩

lemma freshJournal_reachable : Journal.Reachable 1 allowed freshJournal :=
  @Journal.Reachable.opened _ _ (sampleNode 1) none _ (by decide +kernel)

/-- The write of a vote for node 2 fails, the process starts again, and node 3 asks. -/
def failedVoteCalls : List StoreCall :=
  [.requestVote ⟨1, sampleNode 2, 0, 0⟩ false, .reopen, .requestVote ⟨1, sampleNode 3, 0, 0⟩ true,
    .appendEntries ⟨1, sampleNode 3, 0, 0, [⟨1, sampleAdvance 2 7⟩], 0⟩ false, .reopen]

theorem durable_promises_failedVote :
    ∃ j, freshJournal.run (fun r call => call.fits r ∧ call.inRange r) 1 failedVoteCalls = some j ∧
      (1, sampleNode 3) ∈ j.votes ∧ (∀ c, (1, c) ∈ j.votes → c = sampleNode 3) ∧
      (StoreCall.requestVote ⟨1, sampleNode 3, 0, 0⟩ true).Kept j.store := by
  obtain ⟨j, hj, hfacts⟩ := Option.map_eq_some_iff.1
    (show (freshJournal.run (fun r call => call.fits r ∧ call.inRange r) 1 failedVoteCalls).map
      (fun j => (j.votes, decide ((StoreCall.requestVote ⟨1, sampleNode 3, 0, 0⟩ true).fits j.store ∧
        (StoreCall.requestVote ⟨1, sampleNode 3, 0, 0⟩ true).inRange j.store))) =
        some ([(1, sampleNode 3)], true) by decide +kernel)
  obtain ⟨hvotes, hallow⟩ := Prod.mk.inj hfacts
  obtain ⟨hkept, hunique⟩ := durable_promises (freshJournal_reachable.run hj)
  have hvote : (1, sampleNode 3) ∈ j.votes := by simp [hvotes]
  exact ⟨j, hj, hvote, fun c hc => hunique 1 c _ hc hvote, hkept _ (of_decide_eq_true hallow)⟩

/-- A vote whose write has failed is granted when it is asked for again, and nothing is
written: after the next start the node votes for another candidate in the same term.  A
command whose write has failed is likewise acknowledged when it is repeated. -/
theorem broken_promises :
    (∃ j, Journal.Reachable 1 (fun _ _ => True) j ∧
      ¬ (StoreCall.requestVote ⟨1, sampleNode 2, 0, 0⟩ true).Kept j.store) ∧
    (∃ j, Journal.Reachable 1 (fun _ _ => True) j ∧ (1, sampleNode 2) ∈ j.votes ∧
      (1, sampleNode 3) ∈ j.votes ∧ sampleNode 2 ≠ sampleNode 3) ∧
    ∃ j, Journal.Reachable 1 (fun _ _ => True) j ∧
      ¬ (StoreCall.appendCommand 1 (sampleAdvance 2 7) true).Kept j.store := by
  refine ⟨?_, ?_, ?_⟩
  · obtain ⟨j, hj, hfacts⟩ := Option.map_eq_some_iff.1
      (show (freshJournal.run (fun _ _ => True) 1 [.requestVote ⟨1, sampleNode 2, 0, 0⟩ false]).map
        (fun j => ((j.store.requestVote ⟨1, sampleNode 2, 0, 0⟩ true).1,
          (j.store.requestVote ⟨1, sampleNode 2, 0, 0⟩ true).2.file.currentTerm)) =
          some (.ok ⟨1, true⟩, 0) by decide +kernel)
    obtain ⟨hans, hfile⟩ := Prod.mk.inj hfacts
    refine ⟨j, freshJournal_reachable.run hj, fun hkept => ?_⟩
    have hterm := (hkept _ hans rfl).1
    rw [hfile] at hterm
    simp at hterm
  · obtain ⟨j, hj, hvotes⟩ := Option.map_eq_some_iff.1
      (show (freshJournal.run (fun _ _ => True) 1 [.requestVote ⟨1, sampleNode 2, 0, 0⟩ false,
        .requestVote ⟨1, sampleNode 2, 0, 0⟩ true, .reopen,
        .requestVote ⟨1, sampleNode 3, 0, 0⟩ true]).map Journal.votes =
          some [(1, sampleNode 2), (1, sampleNode 3)] by decide +kernel)
    exact ⟨j, freshJournal_reachable.run hj, by simp [hvotes], by simp [hvotes], by decide +kernel⟩
  · obtain ⟨j, hj, hfacts⟩ := Option.map_eq_some_iff.1
      (show (freshJournal.run (fun _ _ => True) 1 [.beginElection true,
        .appendCommand 1 (sampleAdvance 2 7) false]).map
        (fun j => ((j.store.appendCommand 1 (sampleAdvance 2 7) true).1,
          (j.store.appendCommand 1 (sampleAdvance 2 7) true).2.file.entryAt 1)) =
          some (.ok 1, none) by decide +kernel)
    obtain ⟨hans, hfile⟩ := Prod.mk.inj hfacts
    refine ⟨j, freshJournal_reachable.run hj, fun hkept => ?_⟩
    have hentry := hkept 1 hans
    rw [hfile] at hentry
    simp at hentry

end GideonDB.Cluster
