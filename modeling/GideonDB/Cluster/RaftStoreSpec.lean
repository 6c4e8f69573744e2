/-
What each call of a store can do, said once.

Every lemma here lists the outcomes of one call: the store it leaves, what was written
to the file (`persisted`), and what must have held for the call to get there.  The
proofs about groups of stores use these lists and never unfold a call.
-/
import GideonDB.Cluster.RaftOpen

namespace GideonDB.Cluster

open Go RaftPersistentState List

/-! ### Applying entries -/

lemma addOne_le (n : ℕ) : addOne n ≤ n + 1 := Nat.mod_le _ _

lemma addOne_ne (n : ℕ) : n ≠ addOne n := by
  rw [addOne]
  omega

/-- The four ways a command applies. -/
inductive Applied.Applies (a : Applied) (command : MetadataCommand) : Applied → Prop
  /-- The epoch advances. -/
  | advance (htype : command.type = .advanceEpoch) (hjoint : a.jointOld = [])
      (hepoch : command.epoch = addOne a.appliedEpoch) (hle : a.appliedEpoch ≤ command.epoch) :
      Applies a command { a with
        commitIndex := a.commitIndex + 1
        appliedEpoch := command.epoch
        committedView := some (commandView command) }
  /-- The applied epoch is repeated with the same view. -/
  | duplicate (htype : command.type = .advanceEpoch) (hjoint : a.jointOld = [])
      (hepoch : command.epoch = a.appliedEpoch) (hle : command.epoch ≤ addOne a.appliedEpoch)
      (hview : a.committedView = some (commandView command)) :
      Applies a command { a with commitIndex := a.commitIndex + 1 }
  /-- A transition begins. -/
  | begins (htype : command.type = .beginJointConsensus) (hjoint : a.jointOld = [])
      (hepoch : command.epoch = a.appliedEpoch)
      (hvoters : a.voters = [] ∨ a.voters = command.oldVoters) :
      Applies a command { a with
        commitIndex := a.commitIndex + 1
        voters := command.oldVoters
        jointOld := command.oldVoters
        jointNew := command.newVoters }
  /-- The transition in progress is finalized. -/
  | finalizes (htype : command.type = .finalizeJointConsensus)
      (hepoch : command.epoch = addOne a.appliedEpoch) (hold : command.oldVoters = a.jointOld)
      (hnew : command.newVoters = a.jointNew) :
      Applies a command { a with
        commitIndex := a.commitIndex + 1
        appliedEpoch := command.epoch
        committedView := some (commandView command)
        voters := command.newVoters
        jointOld := []
        jointNew := [] }

variable {a a' : Applied} {command : MetadataCommand}

lemma Applied.applies_of_ok (h : a.apply command = .ok a') : a.Applies command a' := by
  rw [Applied.apply] at h
  split at h
  · rename_i htype
    split at h
    · simp at h
    rename_i hguard
    simp only [not_or, not_not] at hguard
    split at h
    · rename_i hepoch
      rw [← Except.ok.inj h]
      exact .advance htype hguard.1 hepoch (by omega)
    · rename_i hepoch
      split at h
      · simp at h
      · rename_i hview
        have hle := addOne_le a.appliedEpoch
        rw [← Except.ok.inj h]
        exact .duplicate htype hguard.1 (by omega) (by omega) (not_not.1 hview)
  · rename_i htype
    have hold : ∀ voters, (if a.voters = [] then command.oldVoters else a.voters) = voters →
        command.oldVoters = voters → a.voters = [] ∨ a.voters = command.oldVoters := by
      rintro voters rfl hold
      split at hold
      · exact .inl ‹_›
      · exact .inr hold.symm
    generalize hvoters : (if a.voters = [] then command.oldVoters else a.voters) = voters at h hold
    simp only at h
    split at h
    · simp at h
    · rename_i hguard
      simp only [not_or, not_not] at hguard
      rw [← Except.ok.inj h, ← hguard.2.2]
      exact .begins htype hguard.2.1 hguard.1 (hold _ rfl hguard.2.2)
  · rename_i htype
    split at h
    · simp at h
    · rename_i hguard
      simp only [not_or, not_not] at hguard
      rw [← Except.ok.inj h]
      exact .finalizes htype hguard.1 hguard.2.1 hguard.2.2
  · simp at h

lemma Applied.ok_of_applies (h : a.Applies command a') : a.apply command = .ok a' := by
  cases h with
  | advance htype hjoint hepoch hle =>
    rw [Applied.apply, htype]
    simp only
    rw [if_neg (by simp only [hjoint, ne_eq, not_true_eq_false, false_or]; omega), if_pos hepoch]
  | duplicate htype hjoint hepoch hle hview =>
    have hne := addOne_ne a.appliedEpoch
    rw [Applied.apply, htype]
    simp only
    rw [if_neg (by simp only [hjoint, ne_eq, not_true_eq_false, false_or]; omega),
      if_neg (by omega), if_neg (not_not.2 hview)]
  | begins htype hjoint hepoch hvoters =>
    have hif : (if a.voters = [] then command.oldVoters else a.voters) = command.oldVoters := by
      split
      · rfl
      · exact hvoters.resolve_left ‹_›
    simp only [Applied.apply, htype, hif, hjoint, hepoch, ne_eq, not_true_eq_false, or_self,
      if_false]
  | finalizes htype hepoch hold hnew =>
    simp only [Applied.apply, htype, hepoch, hold, hnew, ne_eq, not_true_eq_false, or_self,
      if_false]

lemma Applied.apply_eq_ok : a.apply command = .ok a' ↔ a.Applies command a' :=
  ⟨Applied.applies_of_ok, Applied.ok_of_applies⟩

lemma Applied.apply_commitIndex
    (h : a.apply command = .ok a') : a'.commitIndex = a.commitIndex + 1 := by
  cases Applied.apply_eq_ok.1 h <;> rfl

variable {entries : List RaftEntry} {index : ℕ}

lemma applyLoop_commitIndex {rounds : ℕ} (h : applyLoop entries rounds index a = .ok a') :
    a'.commitIndex = a.commitIndex + rounds ∧ (rounds = 0 ∨ index + rounds ≤ entries.length) := by
  induction rounds generalizing index a with
  | zero =>
    rw [applyLoop, Except.ok.injEq] at h
    simp [h]
  | succ rounds ih =>
    rw [applyLoop] at h
    split at h
    · simp at h
    rename_i entry hentry
    split at h
    · simp at h
    rename_i a₁ ha₁
    have hlt := (List.getElem?_eq_some_iff.1 hentry).1
    obtain ⟨hcommit, hle⟩ := ih h
    rw [hcommit, Applied.apply_commitIndex ha₁]
    omega

variable {s : RaftPersistentState} {t : ℕ}

namespace RaftPersistentState

lemma applyThroughLocked_ok {s' : RaftPersistentState} {target : ℕ}
    (h : s.applyThroughLocked target = .ok s') :
    ∃ a, applyLoop s.entries (target - s.commitIndex) (s.commitIndex - s.snapshotIndex) s.applied =
        .ok a ∧
      s' = { s with
        commitIndex := max s.commitIndex target
        appliedEpoch := a.appliedEpoch
        committedView := a.committedView
        voters := a.voters
        jointOldVoters := a.jointOld
        jointNewVoters := a.jointNew } := by
  rw [applyThroughLocked] at h
  split at h
  · simp at h
  split at h
  · simp at h
  · rename_i a ha
    refine ⟨a, ha, ?_⟩
    have hcommit : a.commitIndex = max s.commitIndex target := by
      rw [(applyLoop_commitIndex ha).1]
      simp only [applied]
      omega
    rw [← Except.ok.inj h, hcommit]

lemma withTerm_currentTerm (h : s.currentTerm ≤ t) : (s.withTerm t).currentTerm = t := by
  rw [withTerm]
  split
  · rfl
  · omega

lemma withTerm_of_le (h : t ≤ s.currentTerm) : s.withTerm t = s := by
  rw [withTerm, if_neg (by omega)]

lemma withTerm_votedFor_of_lt (h : s.currentTerm < t) : (s.withTerm t).votedFor = [] := by
  rw [withTerm, if_pos h]

lemma withTerm_eq (s : RaftPersistentState) (t : ℕ) :
    s.withTerm t = { s with
      currentTerm := (s.withTerm t).currentTerm
      votedFor := (s.withTerm t).votedFor } := by
  rw [withTerm]
  split <;> rfl

end RaftPersistentState

namespace RaftStore

variable {r r' : RaftStore} {ok : Bool}

/-! ### Persisting -/

lemma matchesPrevious_iff {q : AppendEntriesRequest} :
    matchesPrevious s q ↔ s.snapshotIndex ≤ q.prevLogIndex ∧
      q.prevLogIndex ≤ s.lastLogLocked.1 ∧ s.termAtLocked q.prevLogIndex = .ok q.prevLogTerm := by
  simp [matchesPrevious, and_assoc]

/-- The state `AppendEntries` leaves once the batch is in the log: the leader's commit
index is applied as far as the log reaches. -/
def Committing (s s' : RaftPersistentState) (leaderCommit : ℕ) : Prop :=
  leaderCommit ≤ s.commitIndex ∧ s' = s ∨
    s.commitIndex < leaderCommit ∧
      s.applyThroughLocked (min leaderCommit s.lastLogLocked.1) = .ok s'

section

variable (r : RaftStore)

lemma persisted_true {α : Type} (result : α) :
    r.persisted true result = (.ok result, { r with file := r.state }) := rfl

lemma persisted_false {α : Type} (result : α) : r.persisted false result = (.error .io, r) := rfl

lemma persistLocked_true : r.persistLocked true = (.ok (), { r with file := r.state }) := rfl

/-! ### The calls -/

lemma observeTerm_cases (term : ℕ) (ok : Bool) :
    term ≤ r.state.currentTerm ∧ r.observeTerm term ok = (.ok (), r) ∨ r.state.currentTerm < term ∧
        r.observeTerm term ok = { r with state := r.state.withTerm term }.persistLocked ok := by
  rw [observeTerm]
  split_ifs with h
  · exact .inl ⟨‹_›, rfl⟩
  · exact .inr ⟨by omega, by rw [withTerm, if_pos (by omega)]⟩

lemma beginElection_cases (ok : Bool) :
    (∃ err, r.beginElection ok = (.error err, r)) ∨
      ∃ s, s = { r.state with currentTerm := addOne r.state.currentTerm, votedFor := r.nodeID } ∧
        r.beginElection ok = { r with state := s }.persisted ok
          ⟨s.currentTerm, r.nodeID, s.lastLogLocked.1, s.lastLogLocked.2⟩ := by
  rw [beginElection]
  split
  · exact .inl ⟨_, rfl⟩
  · exact .inr ⟨_, rfl, rfl⟩

/-- The outcomes of `RequestVote`: refused as it stands, refused with a higher term,
granted and recorded, or granted once more. -/
lemma requestVote_cases (q : RequestVoteRequest) (ok : Bool) :
    (∃ x, (∀ y, x = .ok y → y.voteGranted = false) ∧ r.requestVote q ok = (x, r)) ∨
    (r.state.currentTerm < q.term ∧
      r.requestVote q ok =
        { r with state := r.state.withTerm q.term }.persisted ok ⟨q.term, false⟩) ∨
    (validNodeID q.candidateID = true ∧ r.state.currentTerm ≤ q.term ∧
      upToDate (r.state.withTerm q.term) q = true ∧ (r.state.withTerm q.term).votedFor = [] ∧
      r.requestVote q ok =
        { r with state := { r.state.withTerm q.term with votedFor := q.candidateID } }.persisted ok
          ⟨q.term, true⟩) ∨
    (validNodeID q.candidateID = true ∧ r.state.currentTerm = q.term ∧
      r.state.votedFor = q.candidateID ∧ r.requestVote q ok = (.ok ⟨q.term, true⟩, r)) := by
  rw [requestVote]
  split
  · exact .inl ⟨_, by simp, rfl⟩
  rename_i hvalid
  simp only [not_or, not_not] at hvalid
  split
  · exact .inl ⟨_, by simp, rfl⟩
  split_ifs with hterm
  · exact .inl ⟨_, by simp, rfl⟩
  have hcur := withTerm_currentTerm (s := r.state) (t := q.term) (by omega)
  have hne := ne_nil_of_validNodeID hvalid.1
  simp only
  by_cases hup : upToDate (r.state.withTerm q.term) q = true
  · by_cases hvote : (r.state.withTerm q.term).votedFor = []
    · -- a vote is free: it is recorded
      have hcand : [] ≠ q.candidateID := fun h => hne h.symm
      refine .inr (.inr (.inl ⟨hvalid.1, by omega, hup, hvote, ?_⟩))
      simp [hup, hvote, hcur, hcand]
    · have hsame : r.state.currentTerm = q.term := by
        by_contra hlt
        exact hvote (withTerm_votedFor_of_lt (by omega))
      have hs := withTerm_of_le (s := r.state) (t := q.term) (by omega)
      rw [hs] at hup hvote ⊢
      by_cases hsome : r.state.votedFor = q.candidateID
      · refine .inr (.inr (.inr ⟨hvalid.1, hsame, hsome, ?_⟩))
        rw [← hsome]
        simp [hup, hsame, hsome]
        rw [← hsome, ← hsame]
      · refine .inl ⟨.ok ⟨r.state.currentTerm, false⟩, by simp, ?_⟩
        simp [hvote, hsome, hsame]
  · by_cases hlt : r.state.currentTerm < q.term
    · refine .inr (.inl ⟨hlt, ?_⟩)
      simp [hup, hlt, hcur]
    · refine .inl ⟨.ok ⟨r.state.currentTerm, false⟩, by simp, ?_⟩
      rw [withTerm_of_le (by omega)] at hup ⊢
      simp [hup, hlt]

lemma appendCommit_cases (q : AppendEntriesRequest) (ok : Bool) :
    (∃ err, r.state.commitIndex < q.leaderCommit ∧
      r.state.applyThroughLocked (min q.leaderCommit r.state.lastLogLocked.1) = .error err ∧
      r.appendCommit q ok = (.error err, r)) ∨
    ∃ s', Committing r.state s' q.leaderCommit ∧
      r.appendCommit q ok = { r with state := s' }.persisted ok ⟨r.state.currentTerm, true,
        max q.prevLogIndex r.state.snapshotIndex + q.entries.length⟩ := by
  rw [appendCommit]
  split_ifs with hlt
  · split
    · rename_i err herr
      exact .inl ⟨err, hlt, herr, rfl⟩
    · rename_i s' hs'
      exact .inr ⟨s', .inr ⟨hlt, hs'⟩, rfl⟩
  · exact .inr ⟨r.state, .inl ⟨by omega, rfl⟩, rfl⟩

/-- The outcomes of `AppendEntries`: refused as it stands; refused because the log does
not reach the batch, with the term written; stopped by an entry; stopped by the commit;
or successful. -/
lemma appendEntries_cases (q : AppendEntriesRequest) (ok : Bool) :
    (∃ x, (∀ y, x = .ok y → y.success = false) ∧ r.appendEntries q ok = (x, r)) ∨
    (r.state.currentTerm ≤ q.term ∧ ∃ s, s = r.state.withTerm q.term ∧
      (r.appendEntries q ok = { r with state := s }.persisted ok ⟨q.term, false, 0⟩ ∨
      matchesPrevious s q = true ∧ ∃ y log,
        appendLoop s.commitIndex s.snapshotIndex (q.prevLogIndex + 1) q.entries s.entries =
          (y, log) ∧
        ((∃ err, y = .error err ∧
            r.appendEntries q ok = (.error err, { r with state := { s with entries := log } })) ∨
          (y = .ok () ∧ ∃ err,
            s.commitIndex < q.leaderCommit ∧
            { s with entries := log }.applyThroughLocked
                (min q.leaderCommit { s with entries := log }.lastLogLocked.1) = .error err ∧
            r.appendEntries q ok = (.error err, { r with state := { s with entries := log } })) ∨
          (y = .ok () ∧ ∃ s', Committing { s with entries := log } s' q.leaderCommit ∧
            r.appendEntries q ok = { r with state := s' }.persisted ok
              ⟨q.term, true, q.prevLogIndex + q.entries.length⟩)))) := by
  rw [appendEntries]
  split
  · exact .inl ⟨_, by simp, rfl⟩
  split
  · exact .inl ⟨_, by simp, rfl⟩
  split
  · exact .inl ⟨_, by simp, rfl⟩
  split_ifs with hterm
  · exact .inl ⟨_, by simp, rfl⟩
  refine .inr ⟨by omega, _, rfl, ?_⟩
  have hcur := withTerm_currentTerm (s := r.state) (t := q.term) (by omega)
  simp only
  split
  · left
    rw [hcur]
  rename_i hprev
  rw [not_not] at hprev
  refine .inr ⟨hprev, _, _, rfl, ?_⟩
  split
  · rename_i err log hloop
    exact .inl ⟨err, by rw [hloop], by rw [hloop]⟩
  · rename_i log hloop
    rw [hloop]
    rcases appendCommit_cases
      { r with state := { r.state.withTerm q.term with entries := log } } q ok with
      ⟨err, hlt, herr, h⟩ | ⟨s', hs', h⟩
    · exact .inr (.inl ⟨rfl, err, hlt, herr, h⟩)
    · refine .inr (.inr ⟨rfl, s', hs', ?_⟩)
      rw [h]
      simp only [hcur, Nat.max_eq_left (matchesPrevious_iff.1 hprev).1]

/-- The outcomes of `AppendCommand`: refused, answered from the log, or appended. -/
lemma appendCommand_cases (term : ℕ) (command : MetadataCommand) (ok : Bool) :
    (∃ err, r.appendCommand term command ok = (.error err, r)) ∨
    (term ≠ 0 ∧ term = r.state.currentTerm ∧ r.state.votedFor = r.nodeID ∧
      validateRaftEntry ⟨term, command⟩ = .ok () ∧
      (r.state.lastLogLocked.1 > r.state.commitIndex ∧
          r.state.entries.getLast? = some ⟨term, command⟩ ∧
          r.appendCommand term command ok = (.ok r.state.lastLogLocked.1, r) ∨
        ¬ (r.state.lastLogLocked.1 > r.state.commitIndex ∧
            r.state.entries.getLast? = some ⟨term, command⟩) ∧
          ∃ s, s = { r.state with entries := r.state.entries ++ [⟨term, command⟩] } ∧
            r.appendCommand term command ok =
              { r with state := s }.persisted ok s.lastLogLocked.1)) := by
  rw [appendCommand]
  split_ifs with hlead
  · exact .inl ⟨_, rfl⟩
  simp only [not_or, not_not] at hlead
  simp only
  split
  · exact .inl ⟨_, rfl⟩
  rename_i hvalid
  refine .inr ⟨hlead.1, hlead.2.1, hlead.2.2, hvalid, ?_⟩
  split
  · rename_i hlast
    exact .inl ⟨hlast.1, hlast.2, rfl⟩
  · rename_i hfresh
    exact .inr ⟨hfresh, _, rfl, rfl⟩

lemma commitWithVoterAcks_cases (index term : ℕ) (acks : List GoString) (ok : Bool) :
    (∃ err, r.commitWithVoterAcks index term acks ok = (.error err, r)) ∨
    (r.state.hasVoterQuorum acks ∧ term = r.state.currentTerm ∧
      r.state.snapshotIndex < index ∧ r.state.termAtLocked index = .ok term ∧
      ∃ s, r.state.applyThroughLocked index = .ok s ∧
        r.commitWithVoterAcks index term acks ok = { r with state := s }.persistLocked ok) := by
  rw [commitWithVoterAcks]
  split
  · exact .inl ⟨_, rfl⟩
  rename_i hquor
  split_ifs with hentry
  · exact .inl ⟨_, rfl⟩
  simp only [not_or, not_not] at hentry hquor
  split
  · exact .inl ⟨_, rfl⟩
  rename_i s hs
  exact .inr ⟨hquor, hentry.1, by omega, hentry.2.2, s, hs, rfl⟩

lemma compactCommitted_cases (ok : Bool) :
    (∃ x, r.compactCommitted ok = (x, r)) ∨
    (r.state.jointOldVoters = [] ∧ r.state.commitIndex ≠ r.state.snapshotIndex ∧
      ∃ term, r.state.termAtLocked r.state.commitIndex = .ok term ∧
        r.compactCommitted ok = { r with
          state := { r.state with
            entries := r.state.entries.drop (r.state.commitIndex - r.state.snapshotIndex)
            snapshotIndex := r.state.commitIndex
            snapshotTerm := term
            snapshotEpoch := r.state.appliedEpoch
            snapshotView := r.state.committedView } }.persistLocked ok) := by
  rw [compactCommitted]
  split
  · exact .inl ⟨_, rfl⟩
  rename_i hjoint
  split_ifs with hne
  · exact .inl ⟨_, rfl⟩
  split
  · exact .inl ⟨_, rfl⟩
  rename_i term hterm
  exact .inr ⟨not_not.1 hjoint, hne, term, hterm, rfl⟩

/-- The outcomes of `InstallSnapshot`: refused, already covered by the commit index, or
installed. -/
lemma installSnapshot_cases (q : InstallSnapshotRequest) (ok : Bool) :
    (∃ x, (∀ y, x = .ok y → y.success = false) ∧ r.installSnapshot q ok = (x, r)) ∨
    (r.state.currentTerm ≤ q.term ∧ validSnapshot r.nodeID q.snapshot ∧
      (r.state.voters = [] ∨ r.state.voters = q.snapshot.voters) ∧
      ∃ s, s = r.state.withTerm q.term ∧
        (q.snapshot.lastIncludedIndex ≤ s.commitIndex ∧
          r.installSnapshot q ok =
            { r with state := s }.persisted ok ⟨q.term, true, s.commitIndex⟩ ∨
        s.commitIndex < q.snapshot.lastIncludedIndex ∧
          r.installSnapshot q ok = { r with state := installed s q.snapshot }.persisted ok
            ⟨q.term, true, q.snapshot.lastIncludedIndex⟩)) := by
  rw [installSnapshot]
  simp only
  split
  · exact .inl ⟨_, by simp, rfl⟩
  split
  · exact .inl ⟨_, by simp, rfl⟩
  split
  · exact .inl ⟨_, by simp, rfl⟩
  rename_i hvalid
  split
  · exact .inl ⟨_, by simp, rfl⟩
  rename_i hvoters
  split
  · exact .inl ⟨_, by simp, rfl⟩
  rename_i hterm
  have hcur := withTerm_currentTerm (s := r.state) (t := q.term) (by omega)
  have hv : r.state.voters = [] ∨ r.state.voters = q.snapshot.voters := by
    by_contra h
    exact hvoters (by simpa [not_or] using h)
  refine .inr ⟨by omega, not_not.1 hvalid, hv, _, rfl, ?_⟩
  split_ifs with hle
  · exact .inl ⟨hle, by rw [hcur]⟩
  · exact .inr ⟨by omega, by rw [hcur]⟩

lemma configureVoters_cases (voters : List GoString) (ok : Bool) :
    (∃ x, r.configureVoters voters ok = (x, r)) ∨
    (r.state.voters = [] ∧ ∃ normalized, normalizeVoters voters r.nodeID = .ok normalized ∧
      r.configureVoters voters ok =
        { r with state := { r.state with voters := normalized } }.persistLocked ok) := by
  rw [configureVoters]
  split
  · exact .inl ⟨_, rfl⟩
  rename_i normalized hnorm
  split
  · split
    · exact .inl ⟨_, rfl⟩
    · exact .inl ⟨_, rfl⟩
  · rename_i hnil
    exact .inr ⟨not_not.1 hnil, normalized, hnorm, rfl⟩

end

end RaftStore

/-! ### Calls that only concern the term and the vote -/

/-- The state `s'` differs from `s` in the term and the vote only. -/
structure SameLog (s s' : RaftPersistentState) : Prop where
  term : s.currentTerm ≤ s'.currentTerm
  snapshotIndex : s'.snapshotIndex = s.snapshotIndex
  snapshotTerm : s'.snapshotTerm = s.snapshotTerm
  snapshotEpoch : s'.snapshotEpoch = s.snapshotEpoch
  snapshotView : s'.snapshotView = s.snapshotView
  applied : s'.applied = s.applied
  entries : s'.entries = s.entries

/-- A call changes the term and the vote only, and writes nothing or everything. -/
def StoreSameLog (r r' : RaftStore) : Prop :=
  SameLog r.state r'.state ∧ (r'.file = r.file ∨ r'.file = r'.state)

namespace StoreSameLog

lemma refl (r : RaftStore) : StoreSameLog r r :=
  ⟨⟨le_rfl, rfl, rfl, rfl, rfl, rfl, rfl⟩, .inl rfl⟩

lemma withTerm (s : RaftPersistentState) (t : ℕ) : SameLog s (s.withTerm t) := by
  rw [RaftPersistentState.withTerm]
  split
  · exact ⟨by simp only; omega, rfl, rfl, rfl, rfl, rfl, rfl⟩
  · exact ⟨le_rfl, rfl, rfl, rfl, rfl, rfl, rfl⟩

lemma observeTerm (r : RaftStore) (t : ℕ) : StoreSameLog r (r.observeTerm t true).2 := by
  rcases r.observeTerm_cases t true with ⟨-, hcall⟩ | ⟨-, hcall⟩ <;> rw [hcall]
  · exact refl r
  · exact ⟨withTerm _ _, .inr rfl⟩

lemma beginElection (r : RaftStore) (hlt : r.state.currentTerm + 1 < 2 ^ 64) :
    StoreSameLog r (r.beginElection true).2 := by
  rcases r.beginElection_cases true with ⟨err, hcall⟩ | ⟨s, rfl, hcall⟩ <;> rw [hcall]
  · exact refl r
  · refine ⟨⟨?_, rfl, rfl, rfl, rfl, rfl, rfl⟩, .inr rfl⟩
    change r.state.currentTerm ≤ addOne r.state.currentTerm
    rw [addOne, Nat.mod_eq_of_lt hlt]
    omega

lemma requestVote (r : RaftStore) (q : RequestVoteRequest) :
    StoreSameLog r (r.requestVote q true).2 := by
  rcases r.requestVote_cases q true with ⟨x, -, hcall⟩ | ⟨-, hcall⟩ | ⟨-, -, -, -, hcall⟩ |
    ⟨-, -, -, hcall⟩ <;> rw [hcall]
  · exact refl r
  · exact ⟨withTerm _ _, .inr rfl⟩
  · obtain ⟨h₁, h₂, h₃, h₄, h₅, h₆, h₇⟩ := withTerm r.state q.term
    exact ⟨⟨h₁, h₂, h₃, h₄, h₅, h₆, h₇⟩, .inr rfl⟩
  · exact refl r

end StoreSameLog

/-! ### The loop of `AppendEntries` -/

/-- What holds of the log before the loop holds of it afterwards, if it stays when the log is cut
behind its committed part and when a valid entry of the request is appended. -/
lemma appendLoop_preserves {commit snap : ℕ} {P : List RaftEntry → Prop} {entries : List RaftEntry}
    (hcut : ∀ log k, commit - snap ≤ k → P log → P (log.take k))
    (hadd : ∀ log, ∀ e ∈ entries, ValidEntry e → P log → P (log ++ [e])) {index : ℕ}
    {log log' : List RaftEntry} {x : Except RaftError Unit}
    (h : RaftStore.appendLoop commit snap index entries log = (x, log')) (hlog : P log) : P log' := by
  induction entries generalizing index log with
  | nil =>
    rw [RaftStore.appendLoop, Prod.mk.injEq] at h
    rwa [← h.2]
  | cons e entries ih =>
    replace ih := @ih fun log d hd => hadd log d (mem_cons_of_mem _ hd)
    have hadd := fun log => hadd log e mem_cons_self
    rw [RaftStore.appendLoop] at h
    split at h
    · exact ih h hlog
    split at h
    · split at h
      · exact ih h hlog
      split at h
      · rwa [← (Prod.mk.inj h).2]
      have htake := hcut log (index - snap - 1) (by omega) hlog
      split at h
      · rwa [← (Prod.mk.inj h).2]
      · rename_i hvalid
        exact ih h (hadd _ hvalid htake)
    · split at h
      · rwa [← (Prod.mk.inj h).2]
      · rename_i hvalid
        exact ih h (hadd _ hvalid hlog)

lemma appendLoop_take {commit snap index : ℕ} {entries log log' : List RaftEntry}
    {x : Except RaftError Unit} (h : RaftStore.appendLoop commit snap index entries log = (x, log'))
    (hlog : commit - snap ≤ log.length) :
    commit - snap ≤ log'.length ∧ log'.take (commit - snap) = log.take (commit - snap) := by
  refine appendLoop_preserves (P := fun m => commit - snap ≤ m.length ∧
    m.take (commit - snap) = log.take (commit - snap)) (fun m k hk hm => ⟨?_, ?_⟩)
    (fun m e _ _ hm => ⟨?_, ?_⟩) h ⟨hlog, rfl⟩
  · rw [length_take]
    exact le_min hk hm.1
  · rw [take_take, Nat.min_eq_left hk, hm.2]
  · rw [length_append]
    exact hm.1.trans (Nat.le_add_right _ _)
  · rw [take_append_of_le_length hm.1, hm.2]

/-- A log takes over a batch: it stays as far as the terms agree, and from the first other one on
the batch takes its place. -/
def takeOver : List RaftEntry → List RaftEntry → List RaftEntry
  | log, [] => log
  | [], entries => entries
  | d :: log, e :: entries => if d.term = e.term then d :: takeOver log entries else e :: entries

@[simp] lemma takeOver_nil (entries : List RaftEntry) : takeOver [] entries = entries := by
  cases entries <;> rfl

/-- The entry at some place of the batch has another term than the one at that place of the log. -/
def Contradicts (entries log : List RaftEntry) : Prop :=
  ∃ (k : ℕ) (d e : RaftEntry), log[k]? = some d ∧ entries[k]? = some e ∧ d.term ≠ e.term

lemma not_contradicts_nil (entries : List RaftEntry) : ¬ Contradicts entries [] := by
  simp [Contradicts]

/-- The loop from the end of `head` on: the rest of the log takes over the batch, unless an entry
of it is not valid or contradicts a committed one. -/
lemma appendLoop_eq_takeOver {commit snap index : ℕ} {entries head log log' : List RaftEntry}
    {x : Except RaftError Unit} (hindex : index = snap + head.length + 1)
    (h : RaftStore.appendLoop commit snap index entries (head ++ log) = (x, log')) :
    (x = .ok () ∧ log' = head ++ takeOver log entries) ∨
    (∃ err, x = .error err) ∧ ((∃ e ∈ entries, ¬ ValidEntry e) ∨
      log' = head ++ log ∧ Contradicts entries log) := by
  induction entries generalizing index head log with
  | nil =>
    obtain ⟨rfl, rfl⟩ := Prod.mk.inj h
    exact .inl ⟨rfl, by rw [takeOver]⟩
  | cons e entries ih =>
    -- the loop goes on behind `d`
    have hrest : ∀ d rest, RaftStore.appendLoop commit snap (index + 1) entries
          (head ++ [d] ++ rest) = (x, log') →
        (x = .ok () ∧ log' = head ++ d :: takeOver rest entries) ∨
        (∃ err, x = .error err) ∧ ((∃ d ∈ e :: entries, ¬ ValidEntry d) ∨
          log' = head ++ d :: rest ∧ Contradicts entries rest) := by
      intro d rest h
      rcases ih (by simp [hindex]; omega) h with ⟨hx, hlog⟩ | ⟨hx, ⟨d, hd, hno⟩ | ⟨hlog, hdiff⟩⟩
      · exact .inl ⟨hx, by simpa using hlog⟩
      · exact .inr ⟨hx, .inl ⟨d, mem_cons_of_mem _ hd, hno⟩⟩
      · exact .inr ⟨hx, .inr ⟨by simpa using hlog, hdiff⟩⟩
    -- the entry takes the place of what is left of the log
    have hput : RaftStore.appendLoop commit snap (index + 1) entries (head ++ [e]) = (x, log') →
        (x = .ok () ∧ log' = head ++ e :: entries) ∨
        (∃ err, x = .error err) ∧ ∃ d ∈ e :: entries, ¬ ValidEntry d := by
      intro h
      rcases hrest e [] (by simpa using h) with hok | ⟨hx, hno | ⟨-, hdiff⟩⟩
      · exact .inl (by simpa using hok)
      · exact .inr ⟨hx, hno⟩
      · exact absurd hdiff (not_contradicts_nil _)
    have hbad : ∀ {err m}, validateRaftEntry e = .error err → (.error err, m) = (x, log') →
        (∃ err, x = .error err) ∧ ∃ d ∈ e :: entries, ¬ ValidEntry d := fun {err} _ herr h =>
      ⟨⟨err, (Prod.mk.inj h).1.symm⟩, e, mem_cons_self, by simp [ValidEntry, herr]⟩
    rw [RaftStore.appendLoop, if_neg (by omega), show index - snap - 1 = head.length by omega] at h
    cases log with
    | nil =>
      rw [append_nil, getElem?_eq_none le_rfl] at h
      simp only at h
      split at h
      · exact .inr ((hbad ‹_› h).imp_right .inl)
      · exact (hput h).imp id (And.imp_right .inl)
    | cons d log =>
      rw [getElem?_append_right le_rfl, Nat.sub_self, getElem?_cons_zero] at h
      simp only at h
      rw [takeOver]
      split at h
      · rename_i hterm
        rw [if_pos hterm]
        rcases hrest d log (by simpa using h) with hok | ⟨hx, hno | ⟨hlog, k, d', e', hd, he, hne⟩⟩
        · exact .inl hok
        · exact .inr ⟨hx, .inl hno⟩
        · exact .inr ⟨hx, .inr ⟨hlog, k + 1, d', e', hd, he, hne⟩⟩
      · rename_i hterm
        rw [if_neg hterm]
        split at h
        · obtain ⟨rfl, rfl⟩ := Prod.mk.inj h
          exact .inr ⟨⟨_, rfl⟩, .inr ⟨rfl, 0, d, e, rfl, rfl, hterm⟩⟩
        · rw [take_left] at h
          split at h
          · exact .inr ((hbad ‹_› h).imp_right .inl)
          · exact (hput h).imp id (And.imp_right .inl)

/-- Where the log and the batch have the same entry at places of the same term, the log stays if
it has the batch, and is the batch otherwise. -/
lemma takeOver_cases {log entries : List RaftEntry}
    (h : ∀ (k : ℕ) (d e : RaftEntry), log[k]? = some d → entries[k]? = some e → d.term = e.term → d = e) :
    entries <+: log ∧ takeOver log entries = log ∨
      ¬ entries <+: log ∧ takeOver log entries = entries := by
  induction entries generalizing log with
  | nil => exact .inl ⟨List.nil_prefix, by rw [takeOver]⟩
  | cons e entries ih =>
    cases log with
    | nil => exact .inr ⟨by simp, rfl⟩
    | cons d log =>
      rw [takeOver, cons_prefix_cons]
      split_ifs with hterm
      · obtain rfl := h 0 d e rfl rfl hterm
        rcases ih fun k => h (k + 1) with ⟨hpre, heq⟩ | ⟨hpre, heq⟩ <;> simp [hpre, heq]
      · refine .inr ⟨?_, rfl⟩
        rintro ⟨rfl, -⟩
        exact hterm rfl

end GideonDB.Cluster
