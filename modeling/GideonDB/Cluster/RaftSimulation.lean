/-
The group of stores simulates the abstract protocol.

`Sim P g a` relates a group `g` to a state `a` of the protocol of `Consensus/Protocol.lean`:
every store retains the end of the node's log, in memory and in the file; recorded votes,
counted elections and messages are backed by the protocol's history.  Each event of the
group is matched by steps of the protocol.

Nothing here depends on who the voters are.  Whether a count of votes is a quorum of
the protocol, and whether an entry may be appended that changes the quorums, is left
to the caller (`Sim.countVotes`, `Sim.appendCommand`).
-/
import GideonDB.Cluster.RaftGroup
import GideonDB.Cluster.RaftLog
import GideonDB.Consensus.Completeness

namespace GideonDB.Cluster

open Go Consensus Relation RaftPersistentState Cluster.Group RaftStore List

/-- A copy of a node's state has the vote the node gave in its current term. -/
structure VoteOK (a : Sys GoString RaftEntry) (n : GoString) (s : RaftPersistentState) : Prop where
  held : ∀ {w}, w ∈ a.votes → w.voter = n → w.term = s.currentTerm →
    s.votedFor = w.candidate ∧ w.candidate ≠ []
  given : s.votedFor ≠ [] →
    ∃ w ∈ a.votes, w.voter = n ∧ w.term = s.currentTerm ∧ w.candidate = s.votedFor

/-- A vote request names the end of the log its sender stood with. -/
def CandidacyOK (a : Sys GoString RaftEntry) (c : Candidacy) : Prop :=
  ∃ L, a.cand c.request.term c.request.candidateID = some L ∧ Holds ⟨c.request.term, L⟩ c.state ∧
    c.request.lastLogIndex = L.length ∧ c.request.lastLogTerm = lastTerm RaftEntry.term L

/-- `leader` was elected in `term` and had the log `ℓ` at some time since. -/
def LeaderLog (a : Sys GoString RaftEntry) (leader : GoString) (term : ℕ) (ℓ : List RaftEntry) :
    Prop :=
  (∃ r, a.reign term = some r ∧ r.owner = leader) ∧ ℓ <+: a.full term

/-- An append request is a segment of the leader's log. -/
structure AppendOK (a : Sys GoString RaftEntry) (m : AppendMessage) (ℓ : List RaftEntry) :
    Prop where
  leader : LeaderLog a m.request.leaderID m.request.term ℓ
  sender : Holds ⟨m.request.term, ℓ⟩ m.sender
  snapshot_le : m.sender.snapshotIndex ≤ m.request.prevLogIndex
  length_le : m.request.prevLogIndex + m.request.entries.length ≤ ℓ.length
  entries : m.request.entries =
    (ℓ.drop m.request.prevLogIndex).take m.request.entries.length
  prevTerm : m.request.prevLogTerm = termAt RaftEntry.term ℓ m.request.prevLogIndex
  commit : m.request.leaderCommit = m.sender.commitIndex

/-- A snapshot request names an entry of the leader's log. -/
structure SnapshotOK (a : Sys GoString RaftEntry) (q : InstallSnapshotRequest)
    (ℓ : List RaftEntry) : Prop where
  leader : LeaderLog a q.leaderID q.term ℓ
  length_le : q.snapshot.lastIncludedIndex ≤ ℓ.length
  term : q.snapshot.lastIncludedTerm =
    termAt RaftEntry.term ℓ q.snapshot.lastIncludedIndex

/-- The leaders' logs stay as they are, except that a candidate may have come forward as
leader with the log it stood with. -/
def Elects (a a' : Sys GoString RaftEntry) : Prop :=
  ∀ t, a'.full t = a.full t ∨ ∃ n, a.cand t n = some (a'.full t)

/-- The group `g` and the protocol state `a` belong together. -/
structure Sim (P : Rules GoString RaftEntry) (g : Group) (a : Sys GoString RaftEntry) : Prop where
  rules : P.term = RaftEntry.term
  inv : a.Inv P
  nodeID : ∀ n, (g.store n).nodeID = n
  memory : ∀ n, Holds (a.memory n) (g.store n).state
  file : ∀ n, Holds (a.file n) (g.store n).file
  vote_memory : ∀ n, VoteOK a n (g.store n).state
  vote_file : ∀ n, VoteOK a n (g.store n).file
  candidacies : ∀ c ∈ g.candidacies, CandidacyOK a c
  grants : ∀ x ∈ g.grants, ∃ w ∈ a.votes, w.voter = x.voter ∧ w.term = x.term ∧
    w.candidate = x.candidate
  winners : ∀ x ∈ g.winners, ∃ r, a.reign x.2 = some r ∧ r.owner = x.1
  appends : ∀ m ∈ g.appends, ∃ ℓ, AppendOK a m ℓ
  snapshots : ∀ q ∈ g.snapshots, ∃ ℓ, SnapshotOK a q ℓ
  valid : ∀ t, ∀ e ∈ a.full t, validateRaftEntry e = .ok ()

/-! ### The history behind messages grows -/

variable {t : ℕ} {ℓ : List RaftEntry} {m : AppendMessage} {q : InstallSnapshotRequest}
  {c : Candidacy} {n : GoString} {s : RaftPersistentState}

section Mono

variable {a a' : Sys GoString RaftEntry} (h : Sys.Extends a a')

include h

lemma LeaderLog.mono {leader : GoString} (hℓ : LeaderLog a leader t ℓ) :
    LeaderLog a' leader t ℓ := by
  obtain ⟨⟨r, hr, hown⟩, hpre⟩ := hℓ
  obtain ⟨r', hr', hown', -⟩ := h.reign hr
  exact ⟨⟨r', hr', hown'.trans hown⟩, hpre.trans (h.full t)⟩

lemma AppendOK.mono (hm : AppendOK a m ℓ) : AppendOK a' m ℓ :=
  { hm with leader := hm.leader.mono h }

lemma SnapshotOK.mono (hq : SnapshotOK a q ℓ) : SnapshotOK a' q ℓ :=
  ⟨hq.leader.mono h, hq.length_le, hq.term⟩

lemma CandidacyOK.mono (hc : CandidacyOK a c) : CandidacyOK a' c := by
  obtain ⟨L, hL, hrest⟩ := hc
  exact ⟨L, h.cand hL, hrest⟩

lemma VoteOK.mono (hnew : ∀ w ∈ a'.votes, w.voter = n → w ∈ a.votes) (hs : VoteOK a n s) :
    VoteOK a' n s where
  held := fun hw hv ht => hs.held (hnew _ hw hv) hv ht
  given := by
    intro hne
    obtain ⟨w, hw, hrest⟩ := hs.given hne
    exact ⟨w, h.votes hw, hrest⟩

end Mono

variable {r : RaftStore} {L : List RaftEntry} {votes : List GoString}

namespace Sim

variable {P : Rules GoString RaftEntry} {g g' : Group} {a a' : Sys GoString RaftEntry}

lemma setStore_self (g : Group) (n : GoString) : g.setStore n (g.store n) = g := by
  simp [setStore]

lemma upToDate_iff {c : Cell RaftEntry} (h : Holds c s) {q : RequestVoteRequest}
    (hindex : q.lastLogIndex = L.length) (hterm : q.lastLogTerm = lastTerm RaftEntry.term L) :
    upToDate s q ↔ UpToDate RaftEntry.term L c.log := by
  simp only [upToDate, h.lastLog, hindex, hterm, Bool.or_eq_true, decide_eq_true_eq,
    Bool.and_eq_true, beq_iff_eq, UpToDate]
  grind

lemma granted_eq_nil {voter : GoString} {q : RequestVoteRequest}
    {x : Except RaftError RequestVoteResponse} (hx : ∀ y, x = .ok y → y.voteGranted = false) :
    granted voter q x = [] := by
  cases x with
  | error err => rfl
  | ok y => simp [granted, hx y rfl]

section

variable (h : Sim P g a)

include h

lemma congr (hstore : g'.store = g.store := by rfl)
    (hcand : g'.candidacies = g.candidacies := by rfl) (hgrants : g'.grants = g.grants := by rfl)
    (hwin : g'.winners = g.winners := by rfl) (happ : g'.appends = g.appends := by rfl)
    (hsnap : g'.snapshots = g.snapshots := by rfl) : Sim P g' a :=
  ⟨h.rules, h.inv, hstore ▸ h.nodeID, hstore ▸ h.memory, hstore ▸ h.file, hstore ▸ h.vote_memory,
    hstore ▸ h.vote_file, hcand ▸ h.candidacies, hgrants ▸ h.grants, hwin ▸ h.winners,
    happ ▸ h.appends, hsnap ▸ h.snapshots, h.valid⟩

lemma update (hrun : ReflTransGen (Sys.Step P) a a') (hn : r.nodeID = n)
    (hmem : ∀ m, m ≠ n → a'.memory m = a.memory m) (hfile : ∀ m, m ≠ n → a'.file m = a.file m)
    (hvotes : ∀ w ∈ a'.votes, w ∈ a.votes ∨ w.voter = n) (hmemory : Holds (a'.memory n) r.state)
    (hfile' : Holds (a'.file n) r.file) (hvm : VoteOK a' n r.state) (hvf : VoteOK a' n r.file)
    (hvalid : ∀ t, ∀ e ∈ a'.full t, validateRaftEntry e = .ok ()) : Sim P (g.setStore n r) a' := by
  obtain ⟨hinv, hext⟩ := h.inv.run hrun
  have hold : ∀ m, m ≠ n → ∀ w ∈ a'.votes, w.voter = m → w ∈ a.votes := by
    intro m hm w hw hv
    rcases hvotes w hw with hw | hw
    · exact hw
    · exact absurd (hv.symm.trans hw) hm
  have hstore : ∀ (p : GoString → RaftStore → Prop), p n r → (∀ m, m ≠ n → p m (g.store m)) →
      ∀ m, p m ((g.setStore n r).store m) := by
    intro p hnr hrest m
    by_cases hm : m = n
    · subst hm
      simpa [setStore] using hnr
    · simpa [setStore, hm] using hrest m hm
  refine ⟨h.rules, hinv, ?_, ?_, ?_, ?_, ?_, ?_, ?_, ?_, ?_, ?_, hvalid⟩
  · exact hstore (fun m r => r.nodeID = m) hn (fun m _ => h.nodeID m)
  · refine hstore (fun m r => Holds (a'.memory m) r.state) hmemory (fun m hm => ?_)
    rw [hmem m hm]
    exact h.memory m
  · refine hstore (fun m r => Holds (a'.file m) r.file) hfile' (fun m hm => ?_)
    rw [hfile m hm]
    exact h.file m
  · exact hstore (fun m r => VoteOK a' m r.state) hvm
      (fun m hm => (h.vote_memory m).mono hext (hold m hm))
  · exact hstore (fun m r => VoteOK a' m r.file) hvf
      (fun m hm => (h.vote_file m).mono hext (hold m hm))
  · exact fun c hc => (h.candidacies c hc).mono hext
  · intro x hx
    obtain ⟨w, hw, hrest⟩ := h.grants x hx
    exact ⟨w, hext.votes hw, hrest⟩
  · intro x hx
    obtain ⟨r₁, hr₁, hown⟩ := h.winners x hx
    obtain ⟨r₂, hr₂, hown₂, -⟩ := hext.reign hr₁
    exact ⟨r₂, hr₂, hown₂.trans hown⟩
  · intro m hm
    obtain ⟨ℓ, hℓ⟩ := h.appends m hm
    exact ⟨ℓ, hℓ.mono hext⟩
  · intro q hq
    obtain ⟨ℓ, hℓ⟩ := h.snapshots q hq
    exact ⟨ℓ, hℓ.mono hext⟩

lemma addGrants {xs : List Grant}
    (hxs : ∀ x ∈ xs, ∃ w ∈ a.votes, w.voter = x.voter ∧ w.term = x.term ∧ w.candidate = x.candidate) :
    Sim P { g with grants := g.grants ++ xs } a :=
  { h with grants := forall_mem_append.2 ⟨h.grants, hxs⟩ }

lemma addCandidacy (hc : CandidacyOK a c) :
    Sim P { g with candidacies := g.candidacies ++ [c] } a :=
  { h with candidacies := forall_mem_concat h.candidacies hc }

lemma addAppend (hm : AppendOK a m ℓ) : Sim P { g with appends := g.appends ++ [m] } a :=
  { h with appends := forall_mem_concat h.appends ⟨ℓ, hm⟩ }

lemma addSnapshot (hq : SnapshotOK a q ℓ) : Sim P { g with snapshots := g.snapshots ++ [q] } a :=
  { h with snapshots := forall_mem_concat h.snapshots ⟨ℓ, hq⟩ }

/-! ### One node -/

lemma setCells {c d : Cell RaftEntry} (hrun : ReflTransGen (Sys.Step P) a (a.setCells n c d))
    (hn : r.nodeID = n) (hmemory : Holds c r.state) (hfile : Holds d r.file)
    (hvm : VoteOK a n r.state) (hvf : VoteOK a n r.file) :
    Sim P (g.setStore n r) (a.setCells n c d) := by
  refine h.update hrun hn ?_ ?_ (fun w hw => .inl hw) ?_ ?_ ⟨hvm.held, hvm.given⟩
    ⟨hvf.held, hvf.given⟩ h.valid
  · intro m hm
    simp [Sys.setCells, hm]
  · intro m hm
    simp [Sys.setCells, hm]
  · rwa [Sys.setCells_memory_self]
  · rwa [Sys.setCells_file_self]

lemma vote_term_le {w : Vote GoString RaftEntry} (hw : w ∈ a.votes) (hv : w.voter = n) :
    w.term ≤ (g.state n).currentTerm := by
  rw [Group.state, (h.memory n).term]
  exact (h.inv.memory n).vote_term hw hv

/-- Raising the term clears the vote, and no vote of the new term exists yet. -/
lemma vote_withTerm (n : GoString) (t : ℕ) : VoteOK a n ((g.state n).withTerm t) := by
  rw [withTerm]
  split_ifs with hlt
  · refine ⟨fun hw hv ht => ?_, fun hne => absurd rfl hne⟩
    have := h.vote_term_le hw hv
    simp only at ht
    omega
  · exact h.vote_memory n

lemma raise (ht : (g.state n).currentTerm ≤ t) :
    ∃ a', ReflTransGen (Sys.Step P) a a' ∧
      Sim P (g.setStore n ⟨n, (g.state n).withTerm t, (g.state n).withTerm t⟩) a' ∧ Elects a a' := by
  have hterm : (a.memory n).term ≤ t := by
    rw [← (h.memory n).term]
    exact ht
  have hrun := Sys.run_then_persist (Sys.run_observe (P := P) hterm)
  have hholds := (h.memory n).withTerm hterm
  exact ⟨_, hrun, h.setCells hrun rfl hholds hholds (h.vote_withTerm n t) (h.vote_withTerm n t),
    fun _ => .inl rfl⟩

/-! ### Elections -/

lemma beginElection (hvalid : validNodeID n) (hrange : (g.state n).currentTerm + 1 < 2 ^ 64)
    (hstep : g.beginElection n = some g') :
    ∃ a', ReflTransGen (Sys.Step P) a a' ∧ Sim P g' a' ∧ Elects a a' := by
  rw [Group.beginElection] at hstep
  have hne := ne_nil_of_validNodeID hvalid
  have hmem := h.memory n
  rcases (g.store n).beginElection_cases true with ⟨err, hcall⟩ | ⟨s, hs, hcall⟩
  · rw [hcall, Option.some.injEq, setStore_self] at hstep
    exact ⟨a, .refl, hstep ▸ h, fun _ => .inl rfl⟩
  · rw [hcall, persisted_true, Option.some.injEq, h.nodeID] at hstep
    have hcur : s.currentTerm = (g.state n).currentTerm + 1 := by
      rw [hs]
      exact Nat.mod_eq_of_lt hrange
    have hvote : s.votedFor = n := by rw [hs, h.nodeID]
    have hlt : (a.memory n).term < s.currentTerm := by
      rw [hcur, ← hmem.term]
      exact Nat.lt_succ_self _
    have hrun : ReflTransGen (Sys.Step P) a (a.stand n s.currentTerm) :=
      ReflTransGen.single (.stand hlt)
    have hholds : Holds ⟨s.currentTerm, (a.memory n).log⟩ s := by
      refine ⟨rfl, ?_, ?_, ?_, ?_, ?_⟩ <;> rw [hs]
      exacts [hmem.snapshot_le, hmem.entries, hmem.snapshotTerm, hmem.snapshot_commit,
        hmem.commit_le]
    have hvok : VoteOK (a.stand n s.currentTerm) n s := by
      refine ⟨?_, fun _ => ⟨⟨n, s.currentTerm, n, (a.memory n).log⟩, by simp [Sys.stand],
        rfl, rfl, hvote.symm⟩⟩
      rintro w (rfl | hw) hv ht
      · exact ⟨hvote, hne⟩
      · have := h.vote_term_le hw hv
        omega
    have hsim : Sim P (g.setStore n ⟨n, s, s⟩) (a.stand n s.currentTerm) := by
      refine h.update hrun rfl (fun m hm => ?_) (fun m hm => ?_) ?_ ?_ ?_ hvok hvok h.valid
      · simp [Sys.stand, hm]
      · simp [Sys.stand, hm]
      · rintro w (rfl | hw)
        · exact .inr rfl
        · exact .inl hw
      · simpa [Sys.stand] using hholds
      · simpa [Sys.stand] using hholds
    refine ⟨_, hrun, ?_, fun _ => .inl rfl⟩
    rw [← hstep]
    refine (hsim.addCandidacy ⟨(a.memory n).log, ?_, hholds, ?_, ?_⟩).addGrants ?_
    · simp [Sys.stand]
    · simp [hholds.lastLog]
    · simp [hholds.lastLog]
    · intro x hx
      rw [mem_singleton.1 hx]
      exact ⟨⟨n, s.currentTerm, n, (a.memory n).log⟩, by simp [Sys.stand], rfl, rfl, rfl⟩

lemma requestVote {message : ℕ} (hstep : g.requestVote n message = some g') :
    ∃ a', ReflTransGen (Sys.Step P) a a' ∧ Sim P g' a' ∧ Elects a a' := by
  rw [Group.requestVote] at hstep
  split at hstep
  · simp at hstep
  rename_i c hc
  obtain ⟨-, ⟨⟩⟩ := Option.ite_none_left_eq_some.1 hstep
  obtain ⟨L, hL, -, hindex, hterm⟩ := h.candidacies c (mem_of_getElem? hc)
  have hid := h.nodeID n
  rcases (g.store n).requestVote_cases c.request true with ⟨x, hx, hcall⟩ | ⟨hlt, hcall⟩ |
    ⟨hvalid, hle, hup, hfree, hcall⟩ | ⟨hvalid, hcur, hvote, hcall⟩
  · -- refused: nothing changes
    refine ⟨a, .refl, ?_, fun _ => .inl rfl⟩
    simp only [hcall, granted_eq_nil hx, setStore_self, append_nil]
    exact h
  · obtain ⟨a', hrun, hsim, helects⟩ := h.raise (n := n) (t := c.request.term) hlt.le
    refine ⟨a', hrun, ?_, helects⟩
    simp only [hcall, persisted_true, hid]
    exact hsim.addGrants (by simp [granted])
  · -- a new vote
    have hmem := h.memory n
    have hle' : (a.memory n).term ≤ c.request.term := by
      rw [← hmem.term]
      exact hle
    have hwith := hmem.withTerm hle'
    have hup' : UpToDate P.term L (a.memory n).log := by
      rw [h.rules]
      exact (upToDate_iff hwith hindex hterm).1 hup
    have hone : ∀ w ∈ a.votes, w.voter = n → w.term = c.request.term →
        w.candidate = c.request.candidateID := by
      intro w hw hv ht
      have := (h.vote_withTerm n c.request.term).held hw hv (by
        rw [ht, withTerm_currentTerm]
        exact hle)
      exact absurd (this.1.symm.trans hfree) this.2
    have hrun : ReflTransGen (Sys.Step P) a (a.grant n c.request.term c.request.candidateID) :=
      ReflTransGen.single (.grant hle' hL hup' hone)
    have hcur := withTerm_currentTerm hle
    have hholds : Holds ⟨c.request.term, (a.memory n).log⟩
        { (g.store n).state.withTerm c.request.term with votedFor := c.request.candidateID } :=
      { hwith with }
    have hvok : VoteOK (a.grant n c.request.term c.request.candidateID) n
        { (g.store n).state.withTerm c.request.term with votedFor := c.request.candidateID } := by
      refine ⟨?_, fun _ => ⟨⟨n, c.request.term, c.request.candidateID, (a.memory n).log⟩,
        by simp [Sys.grant], rfl, hcur.symm, rfl⟩⟩
      rintro w (rfl | hw) hv ht
      · exact ⟨rfl, ne_nil_of_validNodeID hvalid⟩
      · have hw' := hone w hw hv (ht.trans hcur)
        exact ⟨hw'.symm, hw' ▸ ne_nil_of_validNodeID hvalid⟩
    refine ⟨_, hrun, ?_, fun _ => .inl rfl⟩
    simp only [hcall, persisted_true, hid]
    refine (h.update (r := ⟨n, _, _⟩) hrun rfl (fun m hm => ?_) (fun m hm => ?_) ?_ ?_ ?_ hvok hvok
      h.valid).addGrants ?_
    · simp [Sys.grant, hm]
    · simp [Sys.grant, hm]
    · rintro w (rfl | hw)
      · exact .inr rfl
      · exact .inl hw
    · simpa [Sys.grant] using hholds
    · simpa [Sys.grant] using hholds
    · intro x hx
      obtain rfl : x = ⟨n, c.request.term, c.request.candidateID⟩ := by
        simpa [granted] using hx
      exact ⟨⟨n, c.request.term, c.request.candidateID, (a.memory n).log⟩, by simp [Sys.grant],
        rfl, rfl, rfl⟩
  · -- the same vote once more
    obtain ⟨w, hw, hwv, hwt, hwc⟩ := (h.vote_memory n).given (by
      rw [hvote]
      exact ne_nil_of_validNodeID hvalid)
    refine ⟨a, .refl, ?_, fun _ => .inl rfl⟩
    simp only [hcall, setStore_self]
    refine h.addGrants ?_
    intro x hx
    obtain rfl : x = ⟨n, c.request.term, c.request.candidateID⟩ := by
      simpa [granted] using hx
    exact ⟨w, hw, hwv, hwt.trans hcur, hwc.trans hvote⟩

/-- The votes of a quorum elect the node they were granted to. -/
lemma won (hcand : a.cand t n = some L) (hquor : P.quorum L {v | v ∈ votes})
    (hvotes : ∀ v ∈ votes, ⟨v, t, n⟩ ∈ g.grants) : a.Won P n t := by
  refine ⟨L, hcand, _, hquor, fun v hv => ?_⟩
  exact h.grants _ (hvotes v hv)

lemma countVotes (hlaw : P.Lawful) (hwon : a.Won P n (g.state n).currentTerm)
    (hstep : g.countVotes n votes = some g') :
    ∃ a', ReflTransGen (Sys.Step P) a a' ∧ Sim P g' a' ∧ Elects a a' := by
  obtain ⟨-, ⟨⟩⟩ := Option.ite_none_right_eq_some.1 hstep
  obtain ⟨L, hL, -⟩ := id hwon
  -- the first count in this term makes the node its leader, a later one changes nothing
  have hreign : ∃ a' r, ReflTransGen (Sys.Step P) a a' ∧ Sim P g a' ∧ Elects a a' ∧
      a'.reign (g.state n).currentTerm = some r ∧ r.owner = n := by
    cases hr : a.reign (g.state n).currentTerm with
    | none =>
      have hrun : ReflTransGen (Sys.Step P) a (a.elect n (g.state n).currentTerm L) :=
        ReflTransGen.single (.elect hr hL hwon)
      refine ⟨_, ⟨n, L, []⟩, hrun, ?_, fun t => ?_, by simp [Sys.elect], rfl⟩
      swap
      · by_cases ht : t = (g.state n).currentTerm
        · subst ht
          exact .inr ⟨n, by simpa [Sys.full, Sys.elect, Reign.full] using hL⟩
        · exact .inl (by simp [Sys.full, Sys.elect, ht])
      have hfull : ∀ t, ∀ e ∈ (a.elect n (g.state n).currentTerm L).full t,
          validateRaftEntry e = .ok () := by
        intro t e he
        by_cases ht : t = (g.state n).currentTerm
        · subst ht
          simp only [Sys.full, Sys.elect, Function.update_self, Option.elim_some, Reign.full,
            append_nil] at he
          obtain ⟨i, hi⟩ := mem_iff_getElem?.1 he
          have hpre := h.inv.history.cand_traced hL i e hi
          refine h.valid _ e (hpre.subset ?_)
          rw [take_succ_eq hi]
          simp
        · simp only [Sys.full, Sys.elect, ne_eq, ht, not_false_eq_true,
            Function.update_of_ne] at he
          exact h.valid t e he
      have := h.update (n := n) hrun (h.nodeID n) (fun _ _ => rfl) (fun _ _ => rfl)
        (fun w hw => .inl hw) (h.memory n) (h.file n)
        ((h.vote_memory n).mono (.elect hr) fun w hw _ => hw)
        ((h.vote_file n).mono (.elect hr) fun w hw _ => hw) hfull
      rwa [setStore_self] at this
    | some r =>
      refine ⟨a, r, .refl, h, fun _ => .inl rfl, hr, ?_⟩
      have hcert := h.inv.history.reign_cert hr
      obtain ⟨S, hS, hv⟩ := hcert
      refine Sys.won_unique h.inv.history hlaw
        ⟨r.base, h.inv.history.reign_cand hr, S, hS, fun v hvS => ?_⟩ hwon
      obtain ⟨w, hw, hwv, hwt, hwc, -⟩ := hv v hvS
      exact ⟨w, hw, hwv, hwt, hwc⟩
  obtain ⟨a', r, hrun, hsim, helects, hr, hown⟩ := hreign
  exact ⟨a', hrun, { hsim with winners := forall_mem_concat hsim.winners ⟨r, hr, hown⟩ }, helects⟩

lemma observeTerm (hstep : g.observeTerm n t = some g') :
    ∃ a', ReflTransGen (Sys.Step P) a a' ∧ Sim P g' a' ∧ Elects a a' := by
  rw [Group.observeTerm, Option.some.injEq] at hstep
  subst hstep
  rcases (g.store n).observeTerm_cases t true with ⟨-, hcall⟩ | ⟨hlt, hcall⟩
  · rw [hcall, setStore_self]
    exact ⟨a, .refl, h, fun _ => .inl rfl⟩
  · rw [hcall, persistLocked_true]
    simp only [h.nodeID]
    exact h.raise hlt.le

end

end Sim

/-- It is part of an election. -/
def Event.isElection : Event → Prop
  | .beginElection .. | .requestVote .. | .countVotes .. | .observeTerm .. => True
  | _ => False

/-- The stores keep their logs, and nothing but votes is asked for, granted and counted. -/
structure Group.Canvasses (g g' : Group) : Prop where
  store : ∀ n, StoreSameLog (g.store n) (g'.store n)
  candidacies : ∀ c ∈ g'.candidacies, c ∈ g.candidacies ∨ ∃ n, c.state = g'.state n
  winners : g.winners ⊆ g'.winners
  appends : g'.appends = g.appends
  snapshots : g'.snapshots = g.snapshots
  acks : g'.acks = g.acks
  applied : g'.applied = g.applied
  changes : g'.changes = g.changes

lemma StoreSameLog.setStore {g : Group} (h : StoreSameLog (g.store n) r) (m : GoString) :
    StoreSameLog (g.store m) ((g.setStore n r).store m) := by
  by_cases hm : m = n
  · subst hm
    simpa [setStore] using h
  · simpa [Group.setStore, hm] using StoreSameLog.refl (g.store m)

section

variable {g g' : Group} {event : Event} {epoch : ℕ} (hfits : event.termFits g)
  (hstep : g.step epoch event = some g') (helection : event.isElection)

include hfits hstep helection

lemma Group.canvasses_of_step : g.Canvasses g' := by
  obtain ⟨-, hstep⟩ := Option.ite_none_left_eq_some.1 hstep
  have hold : ∀ c ∈ g.candidacies, c ∈ g.candidacies ∨ ∃ n, c.state = g'.state n := fun c => .inl
  cases event with
  | beginElection n =>
    have hsame := StoreSameLog.beginElection (g.store n) hfits
    simp only [beginElection] at hstep
    generalize (g.store n).beginElection true = call at hsame hstep
    obtain ⟨x, r⟩ := call
    cases x <;> cases hstep
    · exact ⟨hsame.setStore, hold, List.Subset.refl _, rfl, rfl, rfl, rfl, rfl⟩
    · exact ⟨hsame.setStore, forall_mem_concat hold (.inr ⟨n, by simp [Group.state, setStore]⟩),
        List.Subset.refl _, rfl, rfl, rfl, rfl, rfl⟩
  | requestVote n message =>
    simp only [requestVote] at hstep
    split at hstep
    · simp at hstep
    obtain ⟨-, ⟨⟩⟩ := Option.ite_none_left_eq_some.1 hstep
    exact ⟨(StoreSameLog.requestVote _ _).setStore, hold, List.Subset.refl _, rfl, rfl, rfl, rfl, rfl⟩
  | countVotes n votes =>
    obtain ⟨-, ⟨⟩⟩ := Option.ite_none_right_eq_some.1 hstep
    exact ⟨fun _ => .refl _, hold, subset_append_left _ _, rfl, rfl, rfl, rfl, rfl⟩
  | observeTerm n t =>
    cases hstep
    exact ⟨(StoreSameLog.observeTerm _ _).setStore, hold, List.Subset.refl _, rfl, rfl, rfl, rfl, rfl⟩
  | _ => exact helection.elim

/-- The events of an election, if the votes that are counted win in the protocol. -/
lemma Sim.election {P : Rules GoString RaftEntry} {a : Sys GoString RaftEntry} (h : Sim P g a)
    (hlaw : P.Lawful) (hwon : ∀ {n votes}, event = .countVotes n votes →
      votes.all (fun v => g.grants.contains ⟨v, (g.state n).currentTerm, n⟩) = true →
      (g.state n).hasVoterQuorum votes → a.Won P n (g.state n).currentTerm) :
    ∃ a', ReflTransGen (Sys.Step P) a a' ∧ Sim P g' a' ∧ Elects a a' := by
  obtain ⟨hvalid, hstep⟩ := Option.ite_none_left_eq_some.1 hstep
  cases event with
  | beginElection n => exact h.beginElection (not_not.1 hvalid) hfits hstep
  | requestVote n message => exact h.requestVote hstep
  | countVotes n votes =>
    obtain ⟨hcount, -⟩ := Option.ite_none_right_eq_some.1 hstep
    exact h.countVotes hlaw (hwon rfl hcount.1 hcount.2) hstep
  | observeTerm n t => exact h.observeTerm hstep
  | _ => exact helection.elim

end

end GideonDB.Cluster
