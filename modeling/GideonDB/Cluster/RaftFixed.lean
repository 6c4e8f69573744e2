/-
Groups without membership changes: their voters stay what they were founded with.

Without begin and finalize entries in any log, no commit can change a voter list, so
every store has the founding voters or, if it is not one of them, none.  The protocol
is then run with the majorities of one list, for logs of any content (`fixedRules`).
-/
import GideonDB.Cluster.RaftReplication

namespace GideonDB.Cluster

open Go Consensus Relation RaftPersistentState List Cluster.Group
open Option (ite_none_left_eq_some ite_none_right_eq_some)

/-- The event is not a membership change: commands are appended to advance the epoch, and
`ChangeVoters` is not called. -/
def Event.keepsMembership : Event → Prop
  | .appendCommand _ command | .propose _ command => command.type = .advanceEpoch
  | .changeVoters .. | .beginJoint .. | .commitJoint .. | .finalizeJoint .. | .commitFinal .. => False
  | _ => True

instance (event : Event) : Decidable event.keepsMembership := by
  induction event using Event.casesOn <;> dsimp only [Event.keepsMembership] <;> infer_instance

/-- The voters a group founded with the list `voters` has: none if the list is not
acceptable. -/
def foundingVoters (voters : List GoString) : List GoString :=
  match normalizeVoterSet voters with
  | .ok normalized => normalized
  | .error _ => []

lemma Group.founder_eq (epoch : ℕ) (voters : List GoString) (n : GoString) :
    ∃ v, (v = foundingVoters voters ∨ v = []) ∧ founder epoch voters n =
      ⟨n, { bootstrap epoch with voters := v },
        { bootstrap epoch with voters := v }⟩ := by
  rw [founder]
  simp only
  split
  · rcases RaftStore.configureVoters_cases ⟨n, .bootstrap epoch, .bootstrap epoch⟩ voters true with
      ⟨x, hcall⟩ | ⟨-, normalized, hnorm, hcall⟩ <;> rw [hcall]
    · exact ⟨[], .inr rfl, rfl⟩
    · have hV : foundingVoters voters = normalized := by
        rw [normalizeVoters] at hnorm
        split at hnorm
        · simp at hnorm
        · rename_i v hv
          split at hnorm
          · simp at hnorm
          · rw [foundingVoters, hv, Except.ok.inj hnorm]
      exact ⟨normalized, .inl hV.symm, rfl⟩
  · exact ⟨[], .inr rfl, rfl⟩

/-- A state of a node of a group with the fixed voters `V`. -/
structure Fixed (V : List GoString) (s : RaftPersistentState) : Prop where
  voters : s.voters = V ∨ s.voters = []
  jointOld : s.jointOldVoters = []
  jointNew : s.jointNewVoters = []
  advance : ∀ e ∈ s.entries, e.command.type = .advanceEpoch

variable {entries : List RaftEntry} {index : ℕ}

namespace Fixed

variable {V : List GoString} {s s' : RaftPersistentState}

lemma congr (h : Fixed V s) (hv : s'.voters = s.voters)
    (hold : s'.jointOldVoters = s.jointOldVoters) (hnew : s'.jointNewVoters = s.jointNewVoters)
    (hents : ∀ e ∈ s'.entries, e ∈ s.entries ∨ e.command.type = .advanceEpoch) : Fixed V s' where
  voters := hv ▸ h.voters
  jointOld := hold.trans h.jointOld
  jointNew := hnew.trans h.jointNew
  advance := fun e he => (hents e he).elim (h.advance e) id

lemma withTerm (h : Fixed V s) (t : ℕ) : Fixed V (s.withTerm t) := by
  rw [withTerm_eq]
  exact h.congr rfl rfl rfl (fun e he => .inl he)

lemma applyLoop (hadv : ∀ e ∈ entries, e.command.type = .advanceEpoch) {rounds : ℕ} {a a' : Applied}
    (h : applyLoop entries rounds index a = .ok a') :
    a'.voters = a.voters ∧ a'.jointOld = a.jointOld ∧ a'.jointNew = a.jointNew := by
  induction rounds generalizing index a with
  | zero =>
    rw [Cluster.applyLoop, Except.ok.injEq] at h
    simp [h]
  | succ rounds ih =>
    rw [Cluster.applyLoop] at h
    split at h
    · simp at h
    rename_i entry hentry
    split at h
    · simp at h
    rename_i a₁ ha₁
    have htype := hadv entry (mem_of_getElem? hentry)
    have := ih h
    cases Applied.apply_eq_ok.1 ha₁ with
    | advance => exact this
    | duplicate => exact this
    | begins h' => simp [htype] at h'
    | finalizes h' => simp [htype] at h'

lemma applyThrough (h : Fixed V s) {target : ℕ} (happly : s.applyThroughLocked target = .ok s') :
    Fixed V s' := by
  obtain ⟨a, ha, rfl⟩ := applyThroughLocked_ok happly
  obtain ⟨hv, hold, hnew⟩ := applyLoop h.advance ha
  exact h.congr hv hold hnew (fun e he => .inl he)

lemma voterMajority (h : Fixed V s) {acks : List GoString} (hq : s.hasVoterQuorum acks) :
    voterMajority V acks := by
  rw [hasVoterQuorum, if_neg (by simp [h.jointOld])] at hq
  rcases h.voters with hv | hv
  · rwa [hv] at hq
  · simp [hv, Cluster.voterMajority] at hq

end Fixed

variable {e : RaftEntry}

lemma mem_appendLoop {commitIndex snapshotIndex : ℕ} {log : List RaftEntry}
    (h : e ∈ (RaftStore.appendLoop commitIndex snapshotIndex index entries log).2) :
    e ∈ log ∨ e ∈ entries := by
  refine appendLoop_preserves (P := fun m => ∀ d ∈ m, d ∈ log ∨ d ∈ entries)
    (fun m k _ hm d hd => hm d (mem_of_mem_take hd)) (fun m x hx _ hm d hd => ?_) rfl
    (fun d => .inl) e h
  rcases mem_append.1 hd with hd | hd
  · exact hm d hd
  · exact .inr (mem_singleton.1 hd ▸ hx)

/-! ### Stores -/

/-- Its voters never change. -/
def FixedStore (V : List GoString) (r : RaftStore) : Prop := Fixed V r.state ∧ Fixed V r.file

variable {s : RaftPersistentState}

namespace FixedStore

variable {V : List GoString} {r : RaftStore}

lemma persisted {α : Type} (h : Fixed V s) (result : α) :
    FixedStore V ({ r with state := s }.persisted true result).2 := ⟨h, h⟩

section

variable (h : FixedStore V r)

include h

lemma sameLog {r' : RaftStore} (hsame : StoreSameLog r r') : FixedStore V r' := by
  have hstate : Fixed V r'.state := h.1.congr (congrArg Applied.voters hsame.1.applied)
    (congrArg Applied.jointOld hsame.1.applied) (congrArg Applied.jointNew hsame.1.applied)
    fun e he => .inl (hsame.1.entries ▸ he)
  rcases hsame.2 with hfile | hfile
  · exact ⟨hstate, hfile ▸ h.2⟩
  · exact ⟨hstate, hfile ▸ hstate⟩

lemma appendCommand {t : ℕ} {command : MetadataCommand} (htype : command.type = .advanceEpoch) :
    FixedStore V (r.appendCommand t command true).2 := by
  rcases r.appendCommand_cases t command true with ⟨err, hcall⟩ |
    ⟨-, -, -, -, ⟨-, -, hcall⟩ | ⟨-, s, rfl, hcall⟩⟩ <;> rw [hcall]
  · exact h
  · exact h
  · refine persisted ?_ _
    exact h.1.congr rfl rfl rfl (forall_mem_concat (fun e he => .inl he) (.inr htype))

lemma appendEntries {q : AppendEntriesRequest}
    (hq : ∀ e ∈ q.entries, e.command.type = .advanceEpoch) :
    FixedStore V (r.appendEntries q true).2 := by
  rcases r.appendEntries_cases q true with ⟨x, -, hcall⟩ | ⟨-, s, rfl, hrest⟩
  · rw [hcall]
    exact h
  have hs := h.1.withTerm q.term
  rcases hrest with hcall | ⟨-, y, log, hloop, hrest⟩
  · rw [hcall]
    exact persisted hs _
  have hlog : Fixed V { r.state.withTerm q.term with entries := log } := by
    refine hs.congr rfl rfl rfl fun e he => ?_
    have hmem : e ∈ (RaftStore.appendLoop (r.state.withTerm q.term).commitIndex
        (r.state.withTerm q.term).snapshotIndex (q.prevLogIndex + 1) q.entries
        (r.state.withTerm q.term).entries).2 := by
      rw [hloop]
      exact he
    exact (mem_appendLoop hmem).imp id (hq e)
  rcases hrest with ⟨err, -, hcall⟩ | ⟨-, err, -, -, hcall⟩ | ⟨-, s', hs', hcall⟩ <;> rw [hcall]
  · exact ⟨hlog, h.2⟩
  · exact ⟨hlog, h.2⟩
  · refine persisted ?_ _
    rcases hs' with ⟨-, rfl⟩ | ⟨-, hs'⟩
    · exact hlog
    · exact hlog.applyThrough hs'

lemma commitWithVoterAcks (index t : ℕ) (nodes : List GoString) :
    FixedStore V (r.commitWithVoterAcks index t nodes true).2 := by
  rcases r.commitWithVoterAcks_cases index t nodes true with ⟨err, hcall⟩ |
    ⟨-, -, -, -, s, hs, hcall⟩ <;> rw [hcall]
  · exact h
  · exact ⟨h.1.applyThrough hs, h.1.applyThrough hs⟩

lemma compactCommitted : FixedStore V (r.compactCommitted true).2 := by
  rcases r.compactCommitted_cases true with ⟨x, hcall⟩ | ⟨-, -, term, -, hcall⟩ <;> rw [hcall]
  · exact h
  · have : Fixed V { r.state with
        entries := r.state.entries.drop (r.state.commitIndex - r.state.snapshotIndex)
        snapshotIndex := r.state.commitIndex
        snapshotTerm := term
        snapshotEpoch := r.state.appliedEpoch
        snapshotView := r.state.committedView } := h.1.congr rfl rfl rfl
      (fun e he => .inl (mem_of_mem_drop he))
    exact ⟨this, this⟩

lemma installSnapshot {q : InstallSnapshotRequest}
    (hq : q.snapshot.voters = V ∨ q.snapshot.voters = []) :
    FixedStore V (r.installSnapshot q true).2 := by
  rcases r.installSnapshot_cases q true with ⟨x, -, hcall⟩ | ⟨-, -, -, s, rfl, ⟨-, hcall⟩ | ⟨-, hcall⟩⟩
    <;> rw [hcall]
  · exact h
  · exact persisted (h.1.withTerm _) _
  · have hs := h.1.withTerm q.term
    refine persisted ?_ _
    refine ⟨hq, hs.jointOld, hs.jointNew, fun e he => hs.advance e ?_⟩
    simp only [RaftStore.installed, RaftStore.retained] at he
    split at he
    · exact mem_of_mem_drop he
    · simp at he

end

end FixedStore

/-! ### Groups -/

/-- Nothing changes the voters. -/
structure FixedGroup (V : List GoString) (g : Group) : Prop where
  store : ∀ n, FixedStore V (g.store n)
  appends : ∀ m ∈ g.appends, ∀ e ∈ m.request.entries, e.command.type = .advanceEpoch
  snapshots : ∀ q ∈ g.snapshots, q.snapshot.voters = V ∨ q.snapshot.voters = []
  changes : ∀ n, g.changes n = none

variable {n : GoString}

namespace FixedGroup

variable {V : List GoString} {g g' : Group}

lemma update (h : FixedGroup V g) {r : RaftStore} (hr : FixedStore V r)
    (hstore : g'.store = (g.setStore n r).store := by rfl) (happ : g'.appends = g.appends := by rfl)
    (hsnap : g'.snapshots = g.snapshots := by rfl) (hchanges : g'.changes = g.changes := by rfl) :
    FixedGroup V g' := by
  refine ⟨fun m => ?_, happ ▸ h.appends, hsnap ▸ h.snapshots, hchanges ▸ h.changes⟩
  rw [hstore]
  by_cases hm : m = n
  · subst hm
    simpa [setStore] using hr
  · simpa [setStore, hm] using h.store m

lemma init (epoch : ℕ) (voters : List GoString) :
    FixedGroup (foundingVoters voters) (Group.init epoch voters) := by
  refine ⟨fun n => ?_, by simp [Group.init], by simp [Group.init], fun _ => rfl⟩
  obtain ⟨v, hv, hfounder⟩ := founder_eq epoch voters n
  have hfixed : Fixed (foundingVoters voters) { bootstrap epoch with voters := v } :=
    ⟨hv, rfl, rfl, by simp [bootstrap]⟩
  change FixedStore (foundingVoters voters) (founder epoch voters n)
  rw [hfounder]
  exact ⟨hfixed, hfixed⟩

lemma logBatch {next limit : ℕ} {b : LogBatch}
    (hb : s.logBatch next limit = .ok b) : ∀ e ∈ b.entries, e ∈ s.entries := by
  rw [RaftPersistentState.logBatch] at hb
  split at hb
  · simp at hb
  split at hb
  · simp at hb
  · cases hb
    exact fun e he => mem_of_mem_drop (mem_of_mem_take he)

lemma setChangeNone (h : FixedGroup V g) (n : GoString) : FixedGroup V (g.setChange n none) := by
  refine { h with changes := fun m => ?_ }
  by_cases hm : m = n
  · subst hm
    simp [setChange]
  · simpa [setChange, hm] using h.changes m

lemma canvasses (h : FixedGroup V g) (hc : g.Canvasses g') : FixedGroup V g' :=
  ⟨fun n => (h.store n).sameLog (hc.store n), hc.appends ▸ h.appends, hc.snapshots ▸ h.snapshots,
    hc.changes ▸ h.changes⟩

lemma step (h : FixedGroup V g) {epoch : ℕ} {event : Event} (hkeep : event.keepsMembership)
    (hfits : event.termFits g) (hstep : g.step epoch event = some g') : FixedGroup V g' := by
  have helection := fun helection => h.canvasses (canvasses_of_step hfits hstep helection)
  obtain ⟨-, hstep⟩ := ite_none_left_eq_some.1 hstep
  cases event with
  | beginElection | requestVote | countVotes | observeTerm => exact helection trivial
  | appendCommand n command =>
    obtain ⟨-, ⟨⟩⟩ := ite_none_right_eq_some.1 hstep
    exact h.update ((h.store n).appendCommand hkeep)
  | propose n command =>
    obtain ⟨-, hstep⟩ := ite_none_right_eq_some.1 hstep
    obtain ⟨-, ⟨⟩⟩ := ite_none_right_eq_some.1 hstep
    exact h.update ((h.store n).appendCommand hkeep)
  | sendAppend n next limit =>
    obtain ⟨-, hstep⟩ := ite_none_right_eq_some.1 hstep
    split at hstep
    · simp at hstep
    rename_i b hb
    cases hstep
    exact { h with appends := forall_mem_concat h.appends fun e he =>
      (h.store n).1.advance e (logBatch hb e he) }
  | appendEntries n message =>
    simp only [appendEntries] at hstep
    split at hstep
    · simp at hstep
    rename_i m hm
    obtain ⟨-, ⟨⟩⟩ := ite_none_left_eq_some.1 hstep
    exact h.update ((h.store n).appendEntries (h.appends m (mem_of_getElem? hm)))
  | sendSnapshot n =>
    obtain ⟨-, hstep⟩ := ite_none_right_eq_some.1 hstep
    split at hstep
    · simp at hstep
    rename_i q hq
    obtain ⟨-, ⟨⟩⟩ := ite_none_left_eq_some.1 hq
    cases hstep
    exact { h with snapshots := forall_mem_concat h.snapshots (h.store n).1.voters }
  | installSnapshot n message =>
    simp only [installSnapshot] at hstep
    split at hstep
    · simp at hstep
    rename_i q hq
    obtain ⟨-, ⟨⟩⟩ := ite_none_left_eq_some.1 hstep
    exact h.update ((h.store n).installSnapshot (h.snapshots q (mem_of_getElem? hq)))
  | commit n index nodes =>
    obtain ⟨-, ⟨⟩⟩ := ite_none_right_eq_some.1 hstep
    exact h.update ((h.store n).commitWithVoterAcks _ _ _)
  | compact n =>
    cases hstep
    exact h.update (h.store n).compactCommitted
  | restart n =>
    simp only [restart, openRaftStore] at hstep
    split at hstep
    · simp at hstep
    rename_i r hopen
    split at hopen
    · simp at hopen
    split at hopen
    · simp at hopen
    rename_i s hs
    obtain ⟨snapshotEpoch, view, heq⟩ := validateLocked_ok hs
    rw [← Option.some.inj hstep, ← Except.ok.inj hopen]
    have hfile := (h.store n).2
    have hstate : Fixed V s := by
      rw [heq]
      exact hfile.congr rfl rfl rfl fun e he => .inl he
    have hupdate : FixedGroup V (g.setStore n ⟨n, s, (g.store n).file⟩) :=
      h.update (r := ⟨n, s, (g.store n).file⟩) ⟨hstate, hfile⟩
    exact hupdate.setChangeNone n
  | changeVoters | beginJoint | commitJoint | finalizeJoint | commitFinal => exact hkeep.elim

end FixedGroup

/-! ### The protocol with fixed voters -/

/-- The rules for a group whose voters are `V` whatever its logs contain. -/
def fixedRules (V : List GoString) : Rules GoString RaftEntry where
  term := RaftEntry.term
  quorum _ := Majority V
  reconf _ := False

lemma fixedRules_lawful (V : List GoString) : (fixedRules V).Lawful where
  meets := by
    rintro ℓ S T ⟨acks, h, hS⟩ ⟨acks', h', hT⟩
    obtain ⟨v, hv, ha, ha'⟩ := voterMajority_meet_self h h'
    exact ⟨v, hS v hv ha, hT v hv ha'⟩
  append := fun _ => Iff.rfl

variable {epoch : ℕ}

namespace Sim

variable {V : List GoString} {g g' : Group} {a : Sys GoString RaftEntry}

lemma init (P : Rules GoString RaftEntry) (hP : P.term = RaftEntry.term) (epoch : ℕ)
    (voters : List GoString) : Sim P (Group.init epoch voters) Sys.init := by
  have hholds : ∀ v, Holds ⟨0, []⟩ { bootstrap epoch with voters := v } :=
    fun v => ⟨rfl, le_rfl, rfl, rfl, le_rfl, le_rfl⟩
  have hvote : ∀ n v, VoteOK Sys.init n { bootstrap epoch with voters := v } :=
    fun n v => ⟨fun hw => absurd hw (by simp [Sys.init]), fun hne => absurd rfl hne⟩
  refine ⟨hP, Sys.inv_init, ?_, ?_, ?_, ?_, ?_, by simp [Group.init], by simp [Group.init],
    by simp [Group.init], by simp [Group.init], by simp [Group.init], by simp [Sys.init, Sys.full]⟩
  all_goals
    intro n
    obtain ⟨v, -, hv⟩ := founder_eq epoch voters n
    simp only [Group.init, hv]
  · exact hholds v
  · exact hholds v
  · exact hvote n v
  · exact hvote n v

lemma won_of_fixed (h : Sim (fixedRules V) g a) (hfix : FixedGroup V g) {votes : List GoString}
    (hall : votes.all (fun v => g.grants.contains ⟨v, (g.state n).currentTerm, n⟩) = true)
    (hq : (g.state n).hasVoterQuorum votes) : a.Won (fixedRules V) n (g.state n).currentTerm := by
  have hmaj := (hfix.store n).1.voterMajority hq
  have hgrants : ∀ v ∈ votes, ⟨v, (g.state n).currentTerm, n⟩ ∈ g.grants := by
    simpa [all_eq_true] using hall
  obtain ⟨v, -, hv, -⟩ := voterMajority_meet_self hmaj hmaj
  obtain ⟨w, hw, -, hwt, hwc⟩ := h.grants _ (hgrants v hv)
  obtain ⟨L, hL, -⟩ := h.inv.history.vote_cand hw
  rw [hwt, hwc] at hL
  exact h.won hL ⟨votes, hmaj, fun v _ hv => hv⟩ hgrants

lemma step_fixed (h : Sim (fixedRules V) g a) (hfix : FixedGroup V g) {event : Event}
    (hkeep : event.keepsMembership) (hfits : event.termFits g)
    (hstep : g.step epoch event = some g') :
    ∃ a', ReflTransGen (Sys.Step (fixedRules V)) a a' ∧ Sim (fixedRules V) g' a' := by
  have helection := fun helection => h.election hfits hstep helection (fixedRules_lawful V)
    fun _ => h.won_of_fixed hfix
  obtain ⟨-, hstep⟩ := ite_none_left_eq_some.1 hstep
  have happend : ∀ {n command}, g.appendCommand n command = some g' →
      ∃ a', ReflTransGen (Sys.Step (fixedRules V)) a a' ∧ Sim (fixedRules V) g' a' := by
    intro n command hstep
    obtain ⟨hlead, ⟨⟩⟩ := ite_none_right_eq_some.1 hstep
    obtain ⟨a', hrun, hsim, -⟩ := h.appendStore
      (by simpa [Group.leads] using hlead.1) (fun _ _ hc => hc.elim)
      (rfl : (g.store n).appendCommand _ command true = _)
    exact ⟨a', hrun, hsim⟩
  cases event with
  | beginElection | requestVote | countVotes | observeTerm =>
    obtain ⟨a', hrun, hsim, -⟩ := helection trivial
    exact ⟨a', hrun, hsim⟩
  | appendCommand n command => exact happend hstep
  | propose n command =>
    obtain ⟨-, hstep⟩ := ite_none_right_eq_some.1 hstep
    exact happend hstep
  | sendAppend n next limit =>
    obtain ⟨m, ℓ, hm, -, -, -, -, rfl⟩ := h.sendAppend hstep
    exact ⟨a, .refl, h.addAppend hm⟩
  | appendEntries n message =>
    simp only [appendEntries] at hstep
    split at hstep
    · simp at hstep
    rename_i m hm
    obtain ⟨-, ⟨⟩⟩ := ite_none_left_eq_some.1 hstep
    obtain ⟨ℓ, hℓ⟩ := h.appends m (mem_of_getElem? hm)
    obtain ⟨c, d, ⟨hrun, hsim, -⟩, -⟩ := h.appendEntriesStore hℓ rfl
    exact ⟨_, hrun, hsim.congr⟩
  | sendSnapshot n =>
    obtain ⟨q, ℓ, hq, -, -, -, rfl⟩ := h.sendSnapshot hstep
    exact ⟨a, .refl, h.addSnapshot hq⟩
  | installSnapshot n message =>
    simp only [installSnapshot] at hstep
    split at hstep
    · simp at hstep
    rename_i q hq
    obtain ⟨-, ⟨⟩⟩ := ite_none_left_eq_some.1 hstep
    obtain ⟨ℓ, hℓ⟩ := h.snapshots q (mem_of_getElem? hq)
    obtain ⟨c, d, ⟨hrun, hsim, -⟩, -⟩ := h.installSnapshotStore hℓ rfl
    exact ⟨_, hrun, hsim.congr⟩
  | commit n index nodes =>
    obtain ⟨-, ⟨⟩⟩ := ite_none_right_eq_some.1 hstep
    rcases h.commitStore rfl with ⟨hsame, -⟩ | ⟨-, -, -, -, -, -, s, -, hcall, hrun, hsim⟩
    · rw [hsame]
      have hstore : (g.advance n (g.store n)).store = g.store := by
        change (g.setStore n (g.store n)).store = g.store
        rw [setStore_self]
      exact ⟨a, .refl, h.congr hstore⟩
    · rw [hcall]
      exact ⟨_, hrun, hsim.congr⟩
  | compact n =>
    cases hstep
    rcases h.compactStore n with hsame | ⟨-, term, -, s, -, hcall, hrun, hsim⟩
    · rw [hsame, setStore_self]
      exact ⟨a, .refl, h⟩
    · rw [hcall]
      exact ⟨_, hrun, hsim⟩
  | restart n =>
    obtain ⟨-, -, -, -, -, -, -, hrun, hsim⟩ := h.restart hstep
    exact ⟨_, hrun, hsim⟩
  | changeVoters | beginJoint | commitJoint | finalizeJoint | commitFinal => exact hkeep.elim

end Sim

variable {voters : List GoString}

lemma Group.Reachable.sim {g : Group} (h : Group.Reachable epoch voters
      (fun g event => event.keepsMembership ∧ event.termFits g) g) :
    FixedGroup (foundingVoters voters) g ∧ ∃ a, Sim (fixedRules (foundingVoters voters)) g a := by
  induction h with
  | init => exact ⟨FixedGroup.init epoch voters, _, Sim.init _ rfl epoch voters⟩
  | step _ hallow hstep ih =>
    obtain ⟨hfix, a, hsim⟩ := ih
    obtain ⟨a', -, hsim'⟩ := hsim.step_fixed hfix hallow.1 hallow.2 hstep
    exact ⟨hfix.step hallow.1 hallow.2 hstep, a', hsim'⟩

/-! ### Log matching -/

variable {c : Cell RaftEntry}

lemma Holds.entryAt (h : Holds c s) {i : ℕ}
    (he : s.entryAt i = some e) : s.snapshotIndex < i ∧ c.log[i - 1]? = some e := by
  obtain ⟨hi, he⟩ := ite_none_left_eq_some.1 he
  rw [h.getElem?_entries] at he
  refine ⟨by omega, ?_⟩
  rwa [show s.snapshotIndex + (i - s.snapshotIndex - 1) = i - 1 by omega] at he

/-- Where one state has compacted its log up to an index the other one retains, below a
common segment, the term it kept is the term of the retained entry. -/
lemma Holds.snapshotTerm_eq {c' : Cell RaftEntry} {s' : RaftPersistentState} (h : Holds c s)
    (h' : Holds c' s') {i : ℕ} (htake : c.log.take i = c'.log.take i) (hi : s.snapshotIndex < i)
    (he : s'.entryAt s.snapshotIndex = some e) : s.snapshotTerm = e.term := by
  obtain ⟨hpos, he⟩ := h'.entryAt he
  have hlt := lt_length_of_getElem? he
  have hterm := termAt_succ RaftEntry.term he
  rw [show s.snapshotIndex - 1 + 1 = s.snapshotIndex by omega] at hterm
  have hle := h.snapshot_le
  calc s.snapshotTerm = termAt RaftEntry.term c.log s.snapshotIndex := h.snapshotTerm
    _ = termAt RaftEntry.term (c.log.take i) s.snapshotIndex :=
        (termAt_of_isPrefix (List.take_prefix i _) (by rw [length_take]; omega)).symm
    _ = termAt RaftEntry.term c'.log s.snapshotIndex := by
        rw [htake]
        exact termAt_of_isPrefix (List.take_prefix i _) (by rw [length_take]; omega)
    _ = e.term := hterm

/-- **Log matching.**  If two stores retain entries of one term at one index, the entries
carry the same command, the logs agree at every earlier index both retain, and a snapshot
of one store that ends at an index the other retains has the term retained there. -/
theorem log_matching {epoch : ℕ} {voters : List GoString} {g : Group}
    (h : Group.Reachable epoch voters
      (fun g event => event.keepsMembership ∧ event.termFits g) g)
    {m n : GoString} {i : ℕ} {e e' : RaftEntry} (hm : (g.state m).entryAt i = some e)
    (hn : (g.state n).entryAt i = some e') (hterm : e.term = e'.term) :
    e.command = e'.command ∧
    (∀ j < i, ∀ d d', (g.state m).entryAt j = some d → (g.state n).entryAt j = some d' → d = d') ∧
    (∀ d, (g.state n).entryAt (g.state m).snapshotIndex = some d →
      (g.state m).snapshotTerm = d.term) ∧
    (∀ d, (g.state m).entryAt (g.state n).snapshotIndex = some d →
      (g.state n).snapshotTerm = d.term) := by
  obtain ⟨-, a, hsim⟩ := h.sim
  have hholds := hsim.memory m
  have hholds' := hsim.memory n
  obtain ⟨hi, hm⟩ := hholds.entryAt hm
  obtain ⟨hi', hn⟩ := hholds'.entryAt hn
  -- both logs are traced to the leader of the common term, so they agree up to `i`
  have htake : (a.memory m).log.take i = (a.memory n).log.take i := by
    have := (hsim.inv.memory m).traced.agree (hsim.inv.memory n).traced hm hn
      (by rw [hsim.rules]; exact hterm)
    rwa [show i - 1 + 1 = i by omega] at this
  have hget : ∀ j < i, (a.memory m).log[j]? = (a.memory n).log[j]? := by
    intro j hj
    rw [← getElem?_take_of_lt hj, htake, getElem?_take_of_lt hj]
  refine ⟨?_, fun j hj d d' hd hd' => ?_, fun d hd => ?_, fun d hd => ?_⟩
  · rw [hget (i - 1) (by omega), hn] at hm
    rw [Option.some.inj hm]
  · have hd := (hholds.entryAt hd).2
    have hd' := (hholds'.entryAt hd').2
    rw [hget (j - 1) (by omega), hd'] at hd
    exact (Option.some.inj hd).symm
  · exact hholds.snapshotTerm_eq hholds' htake hi hd
  · exact hholds'.snapshotTerm_eq hholds htake.symm hi' hd

/-- A run in which the leader of three nodes commits and compacts its first entry and
then replicates a second one. -/
def compactedRun : Option Group :=
  (Group.init 1 [sampleNode 1, sampleNode 2, sampleNode 3]).run
    (fun g event => event.keepsMembership ∧ event.termFits g) 1
    [.beginElection (sampleNode 1), .requestVote (sampleNode 2) 0,
      .countVotes (sampleNode 1) [sampleNode 1, sampleNode 2],
      .propose (sampleNode 1) (sampleAdvance 2 7), .sendAppend (sampleNode 1) 1 16,
      .appendEntries (sampleNode 2) 0, .commit (sampleNode 1) 1 [sampleNode 1, sampleNode 2],
      .compact (sampleNode 1), .propose (sampleNode 1) (sampleAdvance 3 8),
      .sendAppend (sampleNode 1) 2 16, .appendEntries (sampleNode 2) 1]

theorem log_matching_compactedRun :
    ∃ g e e', compactedRun = some g ∧ (g.state (sampleNode 1)).snapshotIndex = 1 ∧
      (g.state (sampleNode 1)).entryAt 2 = some e ∧ (g.state (sampleNode 2)).entryAt 2 = some e' ∧
      e.command = e'.command ∧
      ∀ d, (g.state (sampleNode 2)).entryAt (g.state (sampleNode 1)).snapshotIndex = some d →
        (g.state (sampleNode 1)).snapshotTerm = d.term := by
  obtain ⟨g, hg⟩ := Option.isSome_iff_exists.1 (show compactedRun.isSome = true by decide +kernel)
  have hsnap : compactedRun.map (fun g => (g.state (sampleNode 1)).snapshotIndex) = some 1 := by
    decide +kernel
  have hm : compactedRun.map (fun g => (g.state (sampleNode 1)).entryAt 2) =
      some (some ⟨1, sampleAdvance 3 8⟩) := by decide +kernel
  have hn : compactedRun.map (fun g => (g.state (sampleNode 2)).entryAt 2) =
      some (some ⟨1, sampleAdvance 3 8⟩) := by decide +kernel
  rw [hg, Option.map_some, Option.some.injEq] at hsnap hm hn
  have hreach := Group.Reachable.init.run hg
  obtain ⟨hcommand, -, hterm, -⟩ := log_matching hreach hm hn rfl
  exact ⟨g, _, _, hg, hsnap, hm, hn, hcommand, hterm⟩

lemma Group.Reachable.elections {g : Group}
    (h : Group.Reachable epoch voters (fun _ event => event.keepsMembership) g)
    (hvalid : validNodeID n) (hid : (g.store n).nodeID = n)
    (hactive : containsString (g.state n).activeVotersLocked n) (k : ℕ) :
    ∃ g' s, Group.Reachable epoch voters (fun _ event => event.keepsMembership) g' ∧
      s = { g.state n with
        currentTerm := ((g.state n).currentTerm + (k + 1)) % 2 ^ 64
        votedFor := n } ∧
      g'.store = Function.update g.store n ⟨n, s, s⟩ ∧ g'.winners = g.winners ∧
      g'.changes = g.changes ∧ g'.candidacies.getLast? =
        some ⟨⟨s.currentTerm, n, s.lastLogLocked.1, s.lastLogLocked.2⟩, s⟩ ∧
      ⟨n, s.currentTerm, n⟩ ∈ g'.grants := by
  have hstep : ∀ {g' : Group}, Group.Reachable epoch voters (fun _ event => event.keepsMembership) g' →
      (g'.store n).nodeID = n → containsString (g'.state n).activeVotersLocked n = true →
      ∃ s, s = { g'.state n with currentTerm := addOne (g'.state n).currentTerm, votedFor := n } ∧
        Group.Reachable epoch voters (fun _ event => event.keepsMembership)
          { g'.setStore n ⟨n, s, s⟩ with
            candidacies := g'.candidacies ++
              [⟨⟨s.currentTerm, n, s.lastLogLocked.1, s.lastLogLocked.2⟩, s⟩]
            grants := g'.grants ++ [⟨n, s.currentTerm, n⟩] } := by
    intro g' hg' hid hactive
    refine ⟨_, rfl, @Group.Reachable.step _ _ _ _ _ (.beginElection n) hg' trivial ?_⟩
    rw [Group.state] at hactive
    simp only [Group.step, Event.node, hvalid, not_true_eq_false, if_false, beginElection,
      RaftStore.beginElection, hid, hactive, and_false, RaftStore.persisted_true]
    rfl
  induction k with
  | zero =>
    obtain ⟨s, hs, hreach⟩ := hstep h hid hactive
    exact ⟨_, s, hreach, hs, rfl, rfl, rfl, by simp, by simp⟩
  | succ k ih =>
    obtain ⟨g', s, hreach, hs, hstore, hwin, hchanges, -, -⟩ := ih
    have hn : g'.store n = ⟨n, s, s⟩ := by simp [hstore]
    have hstate : g'.state n = s := by rw [Group.state, hn]
    have hactive' : containsString (g'.state n).activeVotersLocked n := by
      rw [hstate, hs]
      exact hactive
    obtain ⟨s', hs', hreach'⟩ := hstep hreach (by rw [hn]) hactive'
    refine ⟨_, s', hreach', ?_, ?_, hwin, hchanges, by simp, by simp⟩
    · rw [hs', hstate, hs]
      have hterm : addOne (((g.state n).currentTerm + (k + 1)) % 2 ^ 64) =
          ((g.state n).currentTerm + (k + 1 + 1)) % 2 ^ 64 := by
        rw [addOne]
        omega
      simp only [hterm]
    · simp only [setStore, hstore, Function.update_idem]

def firstReignEvents : List Event :=
  [.beginElection (sampleNode 1), .requestVote (sampleNode 2) 0,
    .countVotes (sampleNode 1) [sampleNode 1, sampleNode 2],
    .appendCommand (sampleNode 1) (sampleAdvance 2 4)]

/-- When terms may start again from zero, node 2 leads a second term 1 after 2⁶⁴ elections,
and its first entry is not the one node 1 has under the same term. -/
theorem log_mismatch_wrapped :
    ∃ g, Group.Reachable 1 [sampleNode 1, sampleNode 2, sampleNode 3]
        (fun _ event => event.keepsMembership) g ∧
      ∃ e e', (g.state (sampleNode 1)).entryAt 1 = some e ∧
        (g.state (sampleNode 2)).entryAt 1 = some e' ∧ e.term = e'.term ∧
        e.command ≠ e'.command := by
  have h₂₃ : sampleNode 3 ≠ sampleNode 2 := by decide +kernel
  have h₁₂ : sampleNode 1 ≠ sampleNode 2 := by decide +kernel
  have h₁₃ : sampleNode 1 ≠ sampleNode 3 := by decide +kernel
  obtain ⟨s₁, hs₁⟩ : ∃ s : RaftPersistentState, s = { bootstrap 1 with
      voters := [sampleNode 1, sampleNode 2, sampleNode 3], currentTerm := 1
      votedFor := sampleNode 1, entries := [⟨1, sampleAdvance 2 4⟩] } := ⟨_, rfl⟩
  obtain ⟨s₂, hs₂⟩ : ∃ s : RaftPersistentState, s = { bootstrap 1 with
      voters := [sampleNode 1, sampleNode 2, sampleNode 3], currentTerm := 1
      votedFor := sampleNode 1 } := ⟨_, rfl⟩
  obtain ⟨s₃, hs₃⟩ : ∃ s : RaftPersistentState, s = { bootstrap 1 with
      voters := [sampleNode 1, sampleNode 2, sampleNode 3] } := ⟨_, rfl⟩
  obtain ⟨g, hg, hstores⟩ := Option.map_eq_some_iff.1 (show ((Group.init 1 [sampleNode 1,
    sampleNode 2, sampleNode 3]).run (fun _ event => event.keepsMembership) 1
      firstReignEvents).map (fun g => (g.store (sampleNode 1), g.store (sampleNode 2),
        g.store (sampleNode 3), (g.changes (sampleNode 2)).isNone)) =
      some (⟨sampleNode 1, s₁, s₁⟩, ⟨sampleNode 2, s₂, s₂⟩, ⟨sampleNode 3, s₃, s₃⟩, true) by
    rw [hs₁, hs₂, hs₃]
    decide +kernel)
  simp only [Prod.mk.injEq] at hstores
  obtain ⟨hstore₁, hstore₂, hstore₃, hchange⟩ := hstores
  have hreach := Group.Reachable.init.run hg
  -- 2⁶⁴ elections take node 2 back to term 1
  obtain ⟨g₂, t₂, hreach₂, ht₂, hstore, -, hchanges, hlast, hgrant⟩ := hreach.elections
    (n := sampleNode 2) (by decide +kernel) (by rw [hstore₂])
    (by rw [Group.state, hstore₂, hs₂]; decide +kernel) (2 ^ 64 - 1)
  rw [Group.state, hstore₂, hs₂] at ht₂
  replace ht₂ : t₂ = { bootstrap 1 with
      voters := [sampleNode 1, sampleNode 2, sampleNode 3], currentTerm := 1
      votedFor := sampleNode 2 } := ht₂
  have hlog : t₂.lastLogLocked = (0, 0) := by rw [ht₂]; rfl
  have hterm : t₂.currentTerm = 1 := by rw [ht₂]
  rw [getLast?_eq_getElem?, hlog, hterm] at hlast
  rw [hterm] at hgrant
  -- node 3, which has seen no term, votes for it
  have hvalid₃ : validNodeID (sampleNode 3) = true := by decide +kernel
  obtain ⟨t₃, ht₃⟩ : ∃ s : RaftPersistentState, s = { s₃ with
      currentTerm := 1, votedFor := sampleNode 2 } := ⟨_, rfl⟩
  have hvote : (g₂.store (sampleNode 3)).requestVote ⟨1, sampleNode 2, 0, 0⟩ true =
      (.ok ⟨1, true⟩, ⟨sampleNode 3, t₃, t₃⟩) := by
    rw [hstore, Function.update_of_ne h₂₃, hstore₃, ht₃, hs₃]
    decide +kernel
  have hreach₃ := @Group.Reachable.step _ _ _ _
    { g₂.setStore (sampleNode 3) ⟨sampleNode 3, t₃, t₃⟩ with
      grants := g₂.grants ++ [⟨sampleNode 3, 1, sampleNode 2⟩] }
    (.requestVote (sampleNode 3) (g₂.candidacies.length - 1)) hreach₂ trivial (by
        rw [Group.step, if_neg (by rw [Event.node, hvalid₃]; simp)]
        simp only [requestVote, hlast, h₂₃.symm, if_false, hvote]
        rfl)
  have hnode₂ : ((g₂.setStore (sampleNode 3) ⟨sampleNode 3, t₃, t₃⟩).store (sampleNode 2)) =
      ⟨sampleNode 2, t₂, t₂⟩ := by
    simp [setStore, h₂₃.symm, hstore]
  have hreach₄ := @Group.Reachable.step _ _ _ _ _
    (.countVotes (sampleNode 2) [sampleNode 2, sampleNode 3]) hreach₃ trivial (by
        rw [Group.step, if_neg (by decide +kernel)]
        simp only [countVotes, Group.state, hnode₂]
        rw [if_pos]
        constructor
        · simp [hterm, hgrant]
        · rw [ht₂]
          decide +kernel)
  -- and it appends an entry of its own
  obtain ⟨t₂', ht₂'⟩ : ∃ s : RaftPersistentState, s = { t₂ with
      entries := [⟨1, sampleAdvance 2 5⟩] } := ⟨_, rfl⟩
  have happend : (⟨sampleNode 2, t₂, t₂⟩ : RaftStore).appendCommand 1 (sampleAdvance 2 5) true =
      (.ok 1, ⟨sampleNode 2, t₂', t₂'⟩) := by
    rw [ht₂', ht₂]
    decide +kernel
  have hreach₅ := @Group.Reachable.step _ _ _ _ _
    (.appendCommand (sampleNode 2) (sampleAdvance 2 5)) hreach₄ rfl (by
        rw [Group.step, if_neg (by decide +kernel)]
        simp only [appendCommand, Group.leads, Group.state, hnode₂, hterm, happend]
        rw [if_pos]
        constructor
        · simp
        · change (g₂.changes (sampleNode 2)).isNone = true
          rw [hchanges, hchange])
  refine ⟨_, hreach₅, ⟨1, sampleAdvance 2 4⟩, ⟨1, sampleAdvance 2 5⟩, ?_, ?_, rfl, by decide +kernel⟩
  · simp only [Group.state, setStore, Function.update_of_ne h₁₂, Function.update_of_ne h₁₃,
      hstore, hstore₁, hs₁]
    rfl
  · simp only [Group.state, setStore, Function.update_self, ht₂', ht₂]
    rfl

end GideonDB.Cluster
