/-
The metadata log can be applied to its end.

Whether an entry applies depends on the entries before it that are not committed yet, and on
those the checks of `Propose` and `ChangeVoters` say nothing: they look at what the leader
has applied.

* `log_applies`: as long as no proposal is put behind uncommitted entries it does not fit
  (`Event.progressFits`), every log of the group applies to its end;
* `log_wedged`: a leader that proposes twice for one epoch, with different views, has a log
  that can never be committed.
-/
import GideonDB.Cluster.RaftChange

namespace GideonDB.Cluster

open Go Consensus Applied List

/-- The entries a state retains beyond its commit index. -/
def RaftPersistentState.uncommitted (s : RaftPersistentState) : List RaftEntry :=
  s.entries.drop (s.commitIndex - s.snapshotIndex)

/-- A proposal fits behind the uncommitted entries: each of them leaves the applied epoch
and view alone, or leads to the epoch and the view that is proposed, and no membership
change is begun or left open by them. -/
def ProposalFits (s : RaftPersistentState) (command : MetadataCommand) : Prop :=
  command.type = .advanceEpoch ∧ command.epoch + 1 < 2 ^ 64 ∧
  (s.jointOldVoters = [] ∨ ∃ e ∈ s.uncommitted, e.finalizes) ∧
  ∀ e ∈ s.uncommitted, ¬ e.begins ∧
    (e.command.epoch = s.appliedEpoch ∧ some (commandView e.command) = s.committedView ∨
      e.command.epoch = command.epoch ∧ commandView e.command = commandView command)
deriving Decidable

/-- A membership change fits behind the uncommitted entries: they repeat the applied epoch,
or end with the begin entry of the change itself. -/
def BeginFits (s : RaftPersistentState) (c : Change) : Prop :=
  s.uncommitted.getLast? = some ⟨c.term, c.begin⟩ ∨
    ∀ e ∈ s.uncommitted, e.command.type = .advanceEpoch ∧ e.command.epoch = s.appliedEpoch
deriving Decidable

/-- Leaders append through `Propose` and `ChangeVoters` only, and what they append fits
behind the uncommitted entries. -/
def Event.progressFits (g : Group) : Event → Prop
  | .appendCommand .. => False
  | .propose n command => ProposalFits (g.state n) command
  | .beginJoint n => ∀ c ∈ g.changes n, c.term = (g.state n).currentTerm → BeginFits (g.state n) c
  | _ => True

instance (g : Group) (event : Event) : Decidable (event.progressFits g) := by
  induction event using Event.casesOn <;> dsimp only [Event.progressFits] <;> infer_instance

/-! ### What an entry finds when it is applied -/

section

variable {V : List GoString} {epoch : ℕ} {ℓ : List RaftEntry} {a b : Applied}
  {command : MetadataCommand}

lemma applyAll_epoch_lt (ha : a.appliedEpoch < 2 ^ 64) (hb : a.applyAll ℓ = .ok b) :
    b.appliedEpoch < 2 ^ 64 := by
  refine foldlM_invariant (P := fun a => a.appliedEpoch < 2 ^ 64)
    (fun e _ a _ ha hb => ?_) ha hb
  have hlt : addOne a.appliedEpoch < 2 ^ 64 := Nat.mod_lt _ (Nat.two_pow_pos 64)
  cases apply_eq_ok.1 hb with
  | advance _ _ hepoch => exact hepoch ▸ hlt
  | duplicate | begins => exact ha
  | finalizes _ hepoch => exact hepoch ▸ hlt

/-- The epoch and the view are those of `a`, or those of the command. -/
def Leads (a : Applied) (command : MetadataCommand) (b : Applied) : Prop :=
  b.appliedEpoch = a.appliedEpoch ∧ b.committedView = a.committedView ∨
    b.appliedEpoch = command.epoch ∧ b.committedView = some (commandView command)

/-- Entries that fit lead to the applied epoch and view or to the proposed ones, without a
membership change in progress. -/
lemma applyAll_fits {a₀ : Applied} (hfits : ∀ e ∈ ℓ, ¬ e.begins ∧
      (e.command.epoch = a₀.appliedEpoch ∧ some (commandView e.command) = a₀.committedView ∨
        e.command.epoch = command.epoch ∧ commandView e.command = commandView command))
    (hjoint : a.jointOld = [] ∨ ∃ e ∈ ℓ, e.finalizes) (ha : Leads a₀ command a)
    (hb : a.applyAll ℓ = .ok b) : b.jointOld = [] ∧ Leads a₀ command b := by
  induction ℓ generalizing a with
  | nil =>
    cases hb
    exact ⟨by simpa using hjoint, ha⟩
  | cons e ℓ ih =>
    obtain ⟨a₁, ha₁, hb⟩ := applyAll_cons_eq_ok.1 hb
    obtain ⟨hbegins, hleads⟩ := hfits e (by simp)
    have hrest : ¬ e.finalizes → a₁.jointOld = a.jointOld →
        a₁.jointOld = [] ∨ ∃ e ∈ ℓ, e.finalizes := by
      intro hf hsame
      rcases hjoint with hnil | ⟨d, hd, hdf⟩
      · exact .inl (hsame.trans hnil)
      · rcases mem_cons.1 hd with rfl | hd
        · exact absurd hdf hf
        · exact .inr ⟨d, hd, hdf⟩
    refine ih (fun d hd => hfits d (by simp [hd])) ?_ ?_ hb
    · cases apply_eq_ok.1 ha₁ with
      | advance htype => exact hrest (by simp [RaftEntry.finalizes, htype]) rfl
      | duplicate htype => exact hrest (by simp [RaftEntry.finalizes, htype]) rfl
      | begins htype => exact absurd htype hbegins
      | finalizes => exact .inl rfl
    · have hnew : Leads a₀ command { a with
          appliedEpoch := e.command.epoch
          committedView := some (commandView e.command) } := by
        rcases hleads with ⟨hepoch, hview⟩ | ⟨hepoch, hview⟩
        · exact .inl ⟨hepoch, hview⟩
        · exact .inr ⟨hepoch, congrArg some hview⟩
      cases apply_eq_ok.1 ha₁ with
      | advance => exact hnew
      | duplicate => exact ha
      | begins htype => exact absurd htype hbegins
      | finalizes => exact hnew

lemma applyAll_repeats (hrepeat : ∀ e ∈ ℓ, e.command.type = .advanceEpoch ∧
      e.command.epoch = a.appliedEpoch) (hb : a.applyAll ℓ = .ok b) :
    b.jointOld = a.jointOld ∧ b.appliedEpoch = a.appliedEpoch := by
  refine foldlM_invariant (P := fun c => c.jointOld = a.jointOld ∧ c.appliedEpoch = a.appliedEpoch)
    (fun e he _ _ hsame hb => ?_) ⟨rfl, rfl⟩ hb
  obtain ⟨htype, hepoch⟩ := hrepeat e he
  cases apply_eq_ok.1 hb with
  | advance _ _ hnext => exact absurd (hsame.2.trans (hepoch.symm.trans hnext)) (addOne_ne _)
  | duplicate => exact hsame
  | begins htype' | finalizes htype' => simp [htype] at htype'

lemma two_le_of_advance {t : ℕ} (hvalid : ValidEntry ⟨t, command⟩)
    (htype : command.type = .advanceEpoch) : 2 ≤ command.epoch := by
  rw [ValidEntry, validateRaftEntry] at hvalid
  split at hvalid
  · simp at hvalid
  simp only [htype] at hvalid
  split at hvalid
  · simp at hvalid
  · rename_i hguard
    simp only [not_or] at hguard
    omega

lemma apply_proposal {a₀ : Applied} (hrange : a₀.appliedEpoch < 2 ^ 64)
    (hepoch : command.epoch = addOne a₀.appliedEpoch) (hmin : 2 ≤ command.epoch)
    (hmax : command.epoch + 1 < 2 ^ 64) (htype : command.type = .advanceEpoch)
    (hjoint : b.jointOld = []) (hleads : Leads a₀ command b) : ∃ b', b.apply command = .ok b' := by
  rcases hleads with ⟨hb, -⟩ | ⟨hb, hview⟩
  · rw [← hb] at hepoch hrange
    refine ⟨_, apply_eq_ok.2 (.advance htype hjoint hepoch ?_)⟩
    rw [addOne] at hepoch
    omega
  · refine ⟨_, apply_eq_ok.2 (.duplicate htype hjoint hb.symm ?_ hview)⟩
    rw [addOne, hb, Nat.mod_eq_of_lt hmax]
    omega

lemma apply_begin {c : Change} (hjoint : b.jointOld = []) (hepoch : b.appliedEpoch = c.epoch)
    (hvoters : b.voters = c.oldVoters) : ∃ b', b.apply c.begin = .ok b' :=
  ⟨_, apply_eq_ok.2 (.begins rfl hjoint hepoch.symm (.inr hvoters))⟩

lemma apply_finalize {c : Change} {a₁ : Applied} (hb : a₁.apply c.begin = .ok b) :
    ∃ b', b.apply c.finalize = .ok b' := by
  cases apply_eq_ok.1 hb with
  | begins _ _ hepoch =>
    refine ⟨_, apply_eq_ok.2 (.finalizes rfl ?_ rfl rfl)⟩
    exact congrArg addOne hepoch
  | advance htype | duplicate htype | finalizes htype => simp [Change.begin] at htype

end

/-! ### Logs that apply to their end -/

/-- Applying the log succeeds. -/
def Replayable (V : List GoString) (epoch : ℕ) (ℓ : List RaftEntry) : Prop :=
  ∃ b, (founded epoch V).applyAll ℓ = .ok b

section

variable {V : List GoString} {epoch : ℕ} {g g' : Group} {a a' : Sys GoString RaftEntry}

lemma Replayable.of_traced (h : ∀ t, Replayable V epoch (a.full t)) {ℓ : List RaftEntry}
    (hℓ : a.Traced (memberRules V) ℓ) : Replayable V epoch ℓ := by
  rcases eq_nil_or_concat' ℓ with rfl | ⟨m, e, rfl⟩
  · exact ⟨_, rfl⟩
  · have hpre := hℓ m.length e (by simp)
    rw [take_of_length_le (by simp)] at hpre
    obtain ⟨b, hb⟩ := h _
    exact applyAll_of_prefix hb hpre

lemma Holds.uncommitted {c : Cell RaftEntry} {s : RaftPersistentState} (h : Holds c s) :
    s.uncommitted = c.log.drop s.commitIndex := by
  have := h.snapshot_commit
  rw [RaftPersistentState.uncommitted, h.entries, drop_drop]
  congr 1
  omega

/-- What a founding member has applied at the commit index of a node, and at the end of its
log. -/
lemma Follows.split {ℓ : List RaftEntry} {s : RaftPersistentState} (h : Follows V epoch ℓ s)
    {b : Applied} (hb : (founded epoch V).applyAll ℓ = .ok b) :
    ∃ b₀, (founded epoch V).applyAll (ℓ.take s.commitIndex) = .ok b₀ ∧
      Joined s.applied b₀ ∧ b₀.applyAll (ℓ.drop s.commitIndex) = .ok b := by
  obtain ⟨b₀, hb₀, hj⟩ := h.replays.applied
  rw [← take_append_drop s.commitIndex ℓ] at hb
  obtain ⟨b₁, hb₁, hrest⟩ := applyAll_append_eq_ok.1 hb
  rw [hb₀, Except.ok.injEq] at hb₁
  exact ⟨b₀, hb₀, hj, hb₁ ▸ hrest⟩

/-- Whatever an event appends to the log of a leader applies behind it. -/
lemma Replayable.append (hcore : MemberCore V epoch g a) (hsess : Sessions V g a)
    (hsim : Sim (memberRules V) g a) (hrange : epoch < 2 ^ 64) {event : Event} {n : GoString} {t : ℕ}
    {command : MetadataCommand} (hfits : event.progressFits g) (happ : event.Appends g n t command)
    (hterm : t = (g.state n).currentTerm) (hvalid : ValidEntry ⟨t, command⟩)
    (hfresh : ¬ ((g.state n).commitIndex < (a.memory n).log.length ∧
      (a.memory n).log.getLast? = some ⟨t, command⟩))
    (h : Replayable V epoch (a.memory n).log) :
    Replayable V epoch ((a.memory n).log ++ [⟨t, command⟩]) := by
  obtain ⟨b, hb⟩ := h
  have hholds : Holds (a.memory n) (g.state n) := hsim.memory n
  have hfol : Follows V epoch (a.memory n).log (g.state n) := hcore.memory n
  obtain ⟨b₀, hb₀, hj, hrest⟩ := hfol.split hb
  have hrange₀ := applyAll_epoch_lt (a := founded epoch V) hrange hb₀
  have hepoch₀ : (g.state n).appliedEpoch = b₀.appliedEpoch := hj.appliedEpoch
  have hview₀ : (g.state n).committedView = b₀.committedView := hj.committedView
  have hjoint₀ : (g.state n).jointOldVoters = b₀.jointOld := hj.jointOld
  suffices happly : ∃ b', b.apply command = .ok b' by
    obtain ⟨b', hb'⟩ := happly
    exact ⟨b', applyAll_append_eq_ok.2 ⟨b, hb, applyAll_singleton_eq_ok.2 hb'⟩⟩
  cases happ with
  | appendCommand => exact hfits.elim
  | propose hepoch =>
    obtain ⟨htype, hmax, hopen, hents⟩ := hfits
    rw [hholds.uncommitted, hjoint₀] at hopen
    rw [hholds.uncommitted, hepoch₀, hview₀] at hents
    obtain ⟨hjoint, hleads⟩ := applyAll_fits hents hopen (.inl ⟨rfl, rfl⟩) hrest
    rw [hepoch₀] at hepoch
    exact apply_proposal hrange₀ hepoch (two_le_of_advance hvalid htype) hmax htype hjoint hleads
  | @beginJoint _ c hchange hstage =>
    have hst := (hsess n c hchange).stage hterm.symm
    rw [StageOK, hstage] at hst
    obtain ⟨hvoters, hjoint, hepoch⟩ := hst
    have hrepeat := (hfits c hchange hterm).resolve_left fun hlast => by
      -- the entry is already there, so nothing is appended
      rw [hholds.uncommitted, getLast?_drop] at hlast
      split at hlast
      · simp at hlast
      · exact hfresh ⟨by omega, hlast⟩
    rw [hholds.uncommitted, hepoch₀] at hrepeat
    obtain ⟨hjoint', hepoch'⟩ := applyAll_repeats hrepeat hrest
    refine apply_begin (by rw [hjoint', ← hjoint₀, hjoint]) (by rw [hepoch', ← hepoch₀, hepoch]) ?_
    rw [((hcore.orderly_memory hsim n).applyAll_voters hb).1]
    exact ((NewEntryOK.begin hcore hsim hvoters hjoint hvalid).begins rfl).symm
  | @finalizeJoint _ c hchange hstage =>
    have hst := (hsess n c hchange).stage hterm.symm
    rw [StageOK, hstage] at hst
    obtain ⟨ℓ, hℓ⟩ := getLast?_eq_some_iff.1 hst.1
    rw [hℓ] at hb
    obtain ⟨b₁, -, hb₁⟩ := applyAll_append_eq_ok.1 hb
    exact apply_finalize (applyAll_singleton_eq_ok.1 hb₁)

lemma Replayable.step (h : ∀ t, Replayable V epoch (a.full t)) (hcore : MemberCore V epoch g a)
    (hsess : Sessions V g a) (hsim : Sim (memberRules V) g a) (hrange : epoch < 2 ^ 64)
    {event : Event} (hfits : event.progressFits g) (hgrows : Grows g event a a') (t : ℕ) :
    Replayable V epoch (a'.full t) := by
  rcases hgrows t with hsame | ⟨n, hcand⟩ | ⟨n, command, happ, hterm, hvalid, hlog, hfresh, hfull⟩
  · rw [hsame]
    exact h t
  · exact of_traced h (hsim.inv.history.cand_traced hcand)
  · rw [hfull, ← hlog]
    rw [← hlog] at hfresh
    exact append hcore hsess hsim hrange hfits happ hterm hvalid hfresh (hlog ▸ h t)

end

/-- The steps of such a run. -/
def Event.progresses (g : Group) (event : Event) : Prop := event.orderly g ∧ event.progressFits g
deriving Decidable

lemma Group.Reachable.replayable {epoch : ℕ} {voters : List GoString} {g : Group}
    (h : Group.Reachable epoch voters (fun g event => event.progresses g) g) (hrange : epoch < 2 ^ 64) :
    ∃ a, Sim (memberRules (foundingVoters voters)) g a ∧
      MemberCore (foundingVoters voters) epoch g a ∧ Sessions (foundingVoters voters) g a ∧
      ∀ t, Replayable (foundingVoters voters) epoch (a.full t) := by
  induction h with
  | init =>
    refine ⟨Sys.init, Sim.init _ rfl epoch voters, .init epoch voters, by simp [Sessions, Group.init],
      fun t => ?_⟩
    rw [show Sys.init.full t = ([] : List RaftEntry) by simp [Sys.init, Sys.full]]
    exact ⟨_, rfl⟩
  | step _ hallow hstep ih =>
    obtain ⟨a, hsim, hcore, hsess, hreplay⟩ := ih
    obtain ⟨⟨hchanges, hvotes, hfits⟩, hprog⟩ := hallow
    obtain ⟨a', hsim', hcore', hsess', hgrows⟩ := hcore.step hsess hsim hchanges hvotes hfits hstep
    exact ⟨a', hsim', hcore', hsess',
      fun t => .step hreplay hcore hsess hsim hrange hprog hgrows t⟩

/-- **The log does not wedge.**  Every store, a leader's in particular, can apply its log to
the last entry. -/
theorem log_applies {epoch : ℕ} {voters : List GoString} {g : Group} (hrange : epoch < 2 ^ 64)
    (h : Group.Reachable epoch voters (fun g event => event.progresses g) g) (n : GoString) :
    ∃ s, (g.state n).applyThroughLocked (g.state n).lastLogLocked.1 = .ok s := by
  obtain ⟨a, hsim, hcore, -, hreplay⟩ := h.replayable hrange
  obtain ⟨b, hb⟩ := Replayable.of_traced hreplay (hsim.inv.memory n).traced
  have hholds : Holds (a.memory n) (g.state n) := hsim.memory n
  rw [hholds.lastIndex]
  exact (hcore.memory n).replays.applyThrough_of hholds le_rfl (by rwa [take_length])

/-- Node 1 leads, commits a first epoch and proposes a second one twice, with the same
view, without reaching a quorum. -/
def repeatedEvents : List Event :=
  [.beginElection (sampleNode 1), .requestVote (sampleNode 2) 0,
    .countVotes (sampleNode 1) [sampleNode 1, sampleNode 2],
    .propose (sampleNode 1) (sampleAdvance 2 7)] ++
  sendTo (sampleNode 1) (sampleNode 2) (sampleNode 3) 1 0 ++
  [.commit (sampleNode 1) 1 [sampleNode 1, sampleNode 2],
    .propose (sampleNode 1) (sampleAdvance 3 8), .propose (sampleNode 1) (sampleAdvance 3 8)]

theorem log_applies_repeated :
    ∃ g, (Group.init 1 [sampleNode 1, sampleNode 2, sampleNode 3]).run
        (fun g event => event.progresses g) 1 repeatedEvents = some g ∧
      g.leads (sampleNode 1) = true ∧ (g.state (sampleNode 1)).uncommitted ≠ [] ∧
      ∃ s, (g.state (sampleNode 1)).applyThroughLocked (g.state (sampleNode 1)).lastLogLocked.1 =
        .ok s := by
  obtain ⟨g, hg, hfacts⟩ := Option.map_eq_some_iff.1 (show ((Group.init 1 [sampleNode 1,
    sampleNode 2, sampleNode 3]).run (fun g event => event.progresses g) 1 repeatedEvents).map
      (fun g => (g.leads (sampleNode 1), (g.state (sampleNode 1)).uncommitted)) =
      some (true, [⟨1, sampleAdvance 3 8⟩]) by decide +kernel)
  obtain ⟨hleads, hlog⟩ := Prod.mk.inj hfacts
  exact ⟨g, hg, hleads, by simp [hlog],
    log_applies (by decide) (Group.Reachable.init.run hg) (sampleNode 1)⟩

/-- Node 1 leads and proposes two views for one epoch, the first without a quorum. -/
def wedgingEvents : List Event :=
  [.beginElection (sampleNode 1), .requestVote (sampleNode 2) 0,
    .countVotes (sampleNode 1) [sampleNode 1, sampleNode 2],
    .propose (sampleNode 1) (sampleAdvance 2 7), .propose (sampleNode 1) (sampleAdvance 2 8)]

/-- The second proposal is appended behind the first, and the log does not apply to its
end any more. -/
theorem log_wedged :
    ∃ g, (Group.init 1 [sampleNode 1, sampleNode 2, sampleNode 3]).run
        (fun g event => event.orderly g) 1 wedgingEvents = some g ∧
      g.leads (sampleNode 1) = true ∧
      (g.state (sampleNode 1)).entries = [⟨1, sampleAdvance 2 7⟩, ⟨1, sampleAdvance 2 8⟩] ∧
      (g.state (sampleNode 1)).applyThroughLocked (g.state (sampleNode 1)).lastLogLocked.1 =
        .error (.text "duplicate metadata epoch has conflicting view digests") := by
  obtain ⟨g, hg, hfacts⟩ := Option.map_eq_some_iff.1 (show ((Group.init 1 [sampleNode 1,
    sampleNode 2, sampleNode 3]).run (fun g event => event.orderly g) 1 wedgingEvents).map
      (fun g => (g.leads (sampleNode 1), (g.state (sampleNode 1)).entries,
        (g.state (sampleNode 1)).applyThroughLocked (g.state (sampleNode 1)).lastLogLocked.1)) =
      some (true, [⟨1, sampleAdvance 2 7⟩, ⟨1, sampleAdvance 2 8⟩],
        .error (.text "duplicate metadata epoch has conflicting view digests")) by decide +kernel)
  simp only [Prod.mk.injEq] at hfacts
  exact ⟨g, hg, hfacts⟩

end GideonDB.Cluster
