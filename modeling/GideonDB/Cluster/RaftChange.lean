/-
Elections while the membership changes.

The begin entry of `ChangeVoters` starts from the voters in force, it is committed under them
before the finalize entry is appended, and no other entry comes between the two.  So every log
has at most one transition that is not committed yet, and two quorums of one term meet.

A node counts its votes under the configuration it has applied by then.  The count is safe
when this is the configuration it stood for election with (`Event.votesFit`).  A candidate
that meanwhile applies entries of the leader of its own term may find that the votes it
already has suffice for the smaller group (`two_winners_removed`).
-/
import GideonDB.Cluster.RaftMembership

namespace GideonDB.Cluster

open Go Consensus Cluster.Group
open Option (ite_none_left_eq_some ite_none_right_eq_some)

variable {m n : GoString} {index t : ℕ} {s : RaftPersistentState} {ℓ : List RaftEntry}
  {command : MetadataCommand} {event : Event} {nodes votes : List GoString}

section

variable {V : List GoString} {epoch : ℕ} {g g' : Group} {a a' : Sys GoString RaftEntry}

/-! ### The steps of `ChangeVoters` -/

namespace Sim.AppendOutcome

variable {n : GoString} {t : ℕ} {command : MetadataCommand} {call : Except RaftError ℕ × RaftStore}

lemma memory_of_ne (h : AppendOutcome g a n t command a' call) (hm : m ≠ n) :
    a'.memory m = a.memory m := by
  cases h with
  | refused => rfl
  | repeated => rfl
  | appended _ _ _ _ howner =>
    rw [← howner] at hm
    simp [Sys.append, hm]

lemma of_ok (h : AppendOutcome g a n t command a' call) (hok : call.1 = .ok index)
    (hholds : Holds (a.memory n) (g.state n)) :
    index = (a'.memory n).log.length ∧ (a'.memory n).log.getLast? = some ⟨t, command⟩ ∧
      call.2.state.commitIndex < index := by
  cases h with
  | refused => simp at hok
  | repeated _ hlast hcommit =>
    cases hok
    exact ⟨rfl, hlast, hcommit⟩
  | @appended ρ s _ _ _ _ howner hmemory hstate =>
    cases hok
    have hlog : ((a.append t ρ ⟨t, command⟩).memory n).log = (a.memory n).log ++ [⟨t, command⟩] := by
      rw [hmemory]
      simp [Sys.append, howner]
    have hcommit : s.commitIndex = (g.state n).commitIndex := by rw [hstate]
    have := hholds.commit_le
    rw [hlog]
    refine ⟨by simp, by simp, ?_⟩
    change s.commitIndex < _
    omega

end Sim.AppendOutcome

/-- The begin entry of a call starts from the voters in force: they are what the leader has
applied, since it is not in a transition. -/
lemma NewEntryOK.begin (h : MemberCore V epoch g a) (hsim : Sim (memberRules V) g a) {c : Change}
    (hvoters : (g.state n).voters = c.oldVoters) (hjoint : (g.state n).jointOldVoters = [])
    (hvalid : ValidEntry ⟨c.term, c.begin⟩) :
    NewEntryOK V a (g.state n) (a.memory n).log ⟨c.term, c.begin⟩ := by
  refine ⟨fun hbegins => ?_, fun hf => absurd hf (RaftEntry.not_finalizes_of_begins rfl)⟩
  obtain ⟨b, hb, hj⟩ := (h.memory n).replays.applied
  have hord := h.orderly_memory hsim n
  have hvalids := hsim.valid_of_traced (hsim.inv.memory n).traced
  change c.oldVoters = _
  rcases Lags.configuration (V := V) (h.memory n).lags with ⟨e, he, hf, -⟩ | ⟨-, hconf⟩
  · -- a finalize entry that is not applied would mean a transition
    have hold := (hord.applyAll_joint he hf hb).1
    rw [← hj.jointOld] at hold
    have hne := ((hvalids e (List.mem_of_getElem? he)).transition (.inr hf)).1.ne_nil
    exact absurd (hold.symm.trans hjoint) hne
  · rw [hconf, ← ((hord.of_isPrefix (List.take_prefix _ _)).applyAll_voters hb).1, ← hvoters]
    rcases hj with hj | hj
    · exact congrArg Applied.voters hj
    · have hnil : (g.state n).voters = [] := congrArg Applied.voters hj
      exact absurd (hvoters.symm.trans hnil) (hvalid.transition (.inl hbegins)).1.ne_nil

lemma NewEntryOK.finalize {c : Change} (hlast : ℓ.getLast? = some ⟨c.term, c.begin⟩)
    (hcommit : s.commitIndex = ℓ.length) (hcmtd : a.Committed (memberRules V) c.term ℓ.length) :
    NewEntryOK V a s ℓ ⟨c.term, c.finalize⟩ :=
  ⟨fun hbegins => absurd rfl (RaftEntry.not_finalizes_of_begins hbegins),
    fun _ => ⟨hcommit, hcmtd, _, hlast, rfl, rfl, rfl⟩⟩

lemma NewEntryOK.advance (htype : command.type = .advanceEpoch) : NewEntryOK V a s ℓ ⟨t, command⟩ :=
  ⟨fun hb => by simp [RaftEntry.begins, htype] at hb,
    fun hf => by simp [RaftEntry.finalizes, htype] at hf⟩

lemma Elects.grows (h : Elects a a') : Grows g event a a' := fun t =>
  (h t).imp id Or.inl

lemma Sim.AppendOutcome.grows
    {call : Except RaftError ℕ × RaftStore} (h : AppendOutcome g a n t command a' call)
    (happ : event.Appends g n t command) : Grows g event a a' := by
  cases h with
  | refused => exact Grows.of_eq rfl
  | repeated => exact Grows.of_eq rfl
  | @appended ρ s hterm hvalid hfresh hreign howner hmemory hstate =>
    intro u
    by_cases hu : u = t
    · subst hu
      have hfull : a.full u = ρ.full := Sys.full_of_reign hreign
      have hlog : (a.memory n).log = a.full u := by rw [hmemory, hfull]
      refine .inr (.inr ⟨n, command, happ, hterm, hvalid, hlog, hlog ▸ hfresh, ?_⟩)
      rw [Sys.full_of_reign (r := ⟨ρ.owner, ρ.base, ρ.own ++ [⟨u, command⟩]⟩)
        (by simp [Sys.append]), hfull, ← List.append_assoc]
      rfl
    · exact .inl (by simp [Sys.full, Sys.append, hu])

lemma setChange_changes_of_ne (hm : m ≠ n) (c : Option Change) :
    (g.setChange n c).changes m = g.changes m := by
  simp [setChange, hm]

lemma setChange_changes_self (g : Group) (n : GoString) (c : Option Change) :
    (g.setChange n c).changes n = c := by
  simp [setChange]

lemma changes_eq_setChange (h : (g.changes n).isNone) :
    g.changes = (g.setChange n none).changes := by
  rw [setChange, ← Option.isNone_iff_eq_none.1 h, Function.update_eq_self]

lemma Group.mem_winners_of_leads (h : g.leads n) : (n, (g.state n).currentTerm) ∈ g.winners := by
  simpa [Group.leads] using h

lemma Sessions.setChange (h : Sessions V g a) {r : RaftStore} {c : Option Change}
    (hext : a.Extends a') (hstore : g'.store = (g.setStore n r).store)
    (hwin : g'.winners = g.winners) (hchanges : g'.changes = (g.setChange n c).changes)
    (hmem : ∀ m, m ≠ n → a'.memory m = a.memory m)
    (hc : ∀ ch, c = some ch → SessionOK V g' a' n ch) : Sessions V g' a' := by
  refine h.update n hext hwin (fun m hm => ?_) (fun m hm => ?_) hmem fun ch hch => ?_
  · rw [hchanges, setChange_changes_of_ne hm]
  · rw [Group.state, hstore]
    exact setStore_state_of_ne hm r
  · rw [hchanges, setChange_changes_self] at hch
    exact hc ch hch

section

variable (h : MemberCore V epoch g a) (hsess : Sessions V g a) (hsim : Sim (memberRules V) g a)

include h hsess hsim

lemma MemberCore.setChange {c : Option Change}
    (hc : ∀ ch, c = some ch → SessionOK V (g.setChange n c) a n ch) :
    Member V epoch g event a (g.setChange n c) := by
  refine ⟨a, hsim.congr, h.congr, ?_, .of_eq rfl⟩
  refine hsess.setChange (r := g.store n) (Sys.Extends.refl a) ?_ rfl rfl (fun _ _ => rfl) hc
  rw [Sim.setStore_self]
  rfl

lemma MemberCore.changeVoters {newVoters : List GoString} {view : ViewDigests}
    (hstep : g.changeVoters n newVoters view = some g') :
    Member V epoch g (.changeVoters n newVoters view) a g' := by
  obtain ⟨⟨hlead, -, -, hjoint, -⟩, ⟨⟩⟩ := ite_none_right_eq_some.1 hstep
  refine h.setChange hsess hsim fun ch hch => ?_
  cases hch
  exact ⟨mem_winners_of_leads hlead, fun _ => ⟨rfl, hjoint, rfl⟩⟩

/-- `ChangeVoters` appends one of its entries, and goes on if it can. -/
lemma MemberCore.appendStage {n : GoString} {c : Change} (stage : ℕ → Stage)
    (hc : g.changes n = some c) (hnew : c.term = (g.state n).currentTerm →
      ValidEntry ⟨c.term, command⟩ →
        NewEntryOK V a (g.state n) (a.memory n).log ⟨c.term, command⟩)
    (happ : event.Appends g n c.term command)
    (hstage : ∀ {a' index r}, Sim.AppendOutcome g a n c.term command a' (.ok index, r) →
      StageOK V a' r.state (a'.memory n).log { c with stage := stage index })
    {call : Except RaftError ℕ × RaftStore}
    (hcall : (g.store n).appendCommand c.term command true = call) :
    Member V epoch g event a ((g.setStore n call.2).setChange n
      (call.1.toOption.map fun index => { c with stage := stage index })) := by
  have hwinner := (hsess n c hc).winner
  obtain ⟨a', hsim', hcore', hext, hout⟩ := h.append hsim hwinner hnew hcall
  refine ⟨a', hsim'.congr, hcore'.congr, ?_, hout.grows happ⟩
  refine hsess.setChange hext rfl rfl rfl (fun m hm => hout.memory_of_ne hm) fun ch hch => ?_
  obtain ⟨err | index, r⟩ := call
  · cases hch
  · cases hch
    refine ⟨hwinner, fun _ => ?_⟩
    change StageOK V a' ((g.setStore n r).state n) _ _
    rw [setStore_state_self]
    exact hstage hout

lemma MemberCore.beginJoint {n : GoString} (hstep : g.beginJoint n = some g') :
    Member V epoch g (.beginJoint n) a g' := by
  rw [Group.beginJoint] at hstep
  split at hstep
  · simp at hstep
  rename_i c hc
  obtain ⟨hstage, hstep⟩ := ite_none_right_eq_some.1 hstep
  generalize hcall : (g.store n).appendCommand c.term c.begin true = call at hstep
  have hmember := h.appendStage hsess hsim .begun hc (fun hterm hvalid => ?_)
    (.beginJoint hc hstage) (fun hout => hout.of_ok rfl (hsim.memory n)) hcall
  · obtain ⟨err | index, r⟩ := call <;> cases hstep <;> exact hmember
  · have hst := (hsess n c hc).stage hterm.symm
    rw [StageOK, hstage] at hst
    exact .begin h hsim hst.1 hst.2.1 hvalid

lemma MemberCore.commitJoint (hstep : g.commitJoint n nodes = some g') :
    Member V epoch g (.commitJoint n nodes) a g' := by
  rw [Group.commitJoint] at hstep
  split at hstep
  · simp at hstep
  rename_i c hc
  split at hstep
  swap
  · simp at hstep
  rename_i index hstage
  obtain ⟨hack, hstep⟩ := ite_none_left_eq_some.1 hstep
  rw [not_not] at hack
  have hsession := hsess n c hc
  split at hstep
  · cases hstep
    exact h.setChange hsess hsim (by simp)
  generalize hcall : (g.store n).commitWithVoterAcks index c.term nodes true = call at hstep
  obtain ⟨a₁, hsim₁, hcore₁, hext₁, hmem₁, hfull₁, hok₁⟩ := h.commit hsim hcall
  obtain ⟨x, r⟩ := call
  cases x with
  | error err =>
    cases hstep
    refine ⟨a₁, hsim₁.congr, hcore₁.congr, ?_, .of_eq hfull₁⟩
    exact hsess.setChange hext₁ rfl rfl rfl (fun m _ => by rw [hmem₁]) (by simp)
  | ok u =>
    cases hstep
    obtain ⟨hquor, hterm, hpos, hlen, htermAt, -, hcommit⟩ := hok₁ rfl
    have hst := hsession.stage hterm.symm
    rw [StageOK, hstage] at hst
    obtain ⟨hindex, hlast, hlt⟩ := hst
    -- the acknowledgements are a quorum of the whole log
    have hq : (memberRules V).quorum ((a.memory n).log.take index) {v | v ∈ nodes} := by
      rw [hindex, List.take_length]
      exact (h.memory n).quorum (h.orderly_memory hsim n)
        (hsim.valid_of_traced (hsim.inv.memory n).traced) hquor
    obtain ⟨hack', hcmtd⟩ := hsim.committed_of_acks h.acks hsession.winner hterm.symm hack hpos
      hlen htermAt hq
    have hext := hsim.inv.extends_step hack'
    obtain ⟨a', hsim', hcore', hext', hmem', hfull', -⟩ :=
      (h.acknowledged hext).commit (hsim.acknowledge hack') hcall
    refine ⟨a', hsim'.congr, hcore'.congr, ?_,
      .of_eq hfull'⟩
    refine hsess.setChange (hext.trans hext') rfl rfl rfl (fun m _ => by rw [hmem']; rfl)
      fun ch hch => ?_
    cases hch
    refine ⟨hsession.winner, fun _ => ?_⟩
    change StageOK V a' ((g.setStore n r).state n) _ _
    rw [setStore_state_self, hmem']
    refine ⟨hlast, ?_, ?_⟩
    · change r.state.commitIndex = (a.memory n).log.length
      rw [← hindex, show r.state.commitIndex = max (g.state n).commitIndex index from hcommit]
      exact Nat.max_eq_right hlt.le
    · change a'.Committed (memberRules V) c.term (a.memory n).log.length
      rw [← hindex]
      exact hcmtd.mono hext'

lemma MemberCore.finalizeJoint {n : GoString} (hstep : g.finalizeJoint n = some g') :
    Member V epoch g (.finalizeJoint n) a g' := by
  rw [Group.finalizeJoint] at hstep
  split at hstep
  · simp at hstep
  rename_i c hc
  obtain ⟨hstage, hstep⟩ := ite_none_right_eq_some.1 hstep
  generalize hcall : (g.store n).appendCommand c.term c.finalize true = call at hstep
  have hmember := h.appendStage hsess hsim .finalized hc (fun hterm _ => ?_)
    (.finalizeJoint hc hstage) (fun _ => trivial) hcall
  · obtain ⟨err | index, r⟩ := call <;> cases hstep <;> exact hmember
  · have hst := (hsess n c hc).stage hterm.symm
    rw [StageOK, hstage] at hst
    exact .finalize hst.1 hst.2.1 hst.2.2

lemma MemberCore.commitFinal (hstep : g.commitFinal n nodes = some g') :
    Member V epoch g (.commitFinal n nodes) a g' := by
  rw [Group.commitFinal] at hstep
  split at hstep
  · simp at hstep
  split at hstep
  swap
  · simp at hstep
  obtain ⟨-, ⟨⟩⟩ := ite_none_right_eq_some.1 hstep
  obtain ⟨a', hsim', hcore', hext, hmem, hfull, -⟩ := h.commit hsim rfl
  refine ⟨a', hsim'.congr, hcore'.congr, ?_, .of_eq hfull⟩
  exact hsess.setChange hext rfl rfl rfl (fun m _ => by rw [hmem]) (by simp)

end

/-! ### Every event -/

/-- The node's configuration is the one it stood for election with in its current term. -/
def Group.stands (g : Group) (n : GoString) : Prop :=
  ∃ c ∈ g.candidacies, c.request.term = (g.state n).currentTerm ∧ c.request.candidateID = n ∧
    c.state.voters = (g.state n).voters ∧ c.state.jointOldVoters = (g.state n).jointOldVoters ∧
    c.state.jointNewVoters = (g.state n).jointNewVoters
deriving Decidable

/-- Votes are counted under the configuration the candidate stood with. -/
def Event.votesFit (g : Group) : Event → Prop
  | .countVotes n _ => g.stands n
  | _ => True

/-- Voters change by the steps of `ChangeVoters` only, and no snapshots are sent. -/
def Event.changesByLeader : Event → Prop
  | .appendCommand _ command | .propose _ command => command.type = .advanceEpoch
  | .sendSnapshot .. | .installSnapshot .. => False
  | _ => True

instance (g : Group) (event : Event) : Decidable (event.votesFit g) := by
  induction event using Event.casesOn <;> dsimp only [Event.votesFit] <;> infer_instance

instance (event : Event) : Decidable event.changesByLeader := by
  induction event using Event.casesOn <;> dsimp only [Event.changesByLeader] <;> infer_instance

/-- A count under the configuration the candidate stood with is won in the protocol. -/
lemma MemberCore.won (h : MemberCore V epoch g a) (hsim : Sim (memberRules V) g a)
    (hstands : g.stands n)
    (hall : votes.all (fun v => g.grants.contains ⟨v, (g.state n).currentTerm, n⟩) = true)
    (hq : (g.state n).hasVoterQuorum votes) : a.Won (memberRules V) n (g.state n).currentTerm := by
  obtain ⟨c, hc, hterm, hid, hvoters, hold, hnew⟩ := hstands
  obtain ⟨L, hL, hfol⟩ := h.candidacies c hc
  rw [hterm, hid] at hL
  have htraced := hsim.inv.history.cand_traced hL
  refine hsim.won hL (hfol.quorum (.of_traced h.orderly htraced)
    (hsim.valid_of_traced htraced) ?_) (by simpa [List.all_eq_true] using hall)
  rw [RaftPersistentState.hasVoterQuorum] at hq ⊢
  rwa [hvoters, hold, hnew]

section

variable (h : MemberCore V epoch g a) (hsess : Sessions V g a) (hsim : Sim (memberRules V) g a)

include h hsess hsim

lemma MemberCore.election (helection : event.isElection) (hvotes : event.votesFit g)
    (hfits : event.termFits g) (hstep : g.step epoch event = some g') :
    Member V epoch g event a g' := by
  obtain ⟨a', hrun, hsim', helects⟩ := hsim.election hfits hstep helection (memberRules_lawful V)
    (by rintro n votes rfl; exact h.won hsim hvotes)
  have hext := (hsim.inv.run hrun).2
  have hc := canvasses_of_step hfits hstep helection
  obtain ⟨hcore, hlog⟩ := h.canvasses hsim hext hsim' helects hc
  exact ⟨a', hsim', hcore, hsess.canvasses hsim hext hlog hc, helects.grows⟩

lemma MemberCore.appendCommand (htype : command.type = .advanceEpoch)
    (happ : event.Appends g n (g.state n).currentTerm command)
    (hstep : g.appendCommand n command = some g') : Member V epoch g event a g' := by
  obtain ⟨hguard, ⟨⟩⟩ := ite_none_right_eq_some.1 hstep
  obtain ⟨a', hsim', hcore', hext, hout⟩ := h.append hsim (mem_winners_of_leads hguard.1)
    (fun _ _ => .advance htype) rfl
  exact ⟨a', hsim', hcore', hsess.setChange hext rfl rfl (changes_eq_setChange hguard.2)
    (fun m hm => hout.memory_of_ne hm) (by simp), hout.grows happ⟩

lemma MemberCore.commitCommand (hstep : g.commit n index nodes = some g') :
    Member V epoch g (.commit n index nodes) a g' := by
  obtain ⟨hguard, ⟨⟩⟩ := ite_none_right_eq_some.1 hstep
  obtain ⟨a', hsim', hcore', hext, hmem, hfull, -⟩ := h.commit hsim rfl
  exact ⟨a', hsim', hcore', hsess.setChange hext rfl rfl (changes_eq_setChange hguard.2.1)
    (fun m _ => by rw [hmem]) (by simp), .of_eq hfull⟩

lemma MemberCore.step {event : Event} (hchanges : event.changesByLeader) (hvotes : event.votesFit g)
    (hfits : event.termFits g) (hstep : g.step epoch event = some g') :
    Member V epoch g event a g' := by
  have helection := fun helection => h.election hsess hsim helection hvotes hfits hstep
  obtain ⟨-, hstep⟩ := ite_none_left_eq_some.1 hstep
  cases event with
  | beginElection | requestVote | countVotes | observeTerm => exact helection trivial
  | appendCommand n command => exact h.appendCommand hsess hsim hchanges .appendCommand hstep
  | propose n command =>
    obtain ⟨hepoch, hstep⟩ := ite_none_right_eq_some.1 hstep
    exact h.appendCommand hsess hsim hchanges (.propose hepoch) hstep
  | sendAppend n next limit =>
    obtain ⟨hsim', hcore', hstore, hwin, hch⟩ := h.sendAppend hsim hstep
    exact ⟨a, hsim', hcore', hsess.mono (Sys.Extends.refl a) rfl hstore hwin hch, .of_eq rfl⟩
  | appendEntries n message => exact h.appendEntries hsess hsim hstep
  | sendSnapshot => exact hchanges.elim
  | installSnapshot => exact hchanges.elim
  | commit n index nodes => exact h.commitCommand hsess hsim hstep
  | compact n => exact h.compact hsess hsim hstep
  | restart n => exact h.restart hsess hsim hstep
  | changeVoters n newVoters view => exact h.changeVoters hsess hsim hstep
  | beginJoint n => exact h.beginJoint hsess hsim hstep
  | commitJoint n nodes => exact h.commitJoint hsess hsim hstep
  | finalizeJoint n => exact h.finalizeJoint hsess hsim hstep
  | commitFinal n nodes => exact h.commitFinal hsess hsim hstep

end

lemma MemberCore.init (epoch : ℕ) (voters : List GoString) :
    MemberCore (foundingVoters voters) epoch (Group.init epoch voters) Sys.init := by
  have hfol : ∀ v, v = foundingVoters voters ∨ v = [] → Follows (foundingVoters voters) epoch []
      { RaftPersistentState.bootstrap epoch with voters := v } := by
    intro v hv
    refine ⟨⟨⟨_, rfl, ?_⟩, _, rfl, rfl, rfl, rfl⟩, by simp [Lags]⟩
    rcases hv with rfl | rfl
    · exact .inl rfl
    · exact .inr rfl
  refine ⟨fun t => ?_, fun n => ?_, fun n => ?_, by simp [Group.init], by simp [Group.init],
    by simp [Group.init, AcksOK]⟩
  · simpa [Sys.init, Sys.full] using Orderly.nil
  all_goals
    obtain ⟨v, hv, hfounder⟩ := founder_eq epoch voters n
    simp only [Group.init, hfounder]
    exact hfol v hv

end

/-- The steps of a safe run. -/
def Event.orderly (g : Group) (event : Event) : Prop :=
  event.changesByLeader ∧ event.votesFit g ∧ event.termFits g
deriving Decidable

lemma Group.Reachable.member {epoch : ℕ} {voters : List GoString} {g : Group}
    (h : Group.Reachable epoch voters (fun g event => event.orderly g) g) :
    ∃ a, Sim (memberRules (foundingVoters voters)) g a ∧
      MemberCore (foundingVoters voters) epoch g a ∧ Sessions (foundingVoters voters) g a := by
  induction h with
  | init => exact ⟨Sys.init, Sim.init _ rfl epoch voters, .init epoch voters, by simp [Sessions, Group.init]⟩
  | step _ hallow hstep ih =>
    obtain ⟨a, hsim, hcore, hsess⟩ := ih
    obtain ⟨a', hsim', hcore', hsess', -⟩ :=
      hcore.step hsess hsim hallow.1 hallow.2.1 hallow.2.2 hstep
    exact ⟨a', hsim', hcore', hsess'⟩

/-- **Election safety.**  However the voters change, no two nodes count a quorum of votes
in one term. -/
theorem election_safety {epoch : ℕ} {voters : List GoString} {g : Group}
    (h : Group.Reachable epoch voters (fun g event => event.orderly g) g) {m n : GoString} {t : ℕ}
    (hm : (m, t) ∈ g.winners) (hn : (n, t) ∈ g.winners) : m = n := by
  obtain ⟨a, hsim, -⟩ := h.member
  obtain ⟨r, hr, hown⟩ := hsim.winners _ hm
  obtain ⟨r', hr', hown'⟩ := hsim.winners _ hn
  rw [hr, Option.some.injEq] at hr'
  subst hr'
  exact hown.symm.trans hown'

/-- The leader `n` sends its log from `index` on to two nodes; `message` counts the
requests sent before. -/
def sendTo (n m m' : GoString) (index message : ℕ) : List Event :=
  [.sendAppend n index 16, .appendEntries m message, .appendEntries m' message]

/-- Node 1 leads term 1 and admits node 4; then node 2 leads term 2. -/
def admissionEvents : List Event :=
  [.beginElection (sampleNode 1), .requestVote (sampleNode 2) 0,
    .countVotes (sampleNode 1) [sampleNode 1, sampleNode 2],
    .changeVoters (sampleNode 1) [sampleNode 1, sampleNode 2, sampleNode 3, sampleNode 4] (sampleView 7),
    .beginJoint (sampleNode 1)] ++ sendTo (sampleNode 1) (sampleNode 2) (sampleNode 4) 1 0 ++
  [.commitJoint (sampleNode 1) [sampleNode 1, sampleNode 2, sampleNode 4],
    .finalizeJoint (sampleNode 1)] ++ sendTo (sampleNode 1) (sampleNode 2) (sampleNode 4) 2 1 ++
  [.commitFinal (sampleNode 1) [sampleNode 1, sampleNode 2, sampleNode 4]] ++
  sendTo (sampleNode 1) (sampleNode 2) (sampleNode 4) 3 2 ++
  [.beginElection (sampleNode 2), .requestVote (sampleNode 3) 1, .requestVote (sampleNode 4) 1,
    .countVotes (sampleNode 2) [sampleNode 2, sampleNode 3, sampleNode 4]]

theorem election_safety_admission :
    ∃ g, (Group.init 1 [sampleNode 1, sampleNode 2, sampleNode 3]).run
        (fun g event => event.orderly g) 1 admissionEvents = some g ∧
      (g.state (sampleNode 2)).voters = [sampleNode 1, sampleNode 2, sampleNode 3, sampleNode 4] ∧
      (sampleNode 1, 1) ∈ g.winners ∧ (sampleNode 2, 2) ∈ g.winners ∧
      ∀ n, (n, 2) ∈ g.winners → n = sampleNode 2 := by
  obtain ⟨g, hg, hfacts⟩ := Option.map_eq_some_iff.1 (show ((Group.init 1 [sampleNode 1,
    sampleNode 2, sampleNode 3]).run (fun g event => event.orderly g) 1 admissionEvents).map
      (fun g => ((g.state (sampleNode 2)).voters, g.winners)) =
      some ([sampleNode 1, sampleNode 2, sampleNode 3, sampleNode 4],
        [(sampleNode 1, 1), (sampleNode 2, 2)]) by decide +kernel)
  obtain ⟨hvoters, hwins⟩ := Prod.mk.inj hfacts
  have hwin : (sampleNode 2, 2) ∈ g.winners := by simp [hwins]
  exact ⟨g, hg, hvoters, by simp [hwins], hwin,
    fun n hn => election_safety (Group.Reachable.init.run hg) hn hwin⟩

/-- Node 1 has the votes of nodes 1 and 2 in term 1, node 3 leads the term and removes
nodes 5 and 4, and node 1 learns of it before it counts. -/
def removalEvents : List Event :=
  [.beginElection (sampleNode 1), .requestVote (sampleNode 2) 0, .beginElection (sampleNode 3),
    .requestVote (sampleNode 4) 1, .requestVote (sampleNode 5) 1,
    .countVotes (sampleNode 3) [sampleNode 3, sampleNode 4, sampleNode 5],
    .changeVoters (sampleNode 3) [sampleNode 1, sampleNode 2, sampleNode 3, sampleNode 4] (sampleView 7),
    .beginJoint (sampleNode 3)] ++ sendTo (sampleNode 3) (sampleNode 2) (sampleNode 4) 1 0 ++
  [.commitJoint (sampleNode 3) [sampleNode 2, sampleNode 3, sampleNode 4],
    .finalizeJoint (sampleNode 3)] ++ sendTo (sampleNode 3) (sampleNode 2) (sampleNode 4) 2 1 ++
  [.commitFinal (sampleNode 3) [sampleNode 2, sampleNode 3, sampleNode 4],
    .changeVoters (sampleNode 3) [sampleNode 1, sampleNode 2, sampleNode 3] (sampleView 8),
    .beginJoint (sampleNode 3)] ++ sendTo (sampleNode 3) (sampleNode 2) (sampleNode 4) 3 2 ++
  [.commitJoint (sampleNode 3) [sampleNode 2, sampleNode 3, sampleNode 4],
    .finalizeJoint (sampleNode 3)] ++ sendTo (sampleNode 3) (sampleNode 2) (sampleNode 4) 4 3 ++
  [.commitFinal (sampleNode 3) [sampleNode 2, sampleNode 3, sampleNode 4],
    .sendAppend (sampleNode 3) 1 16, .appendEntries (sampleNode 1) 4,
    .countVotes (sampleNode 1) [sampleNode 1, sampleNode 2]]

/-- Two nodes lead term 1: node 3 with three votes of five, and node 1 with two of three,
as it has applied the removal of two nodes before it counts its votes. -/
theorem two_winners_removed :
    ∃ g, Group.Reachable 1 [sampleNode 1, sampleNode 2, sampleNode 3, sampleNode 4, sampleNode 5]
        (fun g event => event.changesByLeader ∧ event.termFits g) g ∧
      (sampleNode 1, 1) ∈ g.winners ∧ (sampleNode 3, 1) ∈ g.winners ∧
      sampleNode 1 ≠ sampleNode 3 := by
  obtain ⟨g, hg, hwins⟩ := Option.map_eq_some_iff.1 (show ((Group.init 1 [sampleNode 1,
    sampleNode 2, sampleNode 3, sampleNode 4, sampleNode 5]).run
      (fun g event => event.changesByLeader ∧ event.termFits g) 1 removalEvents).map winners =
      some [(sampleNode 3, 1), (sampleNode 1, 1)] by decide +kernel)
  exact ⟨g, Group.Reachable.init.run hg, by simp [hwins], by simp [hwins], by decide +kernel⟩

end GideonDB.Cluster
