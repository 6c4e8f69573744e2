/-
Groups whose membership changes.

The protocol is run with the voters of a log's configuration: those after its last
finalize entry (`memberRules`).  What the invariant of this file adds to the simulation is
why a quorum counted under the applied voters is a majority of these:

* `Replays`: what a node has applied is what its log says up to the commit index, and no
  more than the next finalize entry is left out (`Lags`);
* `Orderly`: in every leader's log a membership change starts from the voters in force and
  is finalized right after it has begun;
* `SessionOK`: how far a call of `ChangeVoters` has come, as long as its term lasts.
-/
import GideonDB.Cluster.RaftCommit
import GideonDB.Cluster.RaftReplay

namespace GideonDB.Cluster

open Go Consensus RaftPersistentState Cluster.Group Applied List

/-- Majorities of the configuration. -/
def memberRules (V : List GoString) : Rules GoString RaftEntry where
  term := RaftEntry.term
  quorum ℓ := Majority (configuration V ℓ)
  reconf := RaftEntry.finalizes

lemma memberRules_lawful (V : List GoString) : (memberRules V).Lawful where
  meets := by
    rintro ℓ S T ⟨acks, h, hS⟩ ⟨acks', h', hT⟩
    obtain ⟨v, hv, ha, ha'⟩ := voterMajority_meet_self h h'
    exact ⟨v, hS v hv ha, hT v hv ha'⟩
  append := by
    intro ℓ e S he
    have hconf : configuration V (ℓ ++ [e]) = configuration V ℓ := by
      rw [configuration_append_singleton, if_neg (show ¬ e.finalizes from he)]
    change Majority (configuration V (ℓ ++ [e])) S ↔ Majority (configuration V ℓ) S
    rw [hconf]

/-! ### What a node has applied -/

/-- What the state `s` has applied, now and at its snapshot, is what the log `ℓ` says. -/
structure Replays (V : List GoString) (epoch : ℕ) (ℓ : List RaftEntry) (s : RaftPersistentState) :
    Prop where
  applied : ∃ b, (founded epoch V).applyAll (ℓ.take s.commitIndex) = .ok b ∧
    Joined s.applied b
  snapshot : ∃ b, (founded epoch V).applyAll (ℓ.take s.snapshotIndex) = .ok b ∧
    b.appliedEpoch = s.snapshotEpoch ∧ b.committedView = s.snapshotView ∧ b.jointOld = []

/-- What is applied is what the log says, and does not stay behind it too far. -/
structure Follows (V : List GoString) (epoch : ℕ) (ℓ : List RaftEntry) (s : RaftPersistentState) :
    Prop where
  replays : Replays V epoch ℓ s
  lags : Lags ℓ s.commitIndex

variable {target : ℕ}

namespace Replays

variable {V : List GoString} {epoch : ℕ} {ℓ ℓ' : List RaftEntry} {c : Cell RaftEntry}
  {s s' : RaftPersistentState}

lemma congr (h : Replays V epoch ℓ s) (happlied : s'.applied = s.applied)
    (hindex : s'.snapshotIndex = s.snapshotIndex) (hepoch : s'.snapshotEpoch = s.snapshotEpoch)
    (hview : s'.snapshotView = s.snapshotView) : Replays V epoch ℓ s' := by
  have hcommit : s'.commitIndex = s.commitIndex := congrArg Applied.commitIndex happlied
  constructor
  · rw [hcommit, happlied]
    exact h.applied
  · rw [hindex, hepoch, hview]
    exact h.snapshot

lemma of_take (h : Replays V epoch ℓ s) (hsnap : s.snapshotIndex ≤ s.commitIndex)
    (htake : ℓ'.take s.commitIndex = ℓ.take s.commitIndex) : Replays V epoch ℓ' s := by
  have htake' : ℓ'.take s.snapshotIndex = ℓ.take s.snapshotIndex := by
    rw [← Nat.min_eq_left hsnap, ← take_take, htake, take_take]
  exact ⟨htake ▸ h.applied, htake' ▸ h.snapshot⟩

lemma take_append_drop_take {α : Type} (ℓ : List α) (i j : ℕ) :
    ℓ.take i ++ (ℓ.drop i).take (j - i) = ℓ.take (max i j) := by
  rw [← take_add]
  congr 1
  omega

section

variable (h : Replays V epoch c.log s) (hs : Holds c s)

include h hs

lemma applyThrough (hlog : Orderly V c.log) (htgt : target ≤ c.log.length)
    (happly : s.applyThroughLocked target = .ok s') : Replays V epoch c.log s' := by
  rw [hs.applyThrough_eq htgt] at happly
  obtain ⟨a, ha, rfl⟩ := map_eq_ok.1 happly
  obtain ⟨b, hb, hj⟩ := h.applied
  have hsplit := take_append_drop_take c.log s.commitIndex target
  have hpre : c.log.take s.commitIndex ++ (c.log.drop s.commitIndex).take (target - s.commitIndex) <+:
      c.log := by
    rw [hsplit]
    exact take_prefix _ _
  obtain ⟨b', hb', hj'⟩ := (hlog.of_isPrefix hpre).applyAll_of_joined hb hj ha
  have hcommit : a.commitIndex = max s.commitIndex target := by
    have hlen := hs.commit_le
    rw [applyAll_commitIndex ha, length_take, length_drop]
    change s.commitIndex + _ = _
    omega
  refine ⟨⟨b', ?_, hj'⟩, h.snapshot⟩
  change (founded epoch V).applyAll (c.log.take a.commitIndex) = .ok b'
  rw [hcommit, ← hsplit]
  exact hb'

lemma applyThrough_of (htgt : target ≤ c.log.length) {b : Applied}
    (hb : (founded epoch V).applyAll (c.log.take target) = .ok b) :
    ∃ s', s.applyThroughLocked target = .ok s' := by
  rcases Nat.le_total target s.commitIndex with hle | hle
  · rw [hs.applyThrough_eq htgt, Nat.sub_eq_zero_of_le hle]
    exact ⟨_, rfl⟩
  · have hsplit := take_append_drop_take c.log s.commitIndex target
    rw [Nat.max_eq_right hle] at hsplit
    obtain ⟨b₀, hb₀, hj⟩ := h.applied
    rw [← hsplit] at hb
    obtain ⟨b₁, hb₁, hb⟩ := applyAll_append_eq_ok.1 hb
    rw [hb₀, Except.ok.injEq] at hb₁
    subst hb₁
    obtain ⟨a, ha, -⟩ := hj.applyAll_of hb
    rw [hs.applyThrough_eq htgt, ha]
    exact ⟨_, rfl⟩

/-- `validateLocked` gives back a state that has applied what its log says. -/
lemma validateLocked_eq (hvalid : ∀ e ∈ c.log, ValidEntry e) (hepoch : epoch ≠ 0)
    (hok : s.validateLocked epoch = .ok s') : s' = s := by
  obtain ⟨b₀, hb₀, hepoch₀, hview₀, hjoint₀⟩ := h.snapshot
  obtain ⟨b, hb, hj⟩ := h.applied
  have hsame : s.withSnapshotEpoch epoch = s := by
    rw [withSnapshotEpoch, if_neg]
    rintro ⟨hzero, hindex⟩
    rw [hindex, take_zero] at hb₀
    cases hb₀
    exact hepoch (hepoch₀.trans hzero)
  rw [validateLocked, hsame] at hok
  split at hok
  · simp at hok
  -- the loop replays what lies between the snapshot and the commit index
  have hjointNew : b₀.jointNew = [] :=
    applyAll_jointNew (fun e he => hvalid e (mem_of_mem_take he)) (fun _ => rfl) hb₀ hjoint₀
  have htracks : Tracks ⟨s.snapshotEpoch, s.snapshotView, [], [], []⟩ b₀ :=
    ⟨[], .inl rfl, by rw [hepoch₀, hview₀, hjoint₀, hjointNew]⟩
  have hsplit := take_append_drop_take c.log s.snapshotIndex s.commitIndex
  rw [Nat.max_eq_right hs.snapshot_commit] at hsplit
  rw [← hsplit] at hb
  obtain ⟨b₁, hb₁, hb⟩ := applyAll_append_eq_ok.1 hb
  rw [hb₀, Except.ok.injEq] at hb₁
  subst hb₁
  rw [← hs.entries] at hb
  obtain ⟨r, hr, w, -, hrb⟩ := htracks.replayAll hb
  rw [validateLoop_eq_replayAll (fun e he => hvalid e (by
      rw [hs.entries] at he
      exact mem_of_mem_drop he)),
    show s.commitIndex + 1 - (s.snapshotIndex + 1) = s.commitIndex - s.snapshotIndex by omega] at hok
  rw [hr] at hok
  simp only [validateReplayed] at hok
  split at hok
  · simp at hok
  split at hok
  · simp at hok
  have hview : r.committedView = s.committedView := by
    rw [hrb]
    exact hj.committedView.symm
  split at hok
  · simp at hok
  · exact (Except.ok.inj hok).symm
  · rename_i hrv hsv
    rw [hrv, hsv] at hview
    simp at hview
  · split at hok
    · simp at hok
    · exact (Except.ok.inj hok).symm

end

end Replays

namespace Follows

variable {V : List GoString} {epoch : ℕ} {ℓ : List RaftEntry} {c : Cell RaftEntry}
  {s s' : RaftPersistentState}

lemma congr (h : Follows V epoch ℓ s) (happlied : s'.applied = s.applied)
    (hindex : s'.snapshotIndex = s.snapshotIndex) (hepoch : s'.snapshotEpoch = s.snapshotEpoch)
    (hview : s'.snapshotView = s.snapshotView) : Follows V epoch ℓ s' := by
  have hcommit : s'.commitIndex = s.commitIndex := congrArg Applied.commitIndex happlied
  exact ⟨h.replays.congr happlied hindex hepoch hview, hcommit ▸ h.lags⟩

lemma withTerm (h : Follows V epoch ℓ s) (t : ℕ) : Follows V epoch ℓ (s.withTerm t) := by
  rw [withTerm_eq]
  exact h.congr rfl rfl rfl rfl

lemma applyThrough (h : Follows V epoch c.log s) (hs : Holds c s) (hlog : Orderly V c.log)
    (htgt : target ≤ c.log.length) (happly : s.applyThroughLocked target = .ok s') :
    Follows V epoch c.log s' := by
  refine ⟨h.replays.applyThrough hs hlog htgt happly, fun he hf => ?_⟩
  obtain ⟨b, -, rfl⟩ := applyThroughLocked_ok happly
  exact (h.lags he hf).trans (Nat.le_max_left _ _)

lemma quorum (h : Follows V epoch ℓ s) (hlog : Orderly V ℓ) (hvalid : ∀ e ∈ ℓ, ValidEntry e)
    {acks : List GoString} (hq : s.hasVoterQuorum acks) :
    (memberRules V).quorum ℓ {v | v ∈ acks} := by
  obtain ⟨b, hb, hj⟩ := h.replays.applied
  exact ⟨acks, voterMajority_configuration hlog hvalid h.lags hb hj hq, fun v _ hv => hv⟩

end Follows

/-! ### The invariant -/

/-- Logs, states and messages fit together. -/
structure MemberCore (V : List GoString) (epoch : ℕ) (g : Group) (a : Sys GoString RaftEntry) :
    Prop where
  orderly : ∀ t, Orderly V (a.full t)
  memory : ∀ n, Follows V epoch (a.memory n).log (g.store n).state
  file : ∀ n, Follows V epoch (a.file n).log (g.store n).file
  candidacies : ∀ c ∈ g.candidacies, ∃ L, a.cand c.request.term c.request.candidateID = some L ∧
    Follows V epoch L c.state
  appends : ∀ m ∈ g.appends, ∃ ℓ, AppendOK a m ℓ ∧ Follows V epoch ℓ m.sender
  acks : AcksOK g a

/-- What a call of `ChangeVoters` has achieved at a node with state `s` and log `ℓ`. -/
def StageOK (V : List GoString) (a : Sys GoString RaftEntry) (s : RaftPersistentState)
    (ℓ : List RaftEntry) (c : Change) : Prop :=
  match c.stage with
  | .started => s.voters = c.oldVoters ∧ s.jointOldVoters = [] ∧ s.appliedEpoch = c.epoch
  | .begun index => index = ℓ.length ∧ ℓ.getLast? = some ⟨c.term, c.begin⟩ ∧ s.commitIndex < index
  | .joint => ℓ.getLast? = some ⟨c.term, c.begin⟩ ∧ s.commitIndex = ℓ.length ∧
      a.Committed (memberRules V) c.term ℓ.length
  | .finalized _ => True

/-- A call of `ChangeVoters` belongs to a leader, and as long as the leader's term lasts
nothing but the call moves its log and what it has applied. -/
structure SessionOK (V : List GoString) (g : Group) (a : Sys GoString RaftEntry) (n : GoString)
    (c : Change) : Prop where
  winner : (n, c.term) ∈ g.winners
  stage : (g.state n).currentTerm = c.term → StageOK V a (g.state n) (a.memory n).log c

/-- Every change fits the protocol. -/
def Sessions (V : List GoString) (g : Group) (a : Sys GoString RaftEntry) : Prop :=
  ∀ n c, g.changes n = some c → SessionOK V g a n c

variable {ℓ : List RaftEntry} {c : Change} {n m leader : GoString} {r : RaftStore} {t : ℕ}
  {d : Cell RaftEntry}

section

variable {V : List GoString} {epoch : ℕ} {g g' : Group} {a a' : Sys GoString RaftEntry}

lemma Orderly.of_traced (h : ∀ t, Orderly V (a.full t))
    (hℓ : a.Traced (memberRules V) ℓ) : Orderly V ℓ := by
  rcases eq_nil_or_concat' ℓ with rfl | ⟨m, e, rfl⟩
  · exact .nil
  · have := hℓ m.length e (by simp)
    rw [take_of_length_le (by simp)] at this
    exact (h _).of_isPrefix this

lemma MemberCore.orderly_memory (h : MemberCore V epoch g a) (hsim : Sim (memberRules V) g a)
    (n : GoString) : Orderly V (a.memory n).log :=
  Orderly.of_traced h.orderly (hsim.inv.memory n).traced

lemma Sim.valid_of_traced {P : Rules GoString RaftEntry} (h : Sim P g a)
    (hℓ : a.Traced P ℓ) : ∀ e ∈ ℓ, ValidEntry e := by
  intro e he
  obtain ⟨i, hi⟩ := mem_iff_getElem?.1 he
  refine h.valid _ e ((hℓ i e hi).subset ?_)
  rw [take_succ_eq hi]
  simp

lemma StageOK.mono {s : RaftPersistentState}
    (h : StageOK V a s ℓ c) (hext : a.Extends a') : StageOK V a' s ℓ c := by
  rw [StageOK] at h ⊢
  split <;> rename_i hstage <;> simp only [hstage] at h
  · exact h
  · exact h
  · exact ⟨h.1, h.2.1, h.2.2.mono hext⟩
  · trivial

lemma SessionOK.congr (h : SessionOK V g a n c) (hext : a.Extends a')
    (hwin : g.winners ⊆ g'.winners)
    (hsame : (g'.state n).currentTerm = c.term → (g.state n).currentTerm = c.term ∧
      (g'.state n).applied = (g.state n).applied ∧ (a'.memory n).log = (a.memory n).log) :
    SessionOK V g' a' n c := by
  refine ⟨hwin h.winner, fun hterm => ?_⟩
  obtain ⟨hterm', happlied, hlog⟩ := hsame hterm
  have hstage := (h.stage hterm').mono hext
  have hcommit : (g'.state n).commitIndex = (g.state n).commitIndex :=
    congrArg Applied.commitIndex happlied
  have hvoters : (g'.state n).voters = (g.state n).voters := congrArg Applied.voters happlied
  have hjoint : (g'.state n).jointOldVoters = (g.state n).jointOldVoters :=
    congrArg jointOld happlied
  have hepoch : (g'.state n).appliedEpoch = (g.state n).appliedEpoch :=
    congrArg Applied.appliedEpoch happlied
  rw [StageOK] at hstage ⊢
  rw [hlog, hcommit, hvoters, hjoint, hepoch]
  exact hstage

lemma SessionOK.term_le (h : SessionOK V g a n c)
    (hsim : Sim (memberRules V) g a) : c.term ≤ (g.state n).currentTerm := by
  obtain ⟨r, hr, hown⟩ := hsim.winners _ h.winner
  have := (hsim.inv.memory n).cand_term (hown ▸ hsim.inv.history.reign_cand hr)
  rwa [← (hsim.memory n).term] at this

/-! ### Elections -/

lemma Sim.log_eq {P : Rules GoString RaftEntry} (h : Sim P g a) {c c' : Cell RaftEntry}
    {s s' : RaftPersistentState} (hc : a.Traced P c.log) (hc' : a.Traced P c'.log) (hs : Holds c s)
    (hs' : Holds c' s') (hindex : s'.snapshotIndex = s.snapshotIndex)
    (hterm : s'.snapshotTerm = s.snapshotTerm) (hents : s'.entries = s.entries) :
    c'.log = c.log := by
  have hpre := h.log_prefix hc hc' hs hs' hindex hterm (hents ▸ prefix_rfl)
  have hlen := hs.length_entries
  have hlen' := hs'.length_entries
  rw [hindex, hents, hlen] at hlen'
  exact (hpre.eq_of_length hlen').symm

/-- The parts of a message's sender that matter do not depend on the rest of the history. -/
lemma MemberCore.sent_mono (h : MemberCore V epoch g a) (hext : a.Extends a') :
    (∀ c ∈ g.candidacies, ∃ L, a'.cand c.request.term c.request.candidateID = some L ∧
      Follows V epoch L c.state) ∧
    (∀ m ∈ g.appends, ∃ ℓ, AppendOK a' m ℓ ∧ Follows V epoch ℓ m.sender) := by
  refine ⟨fun c hc => ?_, fun m hm => ?_⟩
  · obtain ⟨L, hL, hrep⟩ := h.candidacies c hc
    exact ⟨L, hext.cand hL, hrep⟩
  · obtain ⟨ℓ, hℓ, hrep⟩ := h.appends m hm
    exact ⟨ℓ, hℓ.mono hext, hrep⟩

lemma MemberCore.canvasses (h : MemberCore V epoch g a) (hsim : Sim (memberRules V) g a)
    (hext : a.Extends a') (hsim' : Sim (memberRules V) g' a') (helects : Elects a a')
    (hc : g.Canvasses g') :
    MemberCore V epoch g' a' ∧ ∀ n, (a'.memory n).log = (a.memory n).log := by
  have hsame := hc.store
  have hlog : ∀ n, (a'.memory n).log = (a.memory n).log := fun n =>
    hsim'.log_eq ((hsim.inv.memory n).traced.mono hext) (hsim'.inv.memory n).traced (hsim.memory n)
      (hsim'.memory n) (hsame n).1.snapshotIndex (hsame n).1.snapshotTerm (hsame n).1.entries
  have hmemory : ∀ n, Follows V epoch (a'.memory n).log (g'.store n).state := fun n =>
    hlog n ▸ (h.memory n).congr (hsame n).1.applied (hsame n).1.snapshotIndex
      (hsame n).1.snapshotEpoch (hsame n).1.snapshotView
  obtain ⟨hcands, happs⟩ := h.sent_mono hext
  refine ⟨⟨fun t => ?_, hmemory, fun n => ?_, fun c hmem => ?_, hc.appends ▸ happs, ?_⟩, hlog⟩
  · rcases helects t with ht | ⟨n, ht⟩
    · rw [ht]
      exact h.orderly t
    · exact .of_traced h.orderly (hsim.inv.history.cand_traced ht)
  · rcases (hsame n).2 with hfile | hfile
    · have hlogf : (a'.file n).log = (a.file n).log :=
        hsim'.log_eq ((hsim.inv.file n).traced.mono hext) (hsim'.inv.file n).traced (hsim.file n)
          (hsim'.file n) (by rw [hfile]) (by rw [hfile]) (by rw [hfile])
      rw [hlogf, hfile]
      exact h.file n
    · have hlogf : (a'.file n).log = (a'.memory n).log :=
        hsim'.log_eq (hsim'.inv.memory n).traced (hsim'.inv.file n).traced (hsim'.memory n)
          (hsim'.file n) (by rw [hfile]) (by rw [hfile]) (by rw [hfile])
      rw [hlogf, hfile]
      exact hmemory n
  · rcases hc.candidacies c hmem with hold | ⟨n, hstate⟩
    · exact hcands c hold
    · obtain ⟨L, hL, hholds, -⟩ := hsim'.candidacies c hmem
      have heq : L = (a'.memory n).log := @Sim.log_eq _ _ _ hsim' _ ⟨c.request.term, L⟩ _ _
        (hsim'.inv.memory n).traced (hsim'.inv.history.cand_traced hL) (hsim'.memory n) hholds
        (by rw [hstate]; rfl) (by rw [hstate]; rfl) (by rw [hstate]; rfl)
      refine ⟨L, hL, ?_⟩
      rw [heq, hstate]
      exact hmemory n
  · have := h.acks.mono hext
    rw [AcksOK, hc.acks]
    exact this

lemma Sessions.canvasses (h : Sessions V g a) (hsim : Sim (memberRules V) g a) (hext : a.Extends a')
    (hlog : ∀ n, (a'.memory n).log = (a.memory n).log) (hc : g.Canvasses g') : Sessions V g' a' := by
  intro n c hchange
  have hsession := h n c (hc.changes ▸ hchange)
  refine hsession.congr hext hc.winners fun hterm => ⟨?_, (hc.store n).1.applied, hlog n⟩
  have hle := hsession.term_le hsim
  have hle' : (g.state n).currentTerm ≤ (g'.state n).currentTerm := (hc.store n).1.term
  omega

/-! ### Replication -/

section

variable (h : MemberCore V epoch g a)

include h

lemma MemberCore.congr (hstore : g'.store = g.store := by rfl)
    (hcand : g'.candidacies = g.candidacies := by rfl) (happ : g'.appends = g.appends := by rfl)
    (hacks : g'.acks = g.acks := by rfl) : MemberCore V epoch g' a :=
  ⟨h.orderly, hstore ▸ h.memory, hstore ▸ h.file, hcand ▸ h.candidacies, happ ▸ h.appends,
    by rw [AcksOK, hacks]; exact h.acks⟩

lemma MemberCore.acknowledged {m : ℕ} (hext : a.Extends (a.acknowledge n t m)) :
    MemberCore V epoch g (a.acknowledge n t m) :=
  { h with
    candidacies := (h.sent_mono hext).1
    appends := (h.sent_mono hext).2
    acks := h.acks.mono hext }

lemma MemberCore.setCells {c : Cell RaftEntry} (hext : a.Extends (a.setCells n c d))
    (hc : Follows V epoch c.log r.state) (hd : Follows V epoch d.log r.file) :
    MemberCore V epoch (g.setStore n r) (a.setCells n c d) := by
  obtain ⟨hcands, happs⟩ := h.sent_mono hext
  refine ⟨h.orderly, fun m => ?_, fun m => ?_, hcands, happs, h.acks.mono hext⟩
  · by_cases hm : m = n
    · subst hm
      simpa [setStore, Sys.setCells] using hc
    · simpa [setStore, Sys.setCells, hm] using h.memory m
  · by_cases hm : m = n
    · subst hm
      simpa [setStore, Sys.setCells] using hd
    · simpa [setStore, Sys.setCells, hm] using h.file m

lemma MemberCore.setCells_follows {c : Cell RaftEntry} (hext : a.Extends (a.setCells n c d))
    (hfollow : Sim.FileFollows a (a.setCells n c d) n (g.store n) r)
    (hc : Follows V epoch c.log r.state) :
    MemberCore V epoch (g.setStore n r) (a.setCells n c d) := by
  refine h.setCells hext hc ?_
  rcases hfollow with ⟨hcell, hfile⟩ | ⟨hcell, hfile⟩
  · rw [Sys.setCells_file_self] at hcell
    rw [hcell, hfile]
    exact h.file n
  · rw [Sys.setCells_file_self, Sys.setCells_memory_self] at hcell
    rw [hcell, hfile]
    exact hc

lemma MemberCore.acknowledge {m : ℕ} (hext : a.Extends (a.acknowledge n t m)) :
    MemberCore V epoch { g with acks := g.acks ++ [⟨n, leader, t, m⟩] } (a.acknowledge n t m) := by
  have h' := h.acknowledged hext
  exact { h' with
    acks := forall_mem_concat h'.acks ⟨⟨n, t, m⟩, Set.mem_insert _ _, rfl, rfl, le_rfl⟩ }

/-- After an append request the receiver has applied what its log says.  That the leader's
commit index cannot be applied to a changed log does not happen: the leader has applied
the same entries. -/
lemma MemberCore.appended (hsim : Sim (memberRules V) g a) {n : GoString} {m : AppendMessage}
    {ℓ : List RaftEntry} (hℓ : AppendOK a m ℓ) (hsender : Follows V epoch ℓ m.sender)
    {s' : RaftPersistentState} {x : Except RaftError AppendEntriesResponse}
    (hout : Sim.Appended a a' n m ℓ (g.state n) s' x) (hholds : Holds (a'.memory n) s')
    (hord : Orderly V (a'.memory n).log) : Follows V epoch (a'.memory n).log s' := by
  have hmem : Holds (a.memory n) (g.state n) := hsim.memory n
  have hfol : Follows V epoch (a.memory n).log (g.state n) := h.memory n
  have hwith := hfol.withTerm m.request.term
  have hsame := StoreSameLog.withTerm (g.state n) m.request.term
  -- a log that keeps the committed part keeps what is applied
  have hreplays : ∀ {s₁ : RaftPersistentState},
      s₁ = { (g.state n).withTerm m.request.term with entries := s₁.entries } →
      (a.memory n).log.take (g.state n).commitIndex <+: (a'.memory n).log →
      Replays V epoch (a'.memory n).log s₁ := by
    intro s₁ hs₁ hkeep
    have hcommit : s₁.commitIndex = (g.state n).commitIndex := by
      rw [hs₁]
      exact hsame.keeps.commitIndex
    have hrep : Replays V epoch (a.memory n).log s₁ := by
      rw [hs₁]
      exact hwith.replays.congr rfl rfl rfl rfl
    refine hrep.of_take ?_ ?_
    · rw [hcommit, hs₁]
      change ((g.state n).withTerm m.request.term).snapshotIndex ≤ _
      rw [hsame.snapshotIndex]
      exact hmem.snapshot_commit
    · rw [hcommit]
      have hlen : ((a.memory n).log.take (g.state n).commitIndex).length =
          (g.state n).commitIndex := by
        rw [length_take]
        exact Nat.min_eq_left hmem.commit_le
      rw [prefix_iff_eq_take, hlen] at hkeep
      exact hkeep.symm
  cases hout with
  | kept _ hlog hstate =>
    rw [hlog]
    rcases hstate with rfl | rfl
    · exact hfol
    · exact hwith
  | stuck hle hlog hkeep hlt hstate herr =>
    by_cases hpre : ℓ.take (m.request.prevLogIndex + m.request.entries.length) <+: (a.memory n).log
    · rw [hlog, Sys.conform, if_pos hpre, hstate]
      exact hwith.congr rfl rfl rfl rfl
    · exfalso
      rw [Sys.conform, if_neg hpre] at hlog
      obtain ⟨b, hb, -⟩ := hsender.replays.applied
      rw [← hℓ.commit] at hb
      have htgt : (a'.memory n).log.take (min m.request.leaderCommit s'.lastLogLocked.1) <+:
          ℓ.take m.request.leaderCommit := by
        rw [hlog, take_take]
        exact take_prefix_take_left (by omega)
      obtain ⟨b', hb'⟩ := applyAll_of_prefix hb htgt
      obtain ⟨s₂, hs₂⟩ := (hreplays hstate hkeep).applyThrough_of hholds
        (by rw [hholds.lastIndex]; exact Nat.min_le_right _ _) hb'
      simp [herr] at hs₂
  | @success s₁ hle hprev hlog hkeep hstate hholds₁ hcommit =>
    have hrep₁ := hreplays hstate hkeep
    have hci : s₁.commitIndex = (g.state n).commitIndex := by
      rw [hstate]
      exact hsame.keeps.commitIndex
    have hrep : Replays V epoch (a'.memory n).log s' := by
      rcases hcommit with ⟨-, rfl⟩ | ⟨-, happly⟩
      · exact hrep₁
      · exact hrep₁.applyThrough hholds₁ hord
          (by rw [hholds₁.lastIndex]; exact Nat.min_le_right _ _) happly
    have hmono : s₁.commitIndex ≤ s'.commitIndex ∧
        (m.request.leaderCommit ≤ s'.commitIndex ∨ (a'.memory n).log.length ≤ s'.commitIndex) := by
      rcases hcommit with ⟨hle, rfl⟩ | ⟨-, happly⟩
      · exact ⟨le_rfl, .inl hle⟩
      · obtain ⟨b, -, rfl⟩ := applyThroughLocked_ok happly
        rw [hholds₁.lastIndex]
        change _ ≤ max _ _ ∧ (_ ≤ max _ _ ∨ _ ≤ max _ _)
        omega
    refine ⟨hrep, fun {p e} he hf => ?_⟩
    by_cases hpre : ℓ.take (m.request.prevLogIndex + m.request.entries.length) <+: (a.memory n).log
    · rw [hlog, Sys.conform, if_pos hpre] at he
      have := hfol.lags he hf
      omega
    · -- the log is the leader's, whose commit index does not stay behind either
      have hlt := lt_length_of_getElem? he
      have hp : ℓ[p]? = some e := by
        rw [hlog, Sys.conform, if_neg hpre] at he
        exact getElem?_of_isPrefix (List.take_prefix _ _) he
      have := hsender.lags hp hf
      rw [← hℓ.commit] at this
      omega

end

lemma Sessions.update (h : Sessions V g a) (n : GoString) (hext : a.Extends a')
    (hwin : g'.winners = g.winners) (hchanges : ∀ m, m ≠ n → g'.changes m = g.changes m)
    (hstate : ∀ m, m ≠ n → g'.state m = g.state m) (hmem : ∀ m, m ≠ n → a'.memory m = a.memory m)
    (hn : ∀ c, g'.changes n = some c → SessionOK V g' a' n c) : Sessions V g' a' := by
  intro m c hc
  by_cases hm : m = n
  · subst hm
    exact hn c hc
  · rw [hchanges m hm] at hc
    refine (h m c hc).congr hext (hwin ▸ List.Subset.refl _) fun hterm => ?_
    rw [hstate m hm] at hterm ⊢
    rw [hmem m hm]
    exact ⟨hterm, rfl, rfl⟩

lemma Sessions.mono (h : Sessions V g a) (hext : a.Extends a') (hmem : a'.memory = a.memory)
    (hstore : g'.store = g.store) (hwin : g'.winners = g.winners)
    (hchanges : g'.changes = g.changes) : Sessions V g' a' := by
  intro n c hc
  have hstate : g'.state n = g.state n := by rw [Group.state, Group.state, hstore]
  refine (h n c (hchanges ▸ hc)).congr hext (hwin ▸ List.Subset.refl _) fun hterm => ?_
  rw [hstate] at hterm ⊢
  rw [hmem]
  exact ⟨hterm, rfl, rfl⟩

section

variable (h : SessionOK V g a n c) (hsim : Sim (memberRules V) g a) (hℓ : LeaderLog a leader t ℓ)
  (hne : leader ≠ n)

include h hsim hℓ hne

lemma SessionOK.term_ne : c.term ≠ t := by
  rintro rfl
  obtain ⟨r, hr, hown⟩ := hsim.winners _ h.winner
  obtain ⟨⟨r', hr', hown'⟩, -⟩ := hℓ
  rw [hr, Option.some.injEq] at hr'
  subst hr'
  exact hne (hown'.symm.trans hown)

/-- A call of `ChangeVoters` is not disturbed by a message of another leader: it changes
the term, or nothing that matters to the call. -/
lemma SessionOK.of_message (hext : a.Extends a') (hwin : g'.winners = g.winners)
    (hout : (g'.state n).currentTerm = t ∨
      (g'.state n = g.state n ∨ g'.state n = (g.state n).withTerm t) ∧
        (a'.memory n).log = (a.memory n).log) : SessionOK V g' a' n c := by
  refine h.congr hext (hwin ▸ List.Subset.refl _) fun hterm => ?_
  have hterm_ne := h.term_ne hsim hℓ hne
  rcases hout with hout | ⟨hstate, hlog⟩
  · exact absurd (hterm.symm.trans hout) hterm_ne
  · have hsame : g'.state n = g.state n := by
      rcases hstate with hstate | hstate
      · exact hstate
      · rw [hstate]
        refine withTerm_of_le ?_
        by_contra hlt
        rw [hstate, withTerm_currentTerm (by omega)] at hterm
        exact hterm_ne hterm.symm
    rw [hsame] at hterm ⊢
    exact ⟨hterm, rfl, hlog⟩

end

lemma setStore_state_of_ne (hm : m ≠ n) (r : RaftStore) : (g.setStore n r).state m = g.state m := by
  simp [Group.state, setStore, hm]

lemma setStore_state_self (g : Group) (n : GoString) (r : RaftStore) :
    (g.setStore n r).state n = r.state := by
  simp [Group.state, setStore]

lemma setCells_memory_of_ne (hm : m ≠ n) (c d : Cell RaftEntry) :
    (a.setCells n c d).memory m = a.memory m := by
  simp [Sys.setCells, hm]

lemma MemberCore.sendAppend (h : MemberCore V epoch g a) (hsim : Sim (memberRules V) g a)
    {next limit : ℕ} (hstep : g.sendAppend n next limit = some g') :
    Sim (memberRules V) g' a ∧ MemberCore V epoch g' a ∧ g'.store = g.store ∧
      g'.winners = g.winners ∧ g'.changes = g.changes := by
  obtain ⟨m, ℓ, hm, hsender, rfl, -, -, rfl⟩ := hsim.sendAppend hstep
  refine ⟨hsim.addAppend hm, { h with appends := forall_mem_concat h.appends ⟨_, hm, ?_⟩ }, rfl, rfl,
    rfl⟩
  rw [hsender]
  exact h.memory n

lemma MemberCore.commit (h : MemberCore V epoch g a) (hsim : Sim (memberRules V) g a) {index : ℕ}
    {nodes : List GoString} {call : Except RaftError Unit × RaftStore}
    (hcall : (g.store n).commitWithVoterAcks index t nodes true = call) :
    ∃ a', Sim (memberRules V) (g.advance n call.2) a' ∧ MemberCore V epoch (g.advance n call.2) a' ∧
      a.Extends a' ∧ a'.memory = a.memory ∧ a'.full = a.full ∧
      (call.1 = .ok () → (g.state n).hasVoterQuorum nodes ∧ t = (g.state n).currentTerm ∧
        0 < index ∧ index ≤ (a.memory n).log.length ∧
        termAt RaftEntry.term (a.memory n).log index = t ∧ call.2.state.currentTerm = t ∧
        call.2.state.commitIndex = max (g.state n).commitIndex index) := by
  have hmem : Holds (a.memory n) (g.state n) := hsim.memory n
  rcases hsim.commitStore hcall with ⟨hsame, err, herr⟩ |
    ⟨hok, hquor, hterm, hlen, hpos, htermAt, s, hs, hr, hrun, hsim'⟩
  · have hstore : (g.advance n call.2).store = g.store := by
      rw [hsame]
      change (g.setStore n (g.store n)).store = g.store
      rw [Sim.setStore_self]
    exact ⟨a, hsim.congr hstore, h.congr hstore rfl rfl rfl, Sys.Extends.refl a,
      rfl, rfl, fun hok => by simp [herr] at hok⟩
  · have hfol : Follows V epoch (a.memory n).log s :=
      (h.memory n).applyThrough (hsim.memory n) (h.orderly_memory hsim n) hlen hs
    have hext := (hsim.inv.run hrun).2
    have hcore := h.setCells (r := ⟨n, s, s⟩) hext hfol hfol
    have hmemory : (a.setCells n (a.memory n) (a.memory n)).memory = a.memory := by
      simp [Sys.setCells]
    obtain ⟨b, -, hseq⟩ := applyThroughLocked_ok hs
    rw [hr]
    refine ⟨_, hsim'.congr, hcore.congr, hext, hmemory, rfl,
      fun _ => ⟨hquor, hterm, hpos, hlen, htermAt, ?_, ?_⟩⟩
    · rw [hseq]
      exact hterm.symm
    · rw [hseq]

/-- The leader appends the command. -/
inductive Event.Appends (g : Group) : Event → GoString → ℕ → MetadataCommand → Prop
  | appendCommand {n : GoString} {command : MetadataCommand} :
      Appends g (.appendCommand n command) n (g.state n).currentTerm command
  | propose {n : GoString} {command : MetadataCommand}
      (hepoch : command.epoch = addOne (g.state n).appliedEpoch) :
      Appends g (.propose n command) n (g.state n).currentTerm command
  | beginJoint {n : GoString} {c : Change} (hchange : g.changes n = some c)
      (hstage : c.stage = .started) : Appends g (.beginJoint n) n c.term c.begin
  | finalizeJoint {n : GoString} {c : Change} (hchange : g.changes n = some c)
      (hstage : c.stage = .joint) : Appends g (.finalizeJoint n) n c.term c.finalize

/-- How an event changes the log of a leader: it appends one entry.  A new leader starts
with the log it stood for election with. -/
def Grows (g : Group) (event : Event) (a a' : Sys GoString RaftEntry) : Prop :=
  ∀ t, a'.full t = a.full t ∨ (∃ n, a.cand t n = some (a'.full t)) ∨
    ∃ n command, event.Appends g n t command ∧ t = (g.state n).currentTerm ∧
      ValidEntry ⟨t, command⟩ ∧ (a.memory n).log = a.full t ∧
      ¬ ((g.state n).commitIndex < (a.full t).length ∧
        (a.full t).getLast? = some ⟨t, command⟩) ∧
      a'.full t = a.full t ++ [⟨t, command⟩]

lemma Grows.of_eq (h : a'.full = a.full) : Grows g event a a' := fun _ =>
  .inl (by rw [h])

/-- The step keeps the membership. -/
def Member (V : List GoString) (epoch : ℕ) (g : Group) (event : Event) (a : Sys GoString RaftEntry)
    (g' : Group) : Prop :=
  ∃ a', Sim (memberRules V) g' a' ∧ MemberCore V epoch g' a' ∧ Sessions V g' a' ∧
    Grows g event a a'

section

variable (h : MemberCore V epoch g a) (hsess : Sessions V g a) (hsim : Sim (memberRules V) g a)

include h hsess hsim

lemma MemberCore.appendEntries {message : ℕ} (hstep : g.appendEntries n message = some g') :
    Member V epoch g (.appendEntries n message) a g' := by
  rw [Group.appendEntries] at hstep
  split at hstep
  · simp at hstep
  rename_i m hm
  split at hstep
  · simp at hstep
  rename_i hne
  rw [Option.some.injEq] at hstep
  obtain ⟨ℓ, hℓ, hsender⟩ := h.appends m (List.mem_of_getElem? hm)
  generalize hcall : (g.store n).appendEntries m.request true = call at hstep
  obtain ⟨c, d, ⟨hrun, hsim', hfollow⟩, hout⟩ := hsim.appendEntriesStore hℓ hcall
  generalize hx : call.1 = x at hout hstep
  have hext := (hsim.inv.run hrun).2
  have hholds : Holds ((a.setCells n c d).memory n) call.2.state := by
    have := hsim'.memory n
    rwa [setStore_store_self] at this
  have hord : Orderly V ((a.setCells n c d).memory n).log :=
    Orderly.of_traced h.orderly (hsim'.inv.memory n).traced
  have hnode := h.appended hsim hℓ hsender hout hholds hord
  rw [Sys.setCells_memory_self] at hnode
  have hcore : MemberCore V epoch (g.setStore n call.2) (a.setCells n c d) :=
    h.setCells_follows hext hfollow hnode
  -- the term is the leader's, or the log stays as it is
  have hterm : call.2.state.currentTerm = m.request.term ∨
      (call.2.state = g.state n ∨ call.2.state = (g.state n).withTerm m.request.term) ∧
        ((a.setCells n c d).memory n).log = (a.memory n).log := by
    cases hout with
    | kept _ hlog hstate => exact .inr ⟨hstate, hlog⟩
    | stuck _ hlog => exact .inl (by rw [hholds.term, hlog])
    | success _ _ hlog => exact .inl (by rw [hholds.term, hlog])
  have hsess' : Sessions V (g.setStore n call.2) (a.setCells n c d) := by
    refine hsess.update n hext rfl (fun _ _ => rfl) (fun m hm => setStore_state_of_ne hm _)
      (fun m hm => setCells_memory_of_ne hm _ _) fun ch hch => ?_
    refine (hsess n ch hch).of_message hsim hℓ.leader hne hext rfl ?_
    rw [setStore_state_self]
    exact hterm
  have hquiet : (∀ y, x = .ok y → y.success = false) →
      Member V epoch g (.appendEntries n message) a g' := by
    intro hx
    rw [accepted_eq_nil hx, append_nil] at hstep
    subst hstep
    exact ⟨_, hsim'.congr, hcore.congr,
      hsess'.mono (Sys.Extends.refl _) rfl rfl rfl rfl, .of_eq rfl⟩
  cases hout with
  | kept hx => exact hquiet hx
  | stuck => exact hquiet (by simp)
  | success hle _ hlog _ _ _ _ hfile =>
    rw [Sys.setCells_memory_self, Sys.setCells_file_self] at hfile
    subst hfile
    rw [Sys.setCells_memory_self] at hlog
    have hlen := hℓ.length_le
    have hack : Sys.Step (memberRules V) _ _ := step_acknowledge (n := n) (c := d)
      (k := m.request.prevLogIndex + m.request.entries.length) (Sim.leader_ne hℓ.leader)
      (by rw [hlog]) (hlen.trans hℓ.leader.2.length_le) (by
        rw [← take_eq_take_of_isPrefix hℓ.leader.2 hlen, hlog]
        exact prefix_conform _ _)
    have hext' := hsim'.inv.extends_step hack
    subst hstep
    exact ⟨_, (hsim'.acknowledge hack).congr,
      (hcore.acknowledge hext').congr, hsess'.mono hext' rfl rfl rfl rfl, .of_eq rfl⟩

/-! ### Commits, compaction and restarts -/

lemma MemberCore.compact (hstep : g.compact n = some g') :
    Member V epoch g (.compact n) a g' := by
  rw [Group.compact, Option.some.injEq] at hstep
  subst hstep
  rcases hsim.compactStore n with hsame | ⟨hjoint, term, -, s, hs, hcall, hrun, hsim'⟩
  · rw [hsame, Sim.setStore_self]
    exact ⟨a, hsim, h, hsess, .of_eq rfl⟩
  · rw [hcall]
    have hfol : Follows V epoch (a.memory n).log s := by
      obtain ⟨b, hb, hj⟩ := (h.memory n).replays.applied
      rw [hs]
      exact ⟨⟨⟨b, hb, hj⟩, b, hb, hj.appliedEpoch.symm, hj.committedView.symm,
        hj.jointOld.symm.trans hjoint⟩, (h.memory n).lags⟩
    have hext := (hsim.inv.run hrun).2
    refine ⟨_, hsim', h.setCells (r := ⟨n, s, s⟩) hext hfol hfol, ?_, .of_eq rfl⟩
    refine hsess.update n hext rfl (fun _ _ => rfl) (fun m hm => setStore_state_of_ne hm _)
      (fun m hm => setCells_memory_of_ne hm _ _) fun c hc => ?_
    refine (hsess n c hc).congr hext (List.Subset.refl _) fun hterm => ?_
    rw [setStore_state_self, hs] at hterm ⊢
    exact ⟨hterm, rfl, by rw [Sys.setCells_memory_self]⟩

lemma MemberCore.restart (hstep : g.restart epoch n = some g') :
    Member V epoch g (.restart n) a g' := by
  obtain ⟨-, -, s, -, hepoch, hok, rfl, hrun, hsim'⟩ := hsim.restart hstep
  obtain rfl := (h.file n).replays.validateLocked_eq (hsim.file n)
    (hsim.valid_of_traced (hsim.inv.file n).traced) hepoch hok
  have hext := (hsim.inv.run hrun).2
  have hcore := h.setCells (r := ⟨n, (g.store n).file, (g.store n).file⟩) hext (h.file n) (h.file n)
  refine ⟨_, hsim', hcore.congr, ?_, .of_eq rfl⟩
  refine hsess.update n hext rfl (fun m hm => ?_) (fun m hm => setStore_state_of_ne hm _)
    (fun m hm => setCells_memory_of_ne hm _ _) fun c hc => ?_
  · simp [setChange, setStore, hm]
  · simp [setChange] at hc

end

/-! ### Appending entries -/

/-- The quorums before and after a finalize entry meet: the voters differ in one node. -/
lemma adjacent_of_finalizes {e : RaftEntry} (hvalid : ValidEntry e) (hf : e.finalizes)
    (hold : e.command.oldVoters = configuration V ℓ) : (memberRules V).Adjacent ℓ e := by
  obtain ⟨hcanon, hcanon', hdiff⟩ := hvalid.transition (.inr hf)
  rintro S T ⟨acks, hS, hSv⟩ ⟨acks', hT, hTv⟩
  rw [← hold] at hS hSv
  rw [configuration_append_singleton, if_pos hf] at hT hTv
  obtain ⟨v, ⟨hv, hv'⟩, ha, ha'⟩ :=
    voterMajority_meet_of_difference hcanon.nodup hcanon'.nodup hdiff hS hT
  exact ⟨v, hSv v hv ha, hTv v hv' ha'⟩

/-- What has to hold when the leader with state `s` and log `ℓ` appends a membership
entry. -/
structure NewEntryOK (V : List GoString) (a : Sys GoString RaftEntry) (s : RaftPersistentState)
    (ℓ : List RaftEntry) (e : RaftEntry) : Prop where
  begins : e.begins → e.command.oldVoters = configuration V ℓ
  finalizes : e.finalizes → s.commitIndex = ℓ.length ∧
    a.Committed (memberRules V) e.term ℓ.length ∧ ∃ b, ℓ.getLast? = some b ∧ b.begins ∧
      b.command.oldVoters = e.command.oldVoters ∧ b.command.newVoters = e.command.newVoters

lemma Orderly.getLast_begins (h : Orderly V ℓ) {b : RaftEntry} (hb : ℓ.getLast? = some b)
    (hbegins : b.begins) : b.command.oldVoters = configuration V ℓ := by
  rw [List.getLast?_eq_some_iff] at hb
  obtain ⟨m, rfl⟩ := hb
  have := h.begins (p := m.length) (e := b) (by simp) hbegins
  rw [take_left] at this
  rw [this, configuration_append_singleton,
    if_neg (RaftEntry.not_finalizes_of_begins hbegins)]

lemma MemberCore.append (h : MemberCore V epoch g a) (hsim : Sim (memberRules V) g a)
    {command : MetadataCommand} (hwin : (n, t) ∈ g.winners)
    (hnew : t = (g.state n).currentTerm → ValidEntry ⟨t, command⟩ →
      NewEntryOK V a (g.state n) (a.memory n).log ⟨t, command⟩)
    {call : Except RaftError ℕ × RaftStore}
    (hcall : (g.store n).appendCommand t command true = call) :
    ∃ a', Sim (memberRules V) (g.setStore n call.2) a' ∧
      MemberCore V epoch (g.setStore n call.2) a' ∧ a.Extends a' ∧
      Sim.AppendOutcome g a n t command a' call := by
  obtain ⟨a', hrun, hsim', hout⟩ := hsim.appendStore hwin (by
    intro hterm hvalid hf
    obtain ⟨r, hr, hown, hcell⟩ := hsim.leader_memory hwin hterm.symm
    obtain ⟨-, hcmtd, b, hb, hbegins, hold, -⟩ := (hnew hterm hvalid).finalizes hf
    rw [show a.full t = (a.memory n).log by rw [hcell]; exact Sys.full_of_reign hr]
    refine ⟨hcmtd, adjacent_of_finalizes hvalid hf ?_⟩
    rw [← hold]
    exact (h.orderly_memory hsim n).getLast_begins hb hbegins) hcall
  have hext := (hsim.inv.run hrun).2
  refine ⟨a', hsim', ?_, hext, hout⟩
  cases hout with
  | refused => rwa [Sim.setStore_self]
  | repeated => rwa [Sim.setStore_self]
  | @appended ρ s hterm hvalid hfresh hreign howner hmemory hstate =>
    obtain ⟨hbegins, hfinalizes⟩ := hnew hterm hvalid
    have hord : Orderly V (ρ.full ++ [⟨t, command⟩]) := by
      have := (h.orderly_memory hsim n).append hbegins fun hf => (hfinalizes hf).2.2
      rwa [hmemory] at this
    -- the new entry comes after the commit index, right after it if it is a finalize entry
    have hfol : Follows V epoch (ρ.full ++ [⟨t, command⟩]) s := by
      have hold := h.memory n
      have hcommit := (hsim.memory n).commit_le
      have hsnap := (hsim.memory n).snapshot_commit
      rw [hmemory] at hold hcommit hfinalizes
      have hold' : Follows V epoch ρ.full s := by
        rw [hstate]
        exact hold.congr rfl rfl rfl rfl
      have hci : s.commitIndex = (g.store n).state.commitIndex := by
        rw [hstate]
        rfl
      have hsi : s.snapshotIndex = (g.store n).state.snapshotIndex := by
        rw [hstate]
        rfl
      refine ⟨hold'.replays.of_take (by omega) ?_, fun {p e} he hf => ?_⟩
      · rw [hci]
        exact take_append_of_le_length hcommit
      · rcases getElem?_append_singleton he with he | ⟨rfl, rfl⟩
        · exact hold'.lags he hf
        · rw [hci]
          exact (hfinalizes hf).1.ge
    obtain ⟨hcands, happs⟩ := h.sent_mono hext
    refine ⟨fun u => ?_, fun m => ?_, fun m => ?_, hcands, happs, h.acks.mono hext⟩
    · by_cases hu : u = t
      · subst hu
        rw [Sys.full_of_reign (r := ⟨ρ.owner, ρ.base, ρ.own ++ [⟨u, command⟩]⟩)
          (by simp [Sys.append]), ← append_assoc]
        exact hord
      · have : (a.append t ρ ⟨t, command⟩).full u = a.full u := by
          simp [Sys.full, Sys.append, hu]
        rw [this]
        exact h.orderly u
    · by_cases hm : m = n
      · subst hm
        simpa [setStore, Sys.append, howner] using hfol
      · have hm' : m ≠ ρ.owner := by rwa [howner]
        simpa [setStore, Sys.append, hm, hm'] using h.memory m
    · by_cases hm : m = n
      · subst hm
        simpa [setStore, Sys.append, howner] using hfol
      · have hm' : m ≠ ρ.owner := by rwa [howner]
        simpa [setStore, Sys.append, hm, hm'] using h.file m

end

end GideonDB.Cluster
