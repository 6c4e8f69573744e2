/-
A snapshot and the entries behind it, against the whole log.

A snapshot has the epoch and the view the leader had applied at its snapshot index, but
the voters the leader has applied by now.  A follower that installs it and then gets the
entries the leader retains ends up where a replay of the whole log does
(`snapshot_then_entries`), unless

* a membership change lies between the two,
* the follower is itself in the middle of one: its joint sets are left alone, or
* the follower has committed what the snapshot covers and has no voters yet: it does not
  take them from the snapshot.

`SnapshotFits` rules this out.  A `Chronicle` is a store together with the whole log behind
its memory and its file, which a store that was compacted does not have any more.
-/
import GideonDB.Cluster.RaftReopen

namespace GideonDB.Cluster

open Go Consensus Relation Applied RaftStore RaftEntry List

/-! ### Replaying with other voters -/

/-- It changes the membership. -/
def RaftEntry.changes (e : RaftEntry) : Bool := decide (e.begins ∨ e.finalizes)

/-- A node that knows `voters` can apply `entries` and ends up with `final`: the first
membership change starts from them, or there is none. -/
def VotersFit (voters : List GoString) (entries : List RaftEntry) (final : List GoString) : Prop :=
  match entries.find? changes with
  | none => voters = final
  | some e => e.begins → voters = [] ∨ voters = e.command.oldVoters

instance (voters : List GoString) (entries : List RaftEntry) (final : List GoString) :
    Decidable (VotersFit voters entries final) := by
  rw [VotersFit]
  split <;> infer_instance

variable {epoch : ℕ}

section

variable {a b b' : Applied} {m : List RaftEntry} {e : RaftEntry} {v : List GoString}

lemma apply_withVoters (he : e.changes = false) (hb : b.apply e.command = .ok b')
    (v : List GoString) : { b with voters := v }.apply e.command = .ok { b' with voters := v } := by
  simp only [changes, decide_eq_false_iff_not, not_or] at he
  rw [apply_eq_ok] at hb ⊢
  cases hb with
  | advance htype hjoint hepoch hle => exact .advance htype hjoint hepoch hle
  | duplicate htype hjoint hepoch hle hview => exact .duplicate htype hjoint hepoch hle hview
  | begins htype => exact absurd htype he.1
  | finalizes htype => exact absurd htype he.2

lemma applyAll_withVoters (hm : ∀ e ∈ m, e.changes = false) (hb : b.applyAll m = .ok b')
    (v : List GoString) : { b with voters := v }.applyAll m = .ok { b' with voters := v } := by
  obtain ⟨_, hc, rfl⟩ := foldlM_simulation (R := fun b c => c = { b with voters := v })
    (fun e he _ _ _ hbc hb => ⟨_, hbc ▸ apply_withVoters (hm e he) hb v, rfl⟩) rfl hb
  exact hc

lemma applyAll_unchanged (hm : ∀ e ∈ m, e.changes = false) (hb : b.applyAll m = .ok b') :
    b'.voters = b.voters ∧ b'.jointOld = b.jointOld := by
  refine foldlM_invariant (P := fun c => c.voters = b.voters ∧ c.jointOld = b.jointOld)
    (fun e he _ _ hsame hb => ?_) ⟨rfl, rfl⟩ hb
  have he := hm e he
  simp only [changes, decide_eq_false_iff_not, not_or] at he
  cases apply_eq_ok.1 hb with
  | advance | duplicate => exact hsame
  | begins htype => exact absurd htype he.1
  | finalizes htype => exact absurd htype he.2

/-- A membership change leads to the same voters from all voters it applies to. -/
lemma apply_changes (he : e.changes = true) (hb : b.apply e.command = .ok b') :
    (e.begins → v = [] ∨ v = e.command.oldVoters) ∧
        { b with voters := v }.apply e.command = .ok b' ∨
      ¬ (e.begins → v = [] ∨ v = e.command.oldVoters) ∧
        ∃ err, { b with voters := v }.apply e.command = .error err := by
  rw [changes, decide_eq_true_eq] at he
  by_cases hfit : e.begins → v = [] ∨ v = e.command.oldVoters
  · refine .inl ⟨hfit, ?_⟩
    rw [apply_eq_ok] at hb ⊢
    cases hb with
    | advance htype | duplicate htype =>
      simp [begins, finalizes, htype] at he
    | begins htype hjoint hepoch => exact .begins htype hjoint hepoch (hfit htype)
    | finalizes htype hepoch hold hnew => exact .finalizes htype hepoch hold hnew
  · refine .inr ⟨hfit, ?_⟩
    rw [Classical.not_imp] at hfit
    cases hcase : { b with voters := v }.apply e.command with
    | error err => exact ⟨err, rfl⟩
    | ok a =>
      have htype : e.command.type = .beginJointConsensus := hfit.1
      cases apply_eq_ok.1 hcase with
      | begins _ _ _ hvoters => exact absurd hvoters hfit.2
      | advance h | duplicate h | finalizes h => simp [htype] at h

/-- A list of entries up to the first membership change. -/
lemma find?_changes_eq_some (h : m.find? changes = some e) :
    e.changes = true ∧ ∃ p q, m = p ++ e :: q ∧ ∀ d ∈ p, d.changes = false := by
  obtain ⟨he, p, q, rfl, hp⟩ := List.find?_eq_some_iff_append.1 h
  exact ⟨he, p, q, rfl, fun d hd => by simpa using hp d hd⟩

lemma find?_changes_eq_none (h : m.find? changes = none) : ∀ e ∈ m, e.changes = false := by
  simpa using h

/-- Without a change in progress the first membership change is a begin. -/
lemma begins_of_find? (hm : ∀ e ∈ m, ValidEntry e) (hjoint : b.jointOld = [])
    (hb : b.applyAll m = .ok b') (h : m.find? changes = some e) : e.begins := by
  obtain ⟨he, p, q, rfl, hp⟩ := find?_changes_eq_some h
  obtain ⟨b₁, hb₁, hb⟩ := applyAll_append_eq_ok.1 hb
  obtain ⟨b₂, hb₂, -⟩ := applyAll_cons_eq_ok.1 hb
  rw [changes, decide_eq_true_eq] at he
  refine he.resolve_right fun hf => ?_
  have hnil := (applyAll_unchanged hp hb₁).2.trans hjoint
  have htype : e.command.type = .finalizeJointConsensus := hf
  cases apply_eq_ok.1 hb₂ with
  | finalizes _ _ hold =>
    exact ((hm e (by simp)).transition (.inr hf)).1.ne_nil (hold.trans hnil)
  | advance h | duplicate h | begins h => simp [htype] at h

/-- What becomes of other voters: they fit and everything is as it would have been, there
is no membership change and they stay, or they stop the first membership change. -/
lemma applyAll_cases (hb : b.applyAll m = .ok b') (v : List GoString) :
    (VotersFit v m b'.voters ∧ { b with voters := v }.applyAll m = .ok b') ∨
    (¬ VotersFit v m b'.voters ∧ (∀ e ∈ m, e.changes = false) ∧
      { b with voters := v }.applyAll m = .ok { b' with voters := v }) ∨
    (¬ VotersFit v m b'.voters ∧ ∃ err, { b with voters := v }.applyAll m = .error err) := by
  cases hfind : m.find? changes with
  | none =>
    have hm := find?_changes_eq_none hfind
    have happly := applyAll_withVoters hm hb v
    simp only [VotersFit, hfind]
    by_cases hv : v = b'.voters
    · refine .inl ⟨hv, ?_⟩
      rw [happly, hv]
    · exact .inr (.inl ⟨hv, hm, happly⟩)
  | some e =>
    obtain ⟨he, p, q, rfl, hp⟩ := find?_changes_eq_some hfind
    obtain ⟨b₁, hb₁, hb⟩ := applyAll_append_eq_ok.1 hb
    obtain ⟨b₂, hb₂, hb⟩ := applyAll_cons_eq_ok.1 hb
    have hp' := applyAll_withVoters hp hb₁ v
    simp only [VotersFit, hfind]
    rcases apply_changes (v := v) he hb₂ with ⟨hfit, happly⟩ | ⟨hfit, err, happly⟩
    · exact .inl ⟨hfit, applyAll_append_eq_ok.2
        ⟨_, hp', applyAll_cons_eq_ok.2 ⟨b₂, happly, hb⟩⟩⟩
    · refine .inr (.inr ⟨hfit, ?_⟩)
      cases hcase : { b with voters := v }.applyAll (p ++ e :: q) with
      | error err => exact ⟨err, rfl⟩
      | ok a =>
        -- what applies as a whole applies up to the membership change
        obtain ⟨c, hc, hcase⟩ := applyAll_append_eq_ok.1 hcase
        obtain ⟨d, hd, -⟩ := applyAll_cons_eq_ok.1 hcase
        rw [hp', Except.ok.injEq] at hc
        rw [← hc, happly] at hd
        simp at hd

lemma applyAll_eq_withVoters (hb : b.applyAll m = .ok b')
    (ha : { b with voters := v }.applyAll m = .ok a) : a = { b' with voters := a.voters } := by
  rcases applyAll_cases hb v with ⟨-, h⟩ | ⟨-, -, h⟩ | ⟨-, err, h⟩ <;> rw [h] at ha
  · rw [← Except.ok.inj ha]
  · rw [← Except.ok.inj ha]
  · simp at ha

lemma votersFit_self (hb : b.applyAll m = .ok b') : VotersFit b.voters m b'.voters := by
  rcases applyAll_cases hb b.voters with ⟨hfit, -⟩ | ⟨-, hm, -⟩ | ⟨-, err, h⟩
  · exact hfit
  · rw [VotersFit, List.find?_eq_none.2 (fun e he => by simp [hm e he])]
    exact (applyAll_unchanged hm hb).1.symm
  · rw [show { b with voters := b.voters } = b from rfl, hb] at h
    simp at h

lemma votersFit_append {p q : List RaftEntry} {b₁ : Applied} (hb₁ : b.applyAll p = .ok b₁)
    (hb : b₁.applyAll q = .ok b') (ha : { b with voters := v }.applyAll p = .ok a) :
    VotersFit v (p ++ q) b'.voters ↔ VotersFit a.voters q b'.voters := by
  have hcases := applyAll_cases hb₁ v
  rw [ha] at hcases
  cases hfind : p.find? changes with
  | none =>
    have hp := find?_changes_eq_none hfind
    have hv : a.voters = v := (applyAll_unchanged hp ha).1
    rw [VotersFit, VotersFit, List.find?_append, hfind, Option.none_or, hv]
  | some e =>
    obtain ⟨he, -⟩ := find?_changes_eq_some hfind
    have hmem := mem_of_find?_eq_some hfind
    rcases hcases with ⟨hfit, heq⟩ | ⟨-, hp, -⟩ | ⟨-, err, h⟩
    · rw [VotersFit, hfind] at hfit
      rw [VotersFit, List.find?_append, hfind, Option.some_or, Except.ok.inj heq]
      exact iff_of_true hfit (votersFit_self hb)
    · simp [hp e hmem] at he
    · simp at h

/-- Epochs only grow, and as long as the epoch stays nothing else is applied that lasts. -/
lemma Sound.applyAll_epoch (h : Sound epoch a) (hm : ∀ e ∈ m, ValidEntry e)
    (hb : a.applyAll m = .ok b) : a.appliedEpoch ≤ b.appliedEpoch ∧
      (b.appliedEpoch = a.appliedEpoch → b.jointOld = [] →
        (∀ e ∈ m, e.changes = false) ∧ b = { a with commitIndex := b.commitIndex }) := by
  induction m generalizing a with
  | nil =>
    cases hb
    exact ⟨le_rfl, fun _ _ => ⟨by simp, rfl⟩⟩
  | cons e m ih =>
    obtain ⟨a₁, ha₁, hb⟩ := applyAll_cons_eq_ok.1 hb
    have he := hm e (by simp)
    obtain ⟨hle, hsame⟩ := ih (h.apply he ha₁) (fun d hd => hm d (by simp [hd])) hb
    have hrange := h.versioned.range
    have hnext : ∀ {x : ℕ}, x = addOne a.appliedEpoch → 2 ≤ x → x = a.appliedEpoch + 1 := by
      intro x hx hmin
      rw [addOne] at hx
      omega
    cases apply_eq_ok.1 ha₁ with
    | advance htype _ hepoch =>
      have := hnext hepoch (he.view (.inl htype)).1
      simp only at hle
      exact ⟨by omega, fun heq => by omega⟩
    | duplicate htype =>
      refine ⟨hle, fun heq hjoint => ?_⟩
      obtain ⟨hno, hb'⟩ := hsame heq hjoint
      exact ⟨forall_mem_cons.2 ⟨by simp [changes, begins, finalizes, htype], hno⟩, hb'⟩
    | begins htype =>
      refine ⟨hle, fun heq hjoint => ?_⟩
      -- the change would still be in progress
      obtain ⟨-, hb'⟩ := hsame heq hjoint
      rw [hb'] at hjoint
      exact absurd hjoint (he.transition (.inl htype)).1.ne_nil
    | finalizes htype hepoch =>
      have := hnext hepoch (he.view (.inr htype)).1
      simp only at hle
      exact ⟨by omega, fun heq => by omega⟩

/-- No voters are known: no membership change was applied. -/
lemma applyAll_voters_nil (hm : ∀ e ∈ m, ValidEntry e) (hb : a.applyAll m = .ok b)
    (hnil : b.voters = []) : ∀ e ∈ m, e.changes = false := by
  suffices a.voters = [] ∧ ∀ e ∈ m, e.changes = false from this.2
  induction m generalizing a with
  | nil =>
    cases hb
    exact ⟨hnil, by simp⟩
  | cons e m ih =>
    obtain ⟨a₁, ha₁, hb⟩ := applyAll_cons_eq_ok.1 hb
    obtain ⟨hvoters, hno⟩ := ih (fun d hd => hm d (by simp [hd])) hb
    have he := hm e (by simp)
    cases apply_eq_ok.1 ha₁ with
    | advance htype | duplicate htype =>
      exact ⟨hvoters, forall_mem_cons.2 ⟨by simp [changes, begins, finalizes, htype], hno⟩⟩
    | begins htype => exact absurd hvoters (he.transition (.inl htype)).1.ne_nil
    | finalizes htype => exact absurd hvoters (he.transition (.inr htype)).2.1.ne_nil

end

/-! ### Whole logs -/

/-- The state `s` retains the end of the log `ℓ` and has applied what a node founded with
`voters` applies of it, now and at its snapshot. -/
structure Replica (epoch : ℕ) (voters : List GoString) (ℓ : List RaftEntry)
    (s : RaftPersistentState) : Prop where
  holds : Holds ⟨s.currentTerm, ℓ⟩ s
  valid : ∀ e ∈ ℓ, ValidEntry e
  canonical : voters = [] ∨ Canonical voters
  applied : (founded epoch voters).applyAll (ℓ.take s.commitIndex) = .ok s.applied
  snapshot : ∃ b, (founded epoch voters).applyAll (ℓ.take s.snapshotIndex) = .ok b ∧
    b.appliedEpoch = s.snapshotEpoch ∧ b.committedView = s.snapshotView ∧ b.jointOld = []

/-- The entries a state retains and has committed after an index. -/
def RaftPersistentState.committedAfter (s : RaftPersistentState) (index : ℕ) : List RaftEntry :=
  (s.entries.drop (index - s.snapshotIndex)).take (s.commitIndex - index)

/-- The log behind a state, given a log that agrees with it up to the snapshot. -/
def RaftPersistentState.fullLog (s : RaftPersistentState) (base : List RaftEntry) : List RaftEntry :=
  base.take s.snapshotIndex ++ s.entries

variable {target i : ℕ}

section

variable {ℓ : List RaftEntry} {s : RaftPersistentState}

/-- A state with the snapshot of `s` and other entries behind it. -/
lemma Holds.splice {t : ℕ} (h : Holds ⟨t, ℓ⟩ s) (s' : RaftPersistentState)
    (hindex : s'.snapshotIndex = s.snapshotIndex) (hterm : s'.snapshotTerm = s.snapshotTerm)
    (hsc : s'.snapshotIndex ≤ s'.commitIndex)
    (hcommit : s'.commitIndex ≤ s.snapshotIndex + s'.entries.length) :
    Holds ⟨s'.currentTerm, s'.fullLog ℓ⟩ s' ∧
      (s'.fullLog ℓ).take s'.snapshotIndex = ℓ.take s'.snapshotIndex := by
  have hmin := length_take_of_le h.snapshot_le
  have hlen : (s'.fullLog ℓ).length = s.snapshotIndex + s'.entries.length := by
    rw [RaftPersistentState.fullLog, hindex, length_append, hmin]
  refine ⟨⟨rfl, by simp only; omega, ?_, ?_, hsc, by simp only; omega⟩, ?_⟩
  · simp only [RaftPersistentState.fullLog, hindex]
    rw [drop_left' hmin]
  · simp only [RaftPersistentState.fullLog, hterm, hindex]
    rw [h.snapshotTerm, ← termAt_of_isPrefix (prefix_append _ _) hmin.ge,
      termAt_of_isPrefix (List.take_prefix _ _) hmin.ge]
  · rw [RaftPersistentState.fullLog, hindex, take_left' hmin]

lemma take_drop_add {c k : ℕ} (hi : c ≤ i) (hk : i ≤ k) :
    (ℓ.drop c).take (k - c) = (ℓ.drop c).take (i - c) ++ (ℓ.drop i).take (k - i) := by
  rw [show k - c = (i - c) + (k - i) by omega, take_add, drop_drop,
    Nat.add_sub_cancel' hi]

end

namespace Replica

variable {epoch : ℕ} {V : List GoString} {ℓ : List RaftEntry} {s s' : RaftPersistentState}
  (h : Replica epoch V ℓ s)

include h

lemma fullLog : s.fullLog ℓ = ℓ := by
  rw [RaftPersistentState.fullLog, h.holds.entries, take_append_drop]

lemma configure {voters : List GoString} (hnil : s.voters = []) (hcanonical : Canonical voters) :
    Replica epoch voters ℓ { s with voters := voters } := by
  have hno := applyAll_voters_nil (fun e he => h.valid e (mem_of_mem_take he)) h.applied hnil
  have hsc := h.holds.snapshot_commit
  obtain ⟨b, hb, hepoch, hview, hjoint⟩ := h.snapshot
  refine ⟨{ h.holds with }, h.valid, .inr hcanonical, applyAll_withVoters hno h.applied voters, { b with voters := voters },
    applyAll_withVoters (fun e he => hno e ?_) hb voters, hepoch, hview, hjoint⟩
  rw [← Nat.min_eq_left hsc, ← take_take] at he
  exact mem_of_mem_take he

lemma withEntries {log : List RaftEntry} (hvalid : ∀ e ∈ log, e ∈ s.entries ∨ ValidEntry e)
    (hlen : s.commitIndex - s.snapshotIndex ≤ log.length)
    (htake : log.take (s.commitIndex - s.snapshotIndex) =
      s.entries.take (s.commitIndex - s.snapshotIndex)) :
    Replica epoch V (ℓ.take s.snapshotIndex ++ log) { s with entries := log } := by
  have hsc := h.holds.snapshot_commit
  obtain ⟨hholds, hsnap⟩ := h.holds.splice { s with entries := log } rfl rfl hsc
    (by simp only; omega)
  -- the committed part of the whole log is the same
  have hcommit : (ℓ.take s.snapshotIndex ++ log).take s.commitIndex = ℓ.take s.commitIndex := by
    have hmin := length_take_of_le h.holds.snapshot_le
    simp only at hmin
    rw [take_append, hmin, take_of_length_le (by omega), htake, h.holds.entries,
      ← take_add, Nat.add_sub_cancel' hsc]
  refine ⟨hholds, fun e he => ?_, h.canonical, ?_, ?_⟩
  · rcases mem_append.1 he with he | he
    · exact h.valid e (mem_of_mem_take he)
    · rcases hvalid e he with he | he
      · rw [h.holds.entries] at he
        exact h.valid e (mem_of_mem_drop he)
      · exact he
  · change (founded epoch V).applyAll ((ℓ.take s.snapshotIndex ++ log).take s.commitIndex) = _
    rw [hcommit]
    exact h.applied
  · obtain ⟨b, hb, hrest⟩ := h.snapshot
    exact ⟨b, by rw [← hb]; exact congrArg _ hsnap, hrest⟩

lemma applyThrough (happly : s.applyThroughLocked target = .ok s') : Replica epoch V ℓ s' := by
  obtain ⟨a, ha, hs'⟩ := RaftPersistentState.applyThroughLocked_ok happly
  have hrounds := (applyLoop_commitIndex ha).2
  have hlen : s.snapshotIndex + s.entries.length = ℓ.length := h.holds.length_entries
  have hsc := h.holds.snapshot_commit
  have hcl : s.commitIndex ≤ ℓ.length := h.holds.commit_le
  have hdrop : s.entries.drop (s.commitIndex - s.snapshotIndex) = ℓ.drop s.commitIndex := by
    rw [h.holds.entries, drop_drop, Nat.add_sub_cancel' hsc]
  have hcommit : a.commitIndex = max s.commitIndex target := by
    rw [(applyLoop_commitIndex ha).1]
    change s.commitIndex + _ = _
    omega
  rw [applyLoop_eq_applyAll hrounds, hdrop] at ha
  have happ : s'.applied = a := by
    rw [hs']
    simp only [RaftPersistentState.applied, ← hcommit]
  have hindex : s'.commitIndex = s.commitIndex + (target - s.commitIndex) := by
    rw [hs']
    simp only
    omega
  refine ⟨?_, h.valid, h.canonical, ?_, ?_⟩
  · rw [hs']
    refine { h.holds with snapshot_commit := ?_, commit_le := ?_ }
    · simp only
      omega
    · simp only
      omega
  · rw [hindex, take_add, happ]
    exact applyAll_append_eq_ok.2 ⟨_, h.applied, ha⟩
  · rw [hs']
    exact h.snapshot

lemma edit (he : Edit s s') : ∃ V', Replica epoch V' (s'.fullLog ℓ) s' := by
  cases he with
  | vote term votedFor =>
    refine ⟨V, ?_⟩
    rw [show RaftPersistentState.fullLog
      { s with currentTerm := term, votedFor := votedFor } ℓ = ℓ from h.fullLog]
    exact { h with holds := { h.holds with term := rfl } }
  | @configure voters hnil hcanonical =>
    refine ⟨voters, ?_⟩
    rw [show RaftPersistentState.fullLog { s with voters := voters } ℓ = ℓ from h.fullLog]
    exact h.configure hnil hcanonical
  | log hvalid hlen htake => exact ⟨V, h.withEntries hvalid hlen htake⟩
  | apply happly =>
    have h' := h.applyThrough happly
    exact ⟨V, h'.fullLog.symm ▸ h'⟩

lemma edits (he : ReflTransGen Edit s s') : ∃ V', Replica epoch V' (s'.fullLog ℓ) s' := by
  suffices s'.snapshotIndex = s.snapshotIndex ∧ ∃ V', Replica epoch V' (s'.fullLog ℓ) s' from this.2
  induction he with
  | refl => exact ⟨rfl, V, h.fullLog.symm ▸ h⟩
  | @tail s₁ s₂ _ he ih =>
    obtain ⟨hsnap, V₁, h₁⟩ := ih
    obtain ⟨V₂, h₂⟩ := h₁.edit he
    refine ⟨he.snapshotIndex.trans hsnap, V₂, ?_⟩
    have hmin : (ℓ.take s₁.snapshotIndex).length = s₁.snapshotIndex :=
      length_take_of_le (hsnap ▸ h.holds.snapshot_le)
    have heq : s₂.fullLog (s₁.fullLog ℓ) = s₂.fullLog ℓ := by
      rw [RaftPersistentState.fullLog, RaftPersistentState.fullLog, RaftPersistentState.fullLog,
        he.snapshotIndex, take_left' hmin]
    rwa [heq] at h₂

lemma compact {term : ℕ} (hjoint : s.jointOldVoters = [])
    (hterm : s.termAtLocked s.commitIndex = .ok term)
    (hs' : s' = { s with
      entries := s.entries.drop (s.commitIndex - s.snapshotIndex)
      snapshotIndex := s.commitIndex
      snapshotTerm := term
      snapshotEpoch := s.appliedEpoch
      snapshotView := s.committedView }) : Replica epoch V (s'.fullLog ℓ) s' := by
  have h' : Replica epoch V ℓ s' := by
    subst hs'
    exact ⟨h.holds.compact hterm _ _, h.valid, h.canonical, h.applied, s.applied, h.applied, rfl, rfl,
      hjoint⟩
  exact h'.fullLog.symm ▸ h'

lemma committedAfter (hi : s.snapshotIndex ≤ i) :
    s.committedAfter i = (ℓ.drop i).take (s.commitIndex - i) := by
  rw [RaftPersistentState.committedAfter, h.holds.entries, drop_drop, Nat.add_sub_cancel' hi]

lemma applied_from (hi : i ≤ s.commitIndex) :
    ∃ b, (founded epoch V).applyAll (ℓ.take i) = .ok b ∧
      b.applyAll ((ℓ.drop i).take (s.commitIndex - i)) = .ok s.applied := by
  refine applyAll_append_eq_ok.1 ?_
  rw [← take_add, Nat.add_sub_cancel' hi]
  exact h.applied

lemma at_snapshot :
    ∃ b, (founded epoch V).applyAll (ℓ.take s.snapshotIndex) = .ok b ∧
      b = ⟨s.snapshotIndex, s.snapshotEpoch, s.snapshotView, b.voters, [], []⟩ ∧
      b.applyAll (s.committedAfter s.snapshotIndex) = .ok s.applied := by
  obtain ⟨b, hb, hrest⟩ := h.applied_from h.holds.snapshot_commit
  obtain ⟨b', hb', hepoch, hview, hjoint⟩ := h.snapshot
  rw [hb, Except.ok.injEq] at hb'
  subst hb'
  rw [h.committedAfter le_rfl]
  refine ⟨b, hb, ?_, hrest⟩
  have hnew := applyAll_jointNew (fun e he => h.valid e (mem_of_mem_take he))
    (fun _ => rfl) hb hjoint
  have hcommit := applyAll_commitIndex hb
  rw [length_take, Nat.min_eq_left h.holds.snapshot_le] at hcommit
  change b.commitIndex = 0 + s.snapshotIndex at hcommit
  ext1 <;> simp [hcommit, hepoch, hview, hjoint, hnew]

/-- Voters that fit the rest of the log may have been there from the start. -/
lemma founded_with {w : List GoString} (hw : Canonical w)
    (hfits : VotersFit w (s.committedAfter s.snapshotIndex) s.voters) :
    ∃ V', (V' = [] ∨ Canonical V') ∧ (founded epoch V').applyAll (ℓ.take s.snapshotIndex) =
        .ok ⟨s.snapshotIndex, s.snapshotEpoch, s.snapshotView, w, [], []⟩ := by
  obtain ⟨b, hb, heq, hrest⟩ := h.at_snapshot
  have hvalid : ∀ e ∈ ℓ.take s.snapshotIndex, ValidEntry e :=
    fun e he => h.valid e (mem_of_mem_take he)
  have hself : VotersFit b.voters (s.committedAfter s.snapshotIndex) s.voters := votersFit_self hrest
  have hvoters : b.voters = [] ∨ b.voters = w := by
    rw [VotersFit] at hfits hself
    cases hfind : (s.committedAfter s.snapshotIndex).find? changes with
    | none =>
      rw [hfind] at hfits hself
      exact .inr (hself.trans hfits.symm)
    | some e =>
      rw [hfind] at hfits hself
      have hbegins : e.begins := by
        refine begins_of_find? (fun d hd => h.valid d ?_) (heq ▸ rfl) hrest hfind
        rw [h.committedAfter le_rfl] at hd
        exact mem_of_mem_drop (mem_of_mem_take hd)
      rw [(hfits hbegins).resolve_left hw.ne_nil]
      exact hself hbegins
  rcases hvoters with hnil | hvoters
  · -- no voters were known then: these could have been
    refine ⟨w, .inr hw, ?_⟩
    have := applyAll_withVoters (applyAll_voters_nil hvalid hb hnil) hb w
    rw [heq] at this
    exact this
  · refine ⟨V, h.canonical, ?_⟩
    rw [hb, heq, hvoters]

lemma install {f : RaftPersistentState} {q : RaftSnapshot} (hq : q = s.snapshotLocked)
    (hcanonical : Canonical q.voters)
    (hfits : VotersFit s.voters (s.committedAfter s.snapshotIndex) s.voters)
    (hold : f.jointOldVoters = []) (hnew : f.jointNewVoters = [])
    (hvalid : ∀ e ∈ f.entries, ValidEntry e) :
    ∃ V', Replica epoch V' ((installed f q).fullLog ℓ) (installed f q) := by
  subst hq
  obtain ⟨V', hV', happ⟩ := h.founded_with hcanonical hfits
  obtain ⟨hholds, htake⟩ := h.holds.splice (installed f s.snapshotLocked) rfl rfl le_rfl
    (Nat.le_add_right _ _)
  refine ⟨V', hholds, fun e he => ?_, hV', ?_, _, (congrArg _ htake).trans happ, rfl, rfl, rfl⟩
  · rcases mem_append.1 he with he | he
    · exact h.valid e (mem_of_mem_take he)
    · change e ∈ retained f s.snapshotLocked at he
      rw [retained] at he
      split at he
      · exact hvalid e (mem_of_mem_drop he)
      · simp at he
  · have happlied : (installed f s.snapshotLocked).applied =
        ⟨s.snapshotIndex, s.snapshotEpoch, s.snapshotView, s.voters, f.jointOldVoters,
          f.jointNewVoters⟩ := rfl
    rw [happlied, hold, hnew]
    exact (congrArg _ htake).trans happ

end Replica

/-! ### Chronicles -/

/-- A store, with the whole log behind its memory and behind its file. -/
structure Chronicle where
  store : RaftStore
  log : List RaftEntry
  fileLog : List RaftEntry
deriving DecidableEq

/-- The snapshot of `leader` fits `follower`: the voters it has after installing it can apply
what the leader has committed behind it. -/
def SnapshotFits (leader follower : RaftPersistentState) : Prop :=
  if leader.snapshotIndex ≤ follower.commitIndex then
    VotersFit follower.voters (leader.committedAfter follower.commitIndex) leader.voters
  else
    follower.jointOldVoters = [] ∧
      VotersFit leader.voters (leader.committedAfter leader.snapshotIndex) leader.voters

instance (leader follower : RaftPersistentState) : Decidable (SnapshotFits leader follower) := by
  rw [SnapshotFits]
  infer_instance

namespace Chronicle

/-- The store `r` comes after the chronicle; up to its snapshot its log is `base`. -/
def next (c : Chronicle) (base : List RaftEntry) (r : RaftStore) : Chronicle :=
  ⟨r, r.state.fullLog base, if r.file = c.store.file then c.fileLog else r.state.fullLog base⟩

/-- The chronicles of nodes with one bootstrap epoch.  Snapshots come from such nodes, and are
installed where `allowed`. -/
inductive Reachable (bootstrapEpoch : ℕ)
    (allowed : RaftPersistentState → RaftPersistentState → Prop) : Chronicle → Prop
  | opened {nodeID : GoString} {r : RaftStore}
      (hopen : openRaftStore nodeID bootstrapEpoch none true = .ok r) :
      Reachable bootstrapEpoch allowed ⟨r, [], []⟩
  | call {c : Chronicle} {call : StoreCall} {r : RaftStore} (h : Reachable bootstrapEpoch allowed c)
      (hins : call.isInstall = false) (hreopen : call ≠ .reopen)
      (hrun : call.run bootstrapEpoch c.store = some r) :
      Reachable bootstrapEpoch allowed (c.next c.log r)
  | reopen {c : Chronicle} {r : RaftStore} (h : Reachable bootstrapEpoch allowed c)
      (hrun : StoreCall.reopen.run bootstrapEpoch c.store = some r) :
      Reachable bootstrapEpoch allowed ⟨r, c.fileLog, c.fileLog⟩
  | install {c leader : Chronicle} {q : InstallSnapshotRequest} {ok : Bool} {r : RaftStore}
      (h : Reachable bootstrapEpoch allowed c) (hleader : Reachable bootstrapEpoch allowed leader)
      (hsnapshot : leader.store.state.snapshot = some q.snapshot)
      (hallow : allowed leader.store.state c.store.state)
      (hrun : (c.store.installSnapshot q ok).2 = r) :
      Reachable bootstrapEpoch allowed
        (c.next (if r.state.snapshotIndex = c.store.state.snapshotIndex then c.log else leader.log) r)

/-- The logs are what they say. -/
structure Inv (epoch : ℕ) (c : Chronicle) : Prop where
  reopens : ReopenStore epoch c.store
  memory : ∃ V, Replica epoch V c.log c.store.state
  file : ∃ V, Replica epoch V c.fileLog c.store.file

variable {epoch : ℕ} {c leader : Chronicle} {r : RaftStore}

lemma Inv.next (h : Inv epoch c) {base : List RaftEntry} (hreop : ReopenStore epoch r)
    (hmemory : ∃ V, Replica epoch V (r.state.fullLog base) r.state)
    (hfile : r.file = c.store.file ∨ r.file = r.state) : Inv epoch (c.next base r) := by
  refine ⟨hreop, hmemory, ?_⟩
  change ∃ V, Replica epoch V (if r.file = c.store.file then c.fileLog else r.state.fullLog base) r.file
  split
  · rename_i hsame
    rw [hsame]
    exact h.file
  · rename_i hne
    rw [hfile.resolve_left hne]
    exact hmemory

lemma Inv.edits (h : Inv epoch c) {p : Prop} (he : StoreEdits p c.store r) : Inv epoch (c.next c.log r) := by
  obtain ⟨V, hmemory⟩ := h.memory
  exact h.next (h.reopens.edits he) (hmemory.edits he.state) he.file

lemma Inv.compact (h : Inv epoch c) {ok : Bool} (hrun : (c.store.compactCommitted ok).2 = r) :
    Inv epoch (c.next c.log r) := by
  have hreop := h.reopens.compactCommitted ok
  rw [hrun] at hreop
  obtain ⟨V, hmemory⟩ := h.memory
  rcases c.store.compactCommitted_cases ok with ⟨x, hcall⟩ | ⟨hjoint, -, term, hterm, hcall⟩ <;>
    rw [hcall] at hrun
  · subst hrun
    exact h.edits (p := True) (.refl _)
  · refine h.next hreop ⟨V, hmemory.compact hjoint hterm ?_⟩ ?_ <;> subst hrun <;> cases ok
    · rfl
    · rfl
    · exact .inl rfl
    · exact .inr rfl

lemma snapshot_eq_some {s : RaftPersistentState} {q : RaftSnapshot} (h : s.snapshot = some q) :
    s.snapshotIndex ≠ 0 ∧ q = s.snapshotLocked := by
  rw [RaftPersistentState.snapshot] at h
  split at h
  · simp at h
  · exact ⟨‹_›, (Option.some.inj h).symm⟩

lemma Inv.install (h : Inv epoch c) (hleader : Inv epoch leader) {q : InstallSnapshotRequest}
    {ok : Bool} (hsnapshot : leader.store.state.snapshot = some q.snapshot)
    (hfits : SnapshotFits leader.store.state c.store.state)
    (hrun : (c.store.installSnapshot q ok).2 = r) : Inv epoch (c.next
      (if r.state.snapshotIndex = c.store.state.snapshotIndex then c.log else leader.log) r) := by
  have hq := (snapshot_eq_some hsnapshot).2
  have hindex : q.snapshot.lastIncludedIndex = leader.store.state.snapshotIndex := by rw [hq]; rfl
  rcases StoreEdits.installSnapshot c.store q ok with hedits | ⟨hlt, hvalid, hcall⟩
  · rw [hrun] at hedits
    rw [if_pos hedits.snapshotIndex]
    exact h.edits hedits
  rw [SnapshotFits, if_neg (by omega)] at hfits
  obtain ⟨hold, hvoters⟩ := hfits
  have hreop := h.reopens.installSnapshot hleader.reopens.state hsnapshot ok (fun _ => hold)
  rw [hrun] at hreop
  rw [hcall] at hrun
  have hstate : r.state = installed (c.store.state.withTerm q.term) q.snapshot := by
    rw [← hrun]
    cases ok <;> rfl
  have hsnap := h.reopens.state.indexed.1
  rw [if_neg (by rw [hstate]; change q.snapshot.lastIncludedIndex ≠ _; omega)]
  have hs := h.reopens.state.edit (.withTerm _ q.term)
  have happ := (StoreSameLog.withTerm c.store.state q.term).applied
  have hold' : (c.store.state.withTerm q.term).jointOldVoters = [] :=
    (congrArg jointOld happ).trans hold
  simp only [validSnapshot, Bool.and_eq_true, beq_iff_eq] at hvalid
  obtain ⟨V, hmemory⟩ := hleader.memory
  refine h.next hreop ?_ ?_
  · rw [hstate]
    exact hmemory.install hq (canonical_of_normalizeVoters hvalid.1.1.1.1) hvoters hold'
      (hs.applied.jointNew_eq_nil hold') hs.entries
  · rw [← hrun]
    cases ok
    · exact .inl rfl
    · exact .inr rfl

lemma replica_bootstrap : Replica epoch [] [] (.bootstrap epoch) :=
  ⟨⟨rfl, le_rfl, rfl, rfl, le_rfl, le_rfl⟩, by simp, .inl rfl, rfl, _, rfl, rfl, rfl, rfl⟩

lemma Reachable.inv (hrange : epoch < 2 ^ 64) (h : Reachable epoch SnapshotFits c) :
    Inv epoch c ∧ epoch ≠ 0 := by
  induction h with
  | opened hopen =>
    rw [openRaftStore.eq_def] at hopen
    split at hopen
    · simp at hopen
    rename_i hvalid
    simp only [not_or, not_not] at hvalid
    cases hopen
    exact ⟨⟨⟨hvalid.1, .bootstrap hrange, .bootstrap hrange⟩, ⟨[], replica_bootstrap⟩,
      ⟨[], replica_bootstrap⟩⟩, hvalid.2⟩
  | @call c call r _ hins hreopen hrun ih =>
    refine ⟨?_, ih.2⟩
    cases hcompact : call.isCompact with
    | false =>
      rcases StoreCall.edits ih.1.reopens.state.indexed hins hcompact hrun with hedits | rfl
      · exact ih.1.edits hedits
      · exact absurd rfl hreopen
    | true =>
      obtain ⟨ok, rfl⟩ := StoreCall.eq_compactCommitted hcompact
      exact ih.1.compact (Option.some.inj hrun)
  | reopen _ hrun ih =>
    have hopen := StoreCall.run_reopen hrun
    rw [ih.1.reopens.openRaftStore ih.2, Except.ok.injEq] at hopen
    subst hopen
    exact ⟨⟨⟨ih.1.reopens.nodeID, ih.1.reopens.file, ih.1.reopens.file⟩, ih.1.file, ih.1.file⟩, ih.2⟩
  | install _ _ hsnapshot hfits hrun ih ihleader =>
    exact ⟨ih.1.install ihleader.1 hsnapshot hfits hrun, ih.2⟩

end Chronicle

/-! ### Sending the entries behind a snapshot -/

/-- The request for it. -/
def LogBatch.request (b : LogBatch) (leaderID : GoString) : AppendEntriesRequest :=
  ⟨b.term, leaderID, b.prevIndex, b.prevTerm, b.entries, b.commitIndex⟩

/-- The loop of `replicatePeer` for a peer that does not need a snapshot: batches are sent until
the peer has the leader's log or does not take one.  The stores that got a batch, and the store
at the end. -/
def sendEntries (leader : RaftPersistentState) (leaderID : GoString) (limit : ℕ) :
    ℕ → ℕ → RaftStore → List RaftStore × RaftStore
  | 0, _, r => ([], r)
  | rounds + 1, next, r =>
    match leader.logBatch next limit with
    | .error _ => ([], r)
    | .ok b =>
      match r.appendEntries (b.request leaderID) true with
      | (.error _, r') => ([r], r')
      | (.ok y, r') =>
        if y.success ∧ y.matchIndex < leader.lastLogLocked.1 then
          let rest := sendEntries leader leaderID limit rounds (y.matchIndex + 1) r'
          (r :: rest.1, rest.2)
        else ([r], r')

/-- The leader may be listened to. -/
def RaftPersistentState.welcomes (s : RaftPersistentState) (leaderID : GoString) : Prop :=
  s.voters = [] ∨ containsString s.activeVotersLocked leaderID = true
deriving Decidable

/-- The state `s` holds the first `j` entries of the leader's log `ℓ` and can take more from
behind `prev`. -/
structure Behind (ℓ : List RaftEntry) (leader : RaftPersistentState) (prev j : ℕ)
    (s : RaftPersistentState) : Prop where
  holds : Holds ⟨leader.currentTerm, ℓ.take j⟩ s
  le : j ≤ ℓ.length
  prev_le : prev ≤ j
  snapshot_le : s.snapshotIndex ≤ prev
  commit_le : s.commitIndex ≤ leader.commitIndex

lemma conform_take {ℓ : List RaftEntry} {j : ℕ} (hi : i ≤ ℓ.length) : Sys.conform (ℓ.take j) (ℓ.take i) = ℓ.take (max j i) := by
  rw [Sys.conform]
  split_ifs with hpre
  · have hlen := hpre.length_le
    rw [length_take, length_take] at hlen
    rcases Nat.le_total i j with hij | hij
    · rw [Nat.max_eq_left hij]
    · rw [Nat.max_eq_right hij, take_eq_take_iff]
      omega
  · rcases Nat.le_total i j with hij | hij
    · exact absurd (take_prefix_take_left hij) hpre
    · rw [Nat.max_eq_right hij]

lemma appendLoop_behind {ℓ : List RaftEntry} (hvalid : ∀ e ∈ ℓ, ValidEntry e) (commit : ℕ)
    {snap m j : ℕ} (hsnap : snap ≤ i) (hi : i ≤ j) (hm : i + m ≤ ℓ.length) :
    appendLoop commit snap (i + 1) ((ℓ.drop i).take m) ((ℓ.take j).drop snap) =
      (.ok (), (ℓ.take (max j (i + m))).drop snap) := by
  have hsame : ∀ (k : ℕ) (d e : RaftEntry), (ℓ.take j)[k]? = some d → ℓ[k]? = some e → d = e := by
    intro k d e hd he
    rw [getElem?_of_isPrefix (List.take_prefix _ _) hd] at he
    exact Option.some.inj he
  rcases appendLoop_spec hvalid (fun k d e hd he _ => hsame k d e hd he) hsnap
    (take_prefix_take_left hi) hm rfl with ⟨hx, hlog⟩ | ⟨-, -, k, d, e, hd, he, hne⟩
  · rw [conform_take hm] at hlog
    exact Prod.ext hx hlog
  · exact absurd (congrArg RaftEntry.term (hsame k d e hd he)) hne

lemma take_drop_take {α : Type} (ℓ : List α) {c t j : ℕ} (ht : t ≤ j) :
    ((ℓ.take j).drop c).take (t - c) = (ℓ.drop c).take (t - c) := by
  rw [drop_take, take_take, Nat.min_eq_left (by omega)]

variable {a b : Applied} {got : List RaftStore} {r' : RaftStore}

section

variable {epoch : ℕ} {V : List GoString} {ℓ : List RaftEntry} {leader s : RaftPersistentState}
  {leaderID : GoString} {prev j limit : ℕ} {r : RaftStore}

lemma Replica.logBatch (h : Replica epoch V ℓ leader) (hsnap : leader.snapshotIndex ≤ prev)
    (hprev : prev ≤ ℓ.length) (hlimit : 1 ≤ limit ∧ limit ≤ 1024) :
    leader.logBatch (prev + 1) limit = .ok ⟨leader.currentTerm, leader.commitIndex, prev,
      termAt RaftEntry.term ℓ prev, (ℓ.drop prev).take limit⟩ := by
  have hlast : leader.lastLogLocked.1 = ℓ.length := h.holds.lastIndex
  have hterm : leader.termAtLocked prev = .ok (termAt RaftEntry.term ℓ prev) :=
    h.holds.termAtLocked_eq_ok.2 ⟨hsnap, hprev, rfl⟩
  have hdrop : leader.entries.drop (prev + 1 - leader.snapshotIndex - 1) = ℓ.drop prev := by
    rw [h.holds.entries, drop_drop]
    congr 1
    omega
  rw [RaftPersistentState.logBatch, if_neg (by omega), Nat.add_sub_cancel, hterm, hdrop]

lemma Behind.grow (h : Behind ℓ leader prev j s) {k : ℕ} (hj : j ≤ k) (hk : k ≤ ℓ.length) :
    Behind ℓ leader prev k { s with entries := (ℓ.take k).drop s.snapshotIndex } := by
  have hjl := length_take_of_le h.le
  have hkl := length_take_of_le hk
  have hsnap := h.holds.snapshot_le
  have hcommit := h.holds.commit_le
  simp only at hsnap hcommit
  refine ⟨⟨h.holds.term, ?_, rfl, ?_, h.holds.snapshot_commit, ?_⟩, hk, h.prev_le.trans hj,
    h.snapshot_le, h.commit_le⟩
  · simp only
    omega
  · change s.snapshotTerm = termAt RaftEntry.term (ℓ.take k) s.snapshotIndex
    rw [h.holds.snapshotTerm, termAt_of_isPrefix (take_prefix_take_left hj) hsnap]
  · simp only
    omega

lemma Behind.matchesPrevious (h : Behind ℓ leader prev j s) {entries : List RaftEntry} :
    matchesPrevious s ⟨leader.currentTerm, leaderID, prev, termAt RaftEntry.term ℓ prev,
      entries, leader.commitIndex⟩ := by
  have hlen := length_take_of_le h.le
  rw [matchesPrevious_iff]
  refine ⟨h.snapshot_le, ?_, ?_⟩
  · rw [h.holds.lastIndex, hlen]
    exact h.prev_le
  · refine h.holds.termAtLocked_eq_ok.2 ⟨h.snapshot_le, hlen.symm ▸ h.prev_le, ?_⟩
    exact termAt_of_isPrefix (List.take_prefix _ _) (hlen.symm ▸ h.prev_le)

/-- A follower that does not listen to the leader answers and stays as it is. -/
lemma appendEntries_unwelcome {q : AppendEntriesRequest} (hid : validNodeID q.leaderID)
    (hterm : q.term ≠ 0) (hno : ¬ r.state.welcomes q.leaderID) :
    r.appendEntries q true = (.ok ⟨r.state.currentTerm, false, 0⟩, r) := by
  rw [RaftPersistentState.welcomes, not_or] at hno
  rw [appendEntries, if_neg (by simp [hid, hterm]), if_pos hno]

/-- One batch: the follower's log grows, and as much of it is applied as the leader has
committed, or nothing. -/
lemma Behind.append (h : Behind ℓ leader prev j r.state) (hvalid : ∀ e ∈ ℓ, ValidEntry e)
    (hid : validNodeID leaderID) (hterm : leader.currentTerm ≠ 0)
    (hwel : r.state.welcomes leaderID) {n : ℕ} (hn : n ≤ 1024) (hend : prev + n ≤ ℓ.length)
    (htgt : target = min leader.commitIndex (max j (prev + n)))
    {call : Except RaftError AppendEntriesResponse × RaftStore}
    (hcall : r.appendEntries ⟨leader.currentTerm, leaderID, prev, termAt RaftEntry.term ℓ prev,
      (ℓ.drop prev).take n, leader.commitIndex⟩ true = call) :
    (∃ err s', r.state.applied.applyAll ((ℓ.drop r.state.commitIndex).take
          (target - r.state.commitIndex)) = .error err ∧
        s'.applied = r.state.applied ∧ call = (.error err, { r with state := s' })) ∨
      ∃ s', r.state.applied.applyAll ((ℓ.drop r.state.commitIndex).take
          (target - r.state.commitIndex)) = .ok s'.applied ∧
        s'.commitIndex = target ∧ Behind ℓ leader (prev + n) (max j (prev + n)) s' ∧
        call = (.ok ⟨leader.currentTerm, true, prev + n⟩, ⟨r.nodeID, s', s'⟩) := by
  have hlenj := length_take_of_le h.le
  have hk : max j (prev + n) ≤ ℓ.length := Nat.max_le.2 ⟨h.le, hend⟩
  have hlenk := length_take_of_le hk
  have hcommitj : r.state.commitIndex ≤ j := hlenj ▸ h.holds.commit_le
  have hcommit := h.commit_le
  have hsnap := h.snapshot_le
  have hcur : r.state.currentTerm = leader.currentTerm := h.holds.term
  have hgrow := h.grow (Nat.le_max_left j (prev + n)) hk
  have hloop := appendLoop_behind hvalid r.state.commitIndex h.snapshot_le h.prev_le hend
  rw [← show r.state.entries = (ℓ.take j).drop r.state.snapshotIndex from h.holds.entries] at hloop
  rw [RaftPersistentState.welcomes] at hwel
  rw [appendEntries, if_neg (by simp [hid, hterm]),
    if_neg (by rintro ⟨hne, hno⟩; exact hwel.elim hne (fun hyes => hno hyes)),
    if_neg (by simp only [length_take]; omega), if_neg (by simp only; omega)] at hcall
  simp only [RaftPersistentState.withTerm_of_le hcur.ge] at hcall
  rw [if_neg (not_not.2 h.matchesPrevious), hloop] at hcall
  simp only at hcall
  generalize hs₁ : ({ r.state with
    entries := (ℓ.take (max j (prev + n))).drop r.state.snapshotIndex } : RaftPersistentState) = s₁
    at hgrow hcall
  have happ₁ : s₁.applied = r.state.applied := by rw [← hs₁]; rfl
  have hcommit₁ : s₁.commitIndex = r.state.commitIndex := by rw [← hs₁]
  have hsnap₁ : s₁.snapshotIndex = r.state.snapshotIndex := by rw [← hs₁]
  have hcur₁ : s₁.currentTerm = leader.currentTerm := hgrow.holds.term
  have hlast : s₁.lastLogLocked.1 = max j (prev + n) := by rw [hgrow.holds.lastIndex, hlenk]
  have htargetk : target ≤ (ℓ.take (max j (prev + n))).length := by
    rw [hlenk]
    omega
  have happly := hgrow.holds.applyThrough_eq htargetk
  rw [take_drop_take ℓ (hlenk ▸ htargetk), happ₁, hcommit₁] at happly
  have hsize : ((ℓ.drop prev).take n).length = n := by
    rw [length_take, length_drop]
    omega
  rcases appendCommit_cases { r with state := s₁ } _ true with
    ⟨err, hlt, herr, hcommitcase⟩ | ⟨s', hs', hcommitcase⟩
  all_goals rw [hcommitcase] at hcall
  · -- the commit fails and the log stays
    simp only [hlast] at herr hlt
    rw [← htgt, happly] at herr
    exact .inl ⟨err, s₁, map_eq_error.1 herr, happ₁, hcall.symm⟩
  · right
    rw [persisted_true] at hcall
    simp only [hcur₁, hsnap₁, Nat.max_eq_left hsnap, hsize] at hcall
    rcases hs' with ⟨hle, rfl⟩ | ⟨hlt, hs'⟩
    · -- everything the leader has committed is applied
      simp only at hle
      refine ⟨s', ?_, by omega, ⟨hgrow.holds, hgrow.le, Nat.le_max_right _ _, by omega, by omega⟩,
        hcall.symm⟩
      rw [show target - r.state.commitIndex = 0 by omega, take_zero, happ₁]
      rfl
    · simp only [hlast] at hs'
      rw [← htgt] at hs'
      have hholds := hgrow.holds.applyThrough htargetk hs'
      rw [happly] at hs'
      obtain ⟨a, hall, rfl⟩ := map_eq_ok.1 hs'
      have hindex : a.commitIndex = target := by
        rw [applyAll_commitIndex hall, length_take, length_drop]
        change r.state.commitIndex + _ = _
        omega
      refine ⟨s₁.withApplied a, hall, hindex, ⟨hholds, hgrow.le, Nat.le_max_right _ _, ?_, ?_⟩,
        hcall.symm⟩
      · change s₁.snapshotIndex ≤ prev + n
        omega
      · change a.commitIndex ≤ leader.commitIndex
        omega

lemma applyAll_take_add {c : Applied} {k : ℕ} (hi : a.commitIndex ≤ i) (hk : i ≤ k)
    (hb : a.applyAll ((ℓ.drop a.commitIndex).take (i - a.commitIndex)) = .ok b)
    (hc : b.applyAll ((ℓ.drop i).take (k - i)) = .ok c) :
    a.applyAll ((ℓ.drop a.commitIndex).take (k - a.commitIndex)) = .ok c := by
  rw [take_drop_add hi hk]
  exact applyAll_append_eq_ok.2 ⟨b, hb, hc⟩

/-- What the whole exchange makes of what the follower has applied: it applies the leader's log
up to some index.  It gets as far as the leader unless an entry cannot be applied or the
follower stops listening. -/
structure Sent (ℓ : List RaftEntry) (leader s : RaftPersistentState) (leaderID : GoString)
    (got : List RaftStore) (r' : RaftStore) (i : ℕ) : Prop where
  le : s.commitIndex ≤ i
  bound : i ≤ leader.commitIndex
  applied : s.applied.applyAll ((ℓ.drop s.commitIndex).take (i - s.commitIndex)) =
    .ok r'.state.applied
  welcome : ∀ x ∈ got, x.state.welcomes leaderID ∨ x = r'
  ended : i = leader.commitIndex ∨ (∃ err, s.applied.applyAll ((ℓ.drop s.commitIndex).take
      (leader.commitIndex - s.commitIndex)) = .error err) ∨ r' ∈ got ∧ ¬ r'.state.welcomes leaderID

lemma sendEntries_spec (hleader : Replica epoch V ℓ leader) (hid : validNodeID leaderID)
    (hterm : leader.currentTerm ≠ 0) (hlimit : 1 ≤ limit ∧ limit ≤ 1024) {rounds : ℕ}
    (h : Behind ℓ leader prev j r.state) (hprev : leader.snapshotIndex ≤ prev)
    (hrounds : ℓ.length < prev + rounds)
    (hsend : sendEntries leader leaderID limit rounds (prev + 1) r = (got, r')) :
    ∃ i, Sent ℓ leader r.state leaderID got r' i := by
  induction rounds generalizing prev j r got r' with
  | zero =>
    have := h.prev_le
    have := h.le
    omega
  | succ rounds ih =>
    have hprevle : prev ≤ ℓ.length := h.prev_le.trans h.le
    have hlast : leader.lastLogLocked.1 = ℓ.length := hleader.holds.lastIndex
    have hcommitl : leader.commitIndex ≤ ℓ.length := hleader.holds.commit_le
    -- nothing more is applied
    have hstay : ∀ {r' : RaftStore}, r'.state.applied = r.state.applied →
        r.state.applied.applyAll ((ℓ.drop r.state.commitIndex).take
          (r.state.commitIndex - r.state.commitIndex)) = .ok r'.state.applied := by
      intro r' hsame
      rw [Nat.sub_self, take_zero, hsame]
      rfl
    rw [sendEntries, hleader.logBatch hprev hprevle hlimit] at hsend
    simp only [LogBatch.request] at hsend
    by_cases hwel : r.state.welcomes leaderID
    swap
    · rw [appendEntries_unwelcome hid hterm hwel] at hsend
      simp only [Bool.false_eq_true, false_and, if_false, Prod.mk.injEq] at hsend
      obtain ⟨rfl, rfl⟩ := hsend
      exact ⟨_, le_rfl, h.commit_le, hstay rfl, by simp, .inr (.inr ⟨by simp, hwel⟩)⟩
    -- the batch is as long as the limit allows and the log goes on
    obtain ⟨n, hn, hbatch⟩ : ∃ n, n = min limit (ℓ.length - prev) ∧
        (ℓ.drop prev).take limit = (ℓ.drop prev).take n := by
      refine ⟨_, rfl, ?_⟩
      rw [← length_drop, take_eq_take_min]
    rw [hbatch] at hsend
    generalize hcall : r.appendEntries ⟨leader.currentTerm, leaderID, prev,
      termAt RaftEntry.term ℓ prev, (ℓ.drop prev).take n, leader.commitIndex⟩ true = call at hsend
    obtain ⟨i, hi⟩ : ∃ i, i = min leader.commitIndex (max j (prev + n)) := ⟨_, rfl⟩
    have hjle := h.le
    have hcommit := h.commit_le
    have hcommitj : r.state.commitIndex ≤ j := by
      have := h.holds.commit_le
      rw [length_take] at this
      omega
    rcases h.append hleader.valid hid hterm hwel (by omega) (by omega) hi hcall with
      ⟨err, s', herr, hsame, rfl⟩ | ⟨s', hs', hindex, hbehind, rfl⟩
    · simp only [Prod.mk.injEq] at hsend
      obtain ⟨rfl, rfl⟩ := hsend
      refine ⟨_, le_rfl, hcommit, hstay hsame, fun x hx => .inl ?_, .inr (.inl ?_)⟩
      · rw [mem_singleton.1 hx]
        exact hwel
      · -- what stops the batch stops the whole
        cases hall : r.state.applied.applyAll ((ℓ.drop r.state.commitIndex).take
            (leader.commitIndex - r.state.commitIndex)) with
        | error err => exact ⟨err, rfl⟩
        | ok a =>
          obtain ⟨b, hb⟩ := applyAll_of_prefix hall
            (take_prefix_take_left (show i - r.state.commitIndex ≤ _ by omega))
          rw [hb] at herr
          simp at herr
    · simp only [hlast, true_and] at hsend
      split_ifs at hsend with hlt
      · simp only [Prod.mk.injEq] at hsend
        obtain ⟨rfl, hr'⟩ := hsend
        obtain ⟨k, hk, hkle, hall, hgot, hend⟩ := ih (r := ⟨r.nodeID, s', s'⟩) hbehind
          (by omega) (by omega) (show _ = (_, r') from Prod.ext rfl hr')
        simp only [hindex] at hk hall hend
        refine ⟨k, by omega, hkle, applyAll_take_add (a := r.state.applied)
          (show r.state.commitIndex ≤ i by omega) hk hs' hall,
          forall_mem_cons.2 ⟨.inl hwel, hgot⟩, ?_⟩
        rcases hend with hend | ⟨err, herr⟩ | ⟨hmem, hno⟩
        · exact .inl hend
        · refine .inr (.inl ⟨err, ?_⟩)
          rw [take_drop_add (show r.state.commitIndex ≤ i by omega) (by omega), applyAll,
            foldlM_append, ← applyAll, hs']
          exact herr
        · exact .inr (.inr ⟨mem_cons_of_mem _ hmem, hno⟩)
      · simp only [Prod.mk.injEq] at hsend
        obtain ⟨rfl, rfl⟩ := hsend
        refine ⟨i, by omega, by omega, hs', fun x hx => .inl ?_, .inl ?_⟩
        · rw [mem_singleton.1 hx]
          exact hwel
        · omega

/-! ### Snapshot plus suffix -/

/-- The same is applied. -/
def SameMetadata (s s' : RaftPersistentState) : Prop :=
  s.appliedEpoch = s'.appliedEpoch ∧ s.committedView = s'.committedView ∧ s.voters = s'.voters ∧
    s.jointOldVoters = s'.jointOldVoters ∧ s.jointNewVoters = s'.jointNewVoters
deriving Decidable

lemma SameMetadata.of_applied {s' : RaftPersistentState}
    (h : s'.applied = { s.applied with commitIndex := i }) : SameMetadata s s' :=
  ⟨(congrArg appliedEpoch h).symm, (congrArg committedView h).symm,
    (congrArg voters h).symm, (congrArg jointOld h).symm,
    (congrArg jointNew h).symm⟩

lemma Sound.founded (hrange : epoch < 2 ^ 64) (hV : V = [] ∨ Canonical V) :
    Sound epoch (founded epoch V) :=
  ⟨⟨hrange, .inl ⟨rfl, rfl⟩⟩, hV, .inl ⟨rfl, rfl⟩⟩

lemma sameMetadata_iff (hrange : epoch < 2 ^ 64) (hleader : Replica epoch V ℓ leader)
    (hstab : leader.jointOldVoters = [])
    (hb : (founded epoch V).applyAll (ℓ.take s.commitIndex) = .ok b)
    (hs : s.applied = { b with voters := s.voters }) (h : Sent ℓ leader s leaderID got r' i) :
    SameMetadata r'.state leader ↔
      VotersFit s.voters ((ℓ.drop s.commitIndex).take (leader.commitIndex - s.commitIndex))
        leader.voters ∧
      ∀ x ∈ got, x.state.welcomes leaderID ∨ x.state.appliedEpoch = leader.appliedEpoch := by
  obtain ⟨hi, hile, happ, hgot, hend⟩ := h
  obtain ⟨b₀, hb₀, hall⟩ := hleader.applied_from (hi.trans hile)
  obtain rfl : b = b₀ := Except.ok.inj (hb.symm.trans hb₀)
  have hsplit := take_drop_add (ℓ := ℓ) hi hile
  rw [hs] at happ
  have hall' := hall
  rw [hsplit] at hall'
  obtain ⟨bi, hbi, hrest⟩ := applyAll_append_eq_ok.1 hall'
  have hr' := applyAll_eq_withVoters hbi happ
  have hfit := votersFit_append hbi hrest happ
  rw [← hsplit] at hfit
  have hepoch : r'.state.appliedEpoch = bi.appliedEpoch := congrArg appliedEpoch hr'
  -- once the epoch is the leader's, nothing that matters is left to apply
  have hsame : r'.state.appliedEpoch = leader.appliedEpoch →
      (∀ e ∈ (ℓ.drop i).take (leader.commitIndex - i), e.changes = false) ∧
        leader.applied = { bi with commitIndex := leader.commitIndex } := by
    intro heq
    have hvalid : ∀ {m : List RaftEntry}, (∀ e ∈ m, e ∈ ℓ) → ∀ e ∈ m, ValidEntry e :=
      fun hm e he => hleader.valid e (hm e he)
    have hsound : Sound epoch bi :=
      (((Sound.founded hrange hleader.canonical).applyAll
        (hvalid fun e he => mem_of_mem_take he) hb).applyAll
        (hvalid fun e he => mem_of_mem_drop (mem_of_mem_take he)) hbi)
    exact (hsound.applyAll_epoch (hvalid fun e he => mem_of_mem_drop (mem_of_mem_take he))
      hrest).2 (heq.symm.trans hepoch) hstab
  have hunchanged : r'.state.appliedEpoch = leader.appliedEpoch →
      (VotersFit s.voters ((ℓ.drop s.commitIndex).take (leader.commitIndex - s.commitIndex))
        leader.voters ↔ r'.state.voters = leader.voters) := by
    intro heq
    have hnone : ((ℓ.drop i).take (leader.commitIndex - i)).find? changes = none := by
      rw [List.find?_eq_none]
      exact fun e he => by simp [(hsame heq).1 e he]
    refine hfit.trans ?_
    rw [VotersFit, hnone]
    rfl
  constructor
  · intro hmeta
    refine ⟨(hunchanged hmeta.1).2 hmeta.2.2.1, fun x hx => (hgot x hx).imp id ?_⟩
    rintro rfl
    exact hmeta.1
  · rintro ⟨hvoters, hwel⟩
    have hdone : r'.state.appliedEpoch = leader.appliedEpoch → SameMetadata r'.state leader := by
      intro heq
      refine .of_applied (i := leader.commitIndex) ?_
      rw [(hsame heq).2, hr']
      change _ = { bi with commitIndex := leader.commitIndex, voters := r'.state.voters }
      rw [(hunchanged heq).1 hvoters,
        show leader.voters = bi.voters from congrArg voters (hsame heq).2]
    rcases hend with rfl | ⟨err, herr⟩ | ⟨hmem, hno⟩
    · -- everything was applied
      rw [Nat.sub_self, take_zero] at hrest
      refine hdone (hepoch.trans ?_)
      rw [Except.ok.inj hrest]
      rfl
    · rw [hs] at herr
      rcases applyAll_cases hall s.voters with ⟨-, h⟩ | ⟨hno, -⟩ | ⟨hno, -⟩
      · rw [h] at herr
        simp at herr
      · exact absurd hvoters hno
      · exact absurd hvoters hno
    · exact hdone ((hwel r' hmem).resolve_left hno)

/-- What a node without a membership change in progress applies, a node with one does not. -/
lemma not_apply_of_joint {a' b' : Applied} {e : RaftEntry} (he : ValidEntry e)
    (hb : b.jointOld = []) (ha : a.jointOld ≠ []) (hb' : b.apply e.command = .ok b') :
    a.apply e.command ≠ .ok a' := by
  intro ha'
  cases apply_eq_ok.1 hb' with
  | finalizes htype _ hold => exact (he.transition (.inr htype)).1.ne_nil (hold.trans hb)
  | advance htype | duplicate htype | begins htype =>
    cases apply_eq_ok.1 ha' with
    | advance _ hjoint | duplicate _ hjoint | begins _ hjoint => exact ha hjoint
    | finalizes htype' => simp [htype] at htype'

/-- A membership change in progress that no entry accounts for stays. -/
lemma jointOld_stays (hleader : Replica epoch V ℓ leader)
    (hb : (founded epoch V).applyAll (ℓ.take s.commitIndex) = .ok b) (hbj : b.jointOld = [])
    (hjoint : s.jointOldVoters ≠ []) (h : Sent ℓ leader s leaderID got r' i) :
    r'.state.jointOldVoters ≠ [] := by
  obtain ⟨hi, hile, happ, -, -⟩ := h
  obtain ⟨b₀, hb₀, hall⟩ := hleader.applied_from (hi.trans hile)
  obtain rfl : b = b₀ := Except.ok.inj (hb.symm.trans hb₀)
  cases hm : (ℓ.drop s.commitIndex).take (i - s.commitIndex) with
  | nil =>
    rw [hm] at happ
    have hsame := Except.ok.inj happ
    rwa [← show s.jointOldVoters = r'.state.jointOldVoters from congrArg jointOld hsame]
  | cons e m =>
    obtain ⟨c, hc⟩ := applyAll_of_prefix hall
      (take_prefix_take_left (show i - s.commitIndex ≤ _ by omega))
    rw [hm] at happ hc
    obtain ⟨a₁, ha₁, -⟩ := applyAll_cons_eq_ok.1 happ
    obtain ⟨b₁, hb₁, -⟩ := applyAll_cons_eq_ok.1 hc
    have he : e ∈ ℓ := by
      have : e ∈ (ℓ.drop s.commitIndex).take (i - s.commitIndex) := by simp [hm]
      exact mem_of_mem_drop (mem_of_mem_take this)
    exact absurd ha₁ (not_apply_of_joint (hleader.valid e he) hbj hjoint hb₁)

lemma installSnapshot_success {q : InstallSnapshotRequest} {ok : Bool} {y : AppendEntriesResponse}
    (h : r.installSnapshot q ok = (.ok y, r')) (hsucs : y.success) :
    validNodeID q.leaderID ∧ q.term ≠ 0 ∧ r.state.currentTerm ≤ q.term ∧
      (q.snapshot.lastIncludedIndex ≤ r.state.commitIndex ∧ y.matchIndex = r.state.commitIndex ∧
          r'.state = r.state.withTerm q.term ∨ r.state.commitIndex < q.snapshot.lastIncludedIndex ∧
          y.matchIndex = q.snapshot.lastIncludedIndex ∧
          r'.state = installed (r.state.withTerm q.term) q.snapshot) := by
  have hcommit : (r.state.withTerm q.term).commitIndex = r.state.commitIndex :=
    congrArg commitIndex (StoreSameLog.withTerm r.state q.term).applied
  have hguard : validNodeID q.leaderID ∧ q.term ≠ 0 := by
    rw [installSnapshot] at h
    simp only at h
    split at h
    · simp at h
    · rename_i hvalid
      simpa [not_or] using hvalid
  refine ⟨hguard.1, hguard.2, ?_⟩
  rcases r.installSnapshot_cases q ok with ⟨x, hx, hcall⟩ |
    ⟨hle, -, -, s, rfl, ⟨hcov, hcall⟩ | ⟨hlt, hcall⟩⟩ <;> rw [hcall] at h
  · have := hx y (Prod.mk.inj h).1
    simp [hsucs] at this
  all_goals
    refine ⟨hle, ?_⟩
    cases ok
    · simp [persisted_false] at h
    rw [persisted_true, Prod.mk.injEq, Except.ok.injEq] at h
    obtain ⟨rfl, rfl⟩ := h
  · exact .inl ⟨hcommit ▸ hcov, hcommit, rfl⟩
  · exact .inr ⟨hcommit ▸ hlt, rfl, rfl⟩

/-- **Snapshot plus suffix.**  What the leader has applied is the replay of its whole log.  A
follower whose log is a committed part of it installs the leader's snapshot and is sent the
entries behind it: it ends up with the same metadata if and only if the snapshot fits and the
follower listens to the leader as long as there is something to apply. -/
theorem snapshot_then_entries (hrange : epoch < 2 ^ 64) {leader follower : Chronicle}
    (hleader : Chronicle.Reachable epoch SnapshotFits leader)
    (hfollower : Chronicle.Reachable epoch SnapshotFits follower)
    {k : ℕ} (hk : k ≤ leader.store.state.commitIndex) (hlog : follower.log = leader.log.take k)
    (hstab : leader.store.state.jointOldVoters = [])
    {q : InstallSnapshotRequest} (hsnapshot : leader.store.state.snapshot = some q.snapshot)
    (hterm : q.term = leader.store.state.currentTerm)
    {ok : Bool} {y : AppendEntriesResponse} {r₁ : RaftStore}
    (hins : follower.store.installSnapshot q ok = (.ok y, r₁)) (hsucs : y.success = true)
    {limit : ℕ} (hlimit : 1 ≤ limit ∧ limit ≤ 1024) {prev : ℕ}
    (hprev : leader.store.state.snapshotIndex ≤ prev ∧ r₁.state.snapshotIndex ≤ prev ∧
      prev ≤ y.matchIndex)
    {got : List RaftStore} {r₂ : RaftStore}
    (hsend : sendEntries leader.store.state q.leaderID limit
      (leader.store.state.lastLogLocked.1 + 1) (prev + 1) r₁ = (got, r₂)) :
    (∃ voters, (founded epoch voters).applyAll
        (leader.log.take leader.store.state.commitIndex) = .ok leader.store.state.applied) ∧
      (SameMetadata r₂.state leader.store.state ↔
        SnapshotFits leader.store.state follower.store.state ∧
          ∀ x ∈ got, x.state.welcomes q.leaderID ∨
            x.state.appliedEpoch = leader.store.state.appliedEpoch) := by
  obtain ⟨V, hL⟩ := (hleader.inv hrange).1.memory
  obtain ⟨V', hF⟩ := (hfollower.inv hrange).1.memory
  have hreop := (hfollower.inv hrange).1.reopens.state
  refine ⟨⟨V, hL.applied⟩, ?_⟩
  obtain ⟨hid, hterm0, htermle, hcases⟩ := installSnapshot_success hins hsucs
  have hq := (Chronicle.snapshot_eq_some hsnapshot).2
  have hindex : q.snapshot.lastIncludedIndex = leader.store.state.snapshotIndex := by rw [hq]; rfl
  have hlterm : leader.store.state.currentTerm ≠ 0 := hterm ▸ hterm0
  have hcommitl : leader.store.state.commitIndex ≤ leader.log.length := hL.holds.commit_le
  have hlast : leader.store.state.lastLogLocked.1 = leader.log.length := hL.holds.lastIndex
  rw [hlog] at hF
  have hFlen : follower.store.state.commitIndex ≤ k := by
    have := hF.holds.commit_le
    rw [length_take] at this
    omega
  have hholds := hF.holds.withTerm (t := q.term) htermle
  rw [hterm] at hholds
  have hsame := StoreSameLog.withTerm follower.store.state q.term
  rw [hterm] at hsame
  have hcommit : (follower.store.state.withTerm leader.store.state.currentTerm).commitIndex =
      follower.store.state.commitIndex := congrArg commitIndex hsame.applied
  rcases hcases with ⟨hcov, hmatch, hstate⟩ | ⟨hlt, hmatch, hstate⟩ <;> rw [hterm] at hstate
  · -- the follower has committed what the snapshot covers
    rw [hindex] at hcov
    have hcommit₁ : r₁.state.commitIndex = follower.store.state.commitIndex := by rw [hstate, hcommit]
    have hvoters₁ : r₁.state.voters = follower.store.state.voters := by
      rw [hstate]
      exact congrArg voters hsame.applied
    have hbehind : Behind leader.log leader.store.state prev k r₁.state := by
      refine ⟨hstate ▸ hholds, by omega, by omega, hprev.2.1, by omega⟩
    obtain ⟨i, hsent⟩ := sendEntries_spec hL hid hlterm hlimit hbehind hprev.1 (by omega) hsend
    obtain ⟨b, hb, -⟩ := hL.applied_from (i := r₁.state.commitIndex) (by omega)
    have hFapplied := hF.applied
    rw [take_take, Nat.min_eq_left hFlen, ← hcommit₁] at hFapplied
    refine (sameMetadata_iff hrange hL hstab hb ?_ hsent).trans (and_congr_left' ?_)
    · have heq := applyAll_eq_withVoters (v := V') hb hFapplied
      rw [hstate, hsame.applied, heq]
      exact congrArg (fun v => { b with voters := v }) (congrArg voters hsame.applied).symm
    · rw [SnapshotFits, if_pos hcov, hL.committedAfter hcov, hvoters₁, hcommit₁]
  · -- the follower starts from the snapshot
    rw [hindex] at hlt hmatch
    obtain ⟨b, hb, hbeq, -⟩ := hL.at_snapshot
    have hcommit₁ : r₁.state.commitIndex = leader.store.state.snapshotIndex := by
      rw [hstate, ← hindex]
      rfl
    have hinst := hholds.install leader.log (q := q.snapshot)
      (fun i hi hi' _ => by
        simp only [length_take] at hi
        rw [take_take, Nat.min_eq_left (by omega)])
      (by rw [hindex]; exact hL.holds.snapshot_le)
      (by rw [hindex, hq]; exact hL.holds.snapshotTerm) (by omega)
    rw [hindex] at hinst
    simp only at hinst
    rw [conform_take hL.holds.snapshot_le] at hinst
    have hsc := hL.holds.snapshot_commit
    have hbehind : Behind leader.log leader.store.state prev
        (max k leader.store.state.snapshotIndex) r₁.state :=
      ⟨hstate ▸ hinst, by omega, by omega, hprev.2.1, by omega⟩
    obtain ⟨i, hsent⟩ := sendEntries_spec hL hid hlterm hlimit hbehind hprev.1 (by omega) hsend
    rw [← hcommit₁] at hb
    have hold₁ : r₁.state.jointOldVoters = follower.store.state.jointOldVoters := by
      rw [hstate]
      exact congrArg jointOld hsame.applied
    by_cases hjoint : follower.store.state.jointOldVoters = []
    · have hnew₁ : r₁.state.jointNewVoters = [] := by
        rw [hstate, ← hreop.applied.jointNew_eq_nil hjoint]
        exact congrArg jointNew hsame.applied
      have hvoters₁ : r₁.state.voters = leader.store.state.voters := by
        rw [hstate, hq]
        rfl
      refine (sameMetadata_iff hrange hL hstab hb ?_ hsent).trans (and_congr_left' ?_)
      · rw [RaftPersistentState.applied, hold₁, hjoint, hnew₁, hcommit₁, hbeq, hvoters₁, hstate, hq]
        rfl
      · rw [SnapshotFits, if_neg (by omega), hL.committedAfter le_rfl, hvoters₁, hcommit₁]
        exact (and_iff_right hjoint).symm
    · have hstays := jointOld_stays hL hb (hbeq ▸ rfl) (hold₁ ▸ hjoint) hsent
      refine iff_of_false (fun hmeta => hstays (hmeta.2.2.2.1.trans hstab)) ?_
      rintro ⟨hfit, -⟩
      rw [SnapshotFits, if_neg (by omega)] at hfit
      exact hjoint hfit.1

end

/-- Call by call. -/
def Chronicle.run (bootstrapEpoch : ℕ) : Chronicle → List StoreCall → Option Chronicle
  | c, [] => some c
  | c, call :: calls =>
    (call.run bootstrapEpoch c.store).bind fun r => run bootstrapEpoch (c.next c.log r) calls

lemma Chronicle.Reachable.run {allowed : RaftPersistentState → RaftPersistentState → Prop}
    {c c' : Chronicle} (h : Reachable epoch allowed c) {calls : List StoreCall}
    (hcalls : ∀ call ∈ calls, call.isInstall = false ∧ call ≠ .reopen)
    (hrun : Chronicle.run epoch c calls = some c') : Reachable epoch allowed c' := by
  induction calls generalizing c with
  | nil =>
    cases hrun
    exact h
  | cons call calls ih =>
    obtain ⟨r, hr, hrun⟩ := Option.bind_eq_some_iff.1 hrun
    obtain ⟨hins, hreopen⟩ := hcalls call (by simp)
    exact ih (.call h hins hreopen hr) (fun d hd => hcalls d (by simp [hd])) hrun

def freshChronicle (digit : UInt8) : Chronicle := ⟨freshStore digit, [], []⟩

def commitCalls (index epoch : ℕ) : List StoreCall :=
  [.appendCommand 1 (sampleAdvance epoch 8) true,
    .commitWithVoterAcks index 1 [sampleNode 1, sampleNode 2, sampleNode 3] true]

/-- Node 4 is admitted, the log is compacted, and a command follows. -/
def changeThenCompact : List StoreCall :=
  [.configureVoters threeVoters true, .beginElection true] ++
    transitionCalls 1 1 threeVoters fourVoters ++ [.compactCommitted true] ++ commitCalls 3 3

/-- The log is compacted after a command, and node 4 is admitted. -/
def compactThenChange : List StoreCall :=
  [.configureVoters threeVoters true, .beginElection true] ++ commitCalls 1 2 ++
    [.compactCommitted true] ++ transitionCalls 2 2 threeVoters fourVoters

def admissionSnapshot : InstallSnapshotRequest :=
  ⟨1, sampleNode 1, ⟨2, 1, 2, fourVoters, some (sampleView 7)⟩⟩

theorem snapshot_then_entries_admitted :
    ∃ leader r₁ got r₂, Chronicle.Reachable 1 SnapshotFits leader ∧ leader.log.length = 3 ∧
      leader.store.state.snapshot = some admissionSnapshot.snapshot ∧
      (freshStore 4).installSnapshot admissionSnapshot true = (.ok ⟨1, true, 2⟩, r₁) ∧
      sendEntries leader.store.state (sampleNode 1) 128 4 3 r₁ = (got, r₂) ∧
      SameMetadata r₂.state leader.store.state := by
  obtain ⟨leader, hrun, hfacts⟩ := Option.map_eq_some_iff.1
    (show (Chronicle.run 1 (freshChronicle 1) changeThenCompact).map (fun leader =>
        (leader.store.state.snapshot, decide (leader.log.length = 3 ∧
          leader.store.state.currentTerm = 1 ∧ leader.store.state.jointOldVoters = [] ∧
          leader.store.state.lastLogLocked.1 = 3 ∧
          SnapshotFits leader.store.state (freshStore 4).state ∧
          ∀ x ∈ (sendEntries leader.store.state (sampleNode 1) 128 4 3
            ((freshStore 4).installSnapshot admissionSnapshot true).2).1,
            x.state.welcomes (sampleNode 1)))) =
      some (some admissionSnapshot.snapshot, true) by decide +kernel)
  simp only [Prod.mk.injEq, decide_eq_true_eq] at hfacts
  obtain ⟨hsnapshot, hlen, hterm, hstab, hlast, hfits, hwel⟩ := hfacts
  have hopen : ∀ digit, openRaftStore (sampleNode digit) 1 none true = .ok (freshStore digit) →
      Chronicle.Reachable 1 SnapshotFits (freshChronicle digit) := fun digit h => .opened h
  have hleader : Chronicle.Reachable 1 SnapshotFits leader :=
    (hopen 1 (by decide +kernel)).run
      (by simp [changeThenCompact, transitionCalls, commitCalls, StoreCall.isInstall]) hrun
  have hins : (freshStore 4).installSnapshot admissionSnapshot true =
      (.ok ⟨1, true, 2⟩, ((freshStore 4).installSnapshot admissionSnapshot true).2) := by
    decide +kernel
  have hle : ((freshStore 4).installSnapshot admissionSnapshot true).2.state.snapshotIndex ≤ 2 := by
    decide +kernel
  have hsnapIndex : leader.store.state.snapshotIndex = 2 :=
    (congrArg RaftSnapshot.lastIncludedIndex (Chronicle.snapshot_eq_some hsnapshot).2).symm
  generalize ((freshStore 4).installSnapshot admissionSnapshot true).2 = r₁ at hins hle hwel
  obtain ⟨got, r₂, hsend⟩ : ∃ got r₂,
      sendEntries leader.store.state (sampleNode 1) 128 4 3 r₁ = (got, r₂) := ⟨_, _, rfl⟩
  rw [hsend] at hwel
  refine ⟨leader, r₁, got, r₂, hleader, hlen, hsnapshot, hins, hsend, ?_⟩
  refine (snapshot_then_entries (by decide) hleader (hopen 4 (by decide +kernel)) (k := 0)
    (Nat.zero_le _) rfl hstab hsnapshot hterm.symm hins rfl (show 1 ≤ 128 ∧ 128 ≤ 1024 by decide)
    (show leader.store.state.snapshotIndex ≤ 2 ∧ r₁.state.snapshotIndex ≤ 2 ∧ 2 ≤ 2 from
      ⟨hsnapIndex.le, hle, le_rfl⟩) (by rw [hlast]; exact hsend)).2.2 ?_
  exact ⟨hfits, fun x hx => .inl (hwel x hx)⟩

/-- Node 4 installs the snapshot, whose voters are those after its admission, and then cannot
apply the entry that begins its admission. -/
theorem snapshot_hides_voters :
    ∃ leader r₁ r₂, Chronicle.Reachable 1 SnapshotFits leader ∧
      Chronicle.Reachable 1 SnapshotFits (freshChronicle 4) ∧
      (freshChronicle 4).log = leader.log.take 0 ∧ leader.store.state.jointOldVoters = [] ∧
      leader.store.state.snapshot = some ⟨1, 1, 2, fourVoters, some (sampleView 8)⟩ ∧
      (freshStore 4).installSnapshot
          ⟨1, sampleNode 1, ⟨1, 1, 2, fourVoters, some (sampleView 8)⟩⟩ true =
        (.ok ⟨1, true, 1⟩, r₁) ∧
      r₁.appendEntries ⟨1, sampleNode 1, 1, 1, leader.store.state.entries,
          leader.store.state.commitIndex⟩ true =
        (.error (.text "invalid joint-consensus begin"), r₂) ∧
      ¬ SameMetadata r₂.state leader.store.state := by
  obtain ⟨leader, hrun, hfacts⟩ := Option.map_eq_some_iff.1
    (show (Chronicle.run 1 (freshChronicle 1) compactThenChange).map (fun leader =>
        let r₁ := ((freshStore 4).installSnapshot
          ⟨1, sampleNode 1, ⟨1, 1, 2, fourVoters, some (sampleView 8)⟩⟩ true).2
        let call := r₁.appendEntries ⟨1, sampleNode 1, 1, 1, leader.store.state.entries,
          leader.store.state.commitIndex⟩ true
        (leader.store.state.jointOldVoters, leader.store.state.snapshot, call.1,
          decide (SameMetadata call.2.state leader.store.state))) =
      some ([], some ⟨1, 1, 2, fourVoters, some (sampleView 8)⟩,
        .error (.text "invalid joint-consensus begin"), false) by decide +kernel)
  simp only [Prod.mk.injEq, decide_eq_false_iff_not] at hfacts
  obtain ⟨hstab, hsnapshot, herr, hdiff⟩ := hfacts
  refine ⟨leader, _, _, .run (c := freshChronicle 1)
    (@Chronicle.Reachable.opened _ _ (sampleNode 1) _ (by decide +kernel))
    (by simp [compactThenChange, transitionCalls, commitCalls, StoreCall.isInstall]) hrun,
    @Chronicle.Reachable.opened _ _ (sampleNode 4) _ (by decide +kernel), rfl, hstab, hsnapshot,
    Prod.ext (by decide +kernel) rfl, Prod.ext herr rfl, hdiff⟩

end GideonDB.Cluster
