/-
Applied metadata as a function of the log.

`applyThroughLocked` applies entries one by one, so what a node has applied is the result of
applying its log up to the commit index to the founding metadata (`Applied.applyAll`).  A node
that joined later started without voters; `Joined` is how what it applied can differ.

Voter sets take effect when they are applied.  `configuration` reads the voters off the log
instead, at the last finalize entry.  A log is `Orderly` if membership changes follow each
other as `ChangeVoters` makes them, and `Lags` says how far what is applied may stay behind;
together they give that a quorum under what is applied is a majority of the configuration
(`voterMajority_configuration`).
-/
import GideonDB.Go.Loop
import Mathlib.Data.List.Induction
import GideonDB.Cluster.RaftLog

namespace GideonDB.Cluster

open Go Consensus Applied List

/-! ### Applying lists of entries -/

/-- Applies the entries in order. -/
def Applied.applyAll (a : Applied) (entries : List RaftEntry) : Except RaftError Applied :=
  entries.foldlM (fun a entry => a.apply entry.command) a

/-- With this applied. -/
def RaftPersistentState.withApplied (s : RaftPersistentState) (a : Applied) : RaftPersistentState :=
  { s with
    commitIndex := a.commitIndex
    appliedEpoch := a.appliedEpoch
    committedView := a.committedView
    voters := a.voters
    jointOldVoters := a.jointOld
    jointNewVoters := a.jointNew }

namespace Applied

variable {a b c : Applied} {p q : List RaftEntry} {e : RaftEntry}

@[simp] lemma applyAll_nil : a.applyAll [] = .ok a := rfl

lemma applyAll_cons_eq_ok :
    a.applyAll (e :: p) = .ok c ↔ ∃ b, a.apply e.command = .ok b ∧ b.applyAll p = .ok c :=
  foldlM_cons_eq_ok

lemma applyAll_append_eq_ok :
    a.applyAll (p ++ q) = .ok c ↔ ∃ b, a.applyAll p = .ok b ∧ b.applyAll q = .ok c := by
  rw [applyAll, foldlM_append, bind_eq_ok]
  rfl

lemma applyAll_singleton_eq_ok : a.applyAll [e] = .ok b ↔ a.apply e.command = .ok b := by
  simp [applyAll_cons_eq_ok]

lemma applyAll_of_prefix (h : a.applyAll q = .ok c) (hp : p <+: q) : ∃ b, a.applyAll p = .ok b := by
  obtain ⟨r, rfl⟩ := hp
  obtain ⟨b, hb, -⟩ := applyAll_append_eq_ok.1 h
  exact ⟨b, hb⟩

lemma applyAll_commitIndex (h : a.applyAll p = .ok b) :
    b.commitIndex = a.commitIndex + p.length := by
  induction p generalizing a with
  | nil => simp [Except.ok.inj h]
  | cons e p ih =>
    obtain ⟨a₁, ha₁, h⟩ := applyAll_cons_eq_ok.1 h
    rw [ih h, apply_commitIndex ha₁, length_cons]
    omega

end Applied

variable {index : ℕ}

lemma applyLoop_eq_applyAll {entries : List RaftEntry} {rounds : ℕ} {a : Applied}
    (h : rounds = 0 ∨ index + rounds ≤ entries.length) :
    applyLoop entries rounds index a = a.applyAll ((entries.drop index).take rounds) := by
  induction rounds generalizing index a with
  | zero => rfl
  | succ rounds ih =>
    have hlt : index < entries.length := by omega
    rw [applyLoop, getElem?_eq_getElem hlt, drop_eq_getElem_cons hlt, take_succ_cons,
      applyAll, foldlM_cons]
    simp only
    cases ha : a.apply entries[index].command with
    | error err => rfl
    | ok a' => exact ih (by omega)

variable {s : RaftPersistentState}

/-- `applyThroughLocked` in terms of the full log. -/
lemma Holds.applyThrough_eq {c : Cell RaftEntry} (h : Holds c s) {target : ℕ}
    (htgt : target ≤ c.log.length) : s.applyThroughLocked target =
      (s.applied.applyAll ((c.log.drop s.commitIndex).take (target - s.commitIndex))).map
        s.withApplied := by
  have hlen := h.length_entries
  have hsnap := h.snapshot_commit
  have hdrop : s.entries.drop (s.commitIndex - s.snapshotIndex) = c.log.drop s.commitIndex := by
    rw [h.entries, drop_drop, show s.snapshotIndex + (s.commitIndex - s.snapshotIndex) =
      s.commitIndex by omega]
  rw [RaftPersistentState.applyThroughLocked, if_neg (by omega), applyLoop_eq_applyAll (by omega),
    hdrop]
  cases s.applied.applyAll ((c.log.drop s.commitIndex).take (target - s.commitIndex)) <;> rfl

/-- The metadata a group is founded with. -/
def Applied.founded (epoch : ℕ) (voters : List GoString) : Applied := ⟨0, epoch, none, voters, [], []⟩

/-! ### The voters a log stands for -/

/-- A change ends. -/
def RaftEntry.finalizes (e : RaftEntry) : Prop := e.command.type = .finalizeJointConsensus
deriving Decidable

/-- A change begins. -/
def RaftEntry.begins (e : RaftEntry) : Prop := e.command.type = .beginJointConsensus
deriving Decidable

variable {e : RaftEntry}

lemma RaftEntry.not_finalizes_of_begins (h : e.begins) : ¬ e.finalizes := by
  rw [begins] at h
  simp [finalizes, h]

lemma ValidEntry.transition (h : ValidEntry e) (he : e.begins ∨ e.finalizes) :
    Canonical e.command.oldVoters ∧ Canonical e.command.newVoters ∧
      voterSetDifference e.command.oldVoters e.command.newVoters = 1 := by
  have htransition : validTransition e.command := by
    rw [ValidEntry, validateRaftEntry] at h
    split at h
    · simp at h
    rw [RaftEntry.begins, RaftEntry.finalizes] at he
    rcases he with he | he <;> rw [he] at h <;> simp only at h <;> split at h
    · simp at h
    · rename_i hguard
      exact by_contra fun hne => hguard (.inr hne)
    · simp at h
    · rename_i hguard
      exact by_contra fun hne => hguard (.inr (.inl hne))
  simpa [validTransition, and_assoc] using htransition

/-- The voters after the last finalize entry. -/
def configuration (voters : List GoString) (ℓ : List RaftEntry) : List GoString :=
  ℓ.foldl (fun v e => if e.finalizes then e.command.newVoters else v) voters

lemma configuration_append_singleton (voters : List GoString) (ℓ : List RaftEntry) (e : RaftEntry) :
    configuration voters (ℓ ++ [e]) =
      if e.finalizes then e.command.newVoters else configuration voters ℓ := by
  simp [configuration]

lemma configuration_append_of_not_finalizes {voters : List GoString} {ℓ m : List RaftEntry}
    (hm : ∀ e ∈ m, ¬ e.finalizes) : configuration voters (ℓ ++ m) = configuration voters ℓ := by
  induction m using reverseRecOn with
  | nil => simp
  | append_singleton m e ih =>
    rw [← append_assoc, configuration_append_singleton, if_neg (hm e (by simp)),
      ih (fun f hf => hm f (by simp [hf]))]

/-- Membership changes follow each other: each begins with the voters in force, and is
finalized by the entry right after. -/
structure Orderly (voters : List GoString) (ℓ : List RaftEntry) : Prop where
  begins : ∀ {p e}, ℓ[p]? = some e → e.begins →
    e.command.oldVoters = configuration voters (ℓ.take p)
  finalizes : ∀ {p e}, ℓ[p]? = some e → e.finalizes → ∃ q b, p = q + 1 ∧ ℓ[q]? = some b ∧ b.begins ∧
    b.command.oldVoters = e.command.oldVoters ∧ b.command.newVoters = e.command.newVoters

namespace Orderly

variable {V : List GoString} {ℓ m : List RaftEntry} {e : RaftEntry}

lemma nil : Orderly V [] := ⟨by simp, by simp⟩

lemma of_isPrefix (h : Orderly V ℓ) (hm : m <+: ℓ) : Orderly V m where
  begins := by
    intro p e he hb
    rw [h.begins (getElem?_of_isPrefix hm he) hb,
      take_eq_take_of_isPrefix hm (lt_length_of_getElem? he).le]
  finalizes := by
    intro p e he hf
    obtain ⟨q, b, rfl, hb, hrest⟩ := h.finalizes (getElem?_of_isPrefix hm he) hf
    refine ⟨q, b, rfl, ?_, hrest⟩
    have hlt := lt_length_of_getElem? he
    obtain ⟨b', hb'⟩ := exists_getElem? m (i := q) (by omega)
    rw [getElem?_of_isPrefix hm hb'] at hb
    rw [hb', hb]

lemma append (h : Orderly V ℓ) (hb : e.begins → e.command.oldVoters = configuration V ℓ)
    (hf : e.finalizes → ∃ b, ℓ.getLast? = some b ∧ b.begins ∧
      b.command.oldVoters = e.command.oldVoters ∧ b.command.newVoters = e.command.newVoters) :
    Orderly V (ℓ ++ [e]) where
  begins := by
    intro p d hd hdb
    rcases getElem?_append_singleton hd with hd | ⟨rfl, rfl⟩
    · rw [h.begins hd hdb, take_append_of_le_length (lt_length_of_getElem? hd).le]
    · rw [take_left, hb hdb]
  finalizes := by
    intro p d hd hdf
    rcases getElem?_append_singleton hd with hd | ⟨rfl, rfl⟩
    · obtain ⟨q, b, rfl, hb, hrest⟩ := h.finalizes hd hdf
      exact ⟨q, b, rfl, getElem?_of_isPrefix (prefix_append _ _) hb, hrest⟩
    · obtain ⟨b, hb, hrest⟩ := hf hdf
      rw [getLast?_eq_getElem?] at hb
      have hlt := lt_length_of_getElem? hb
      exact ⟨_, b, by omega, getElem?_of_isPrefix (prefix_append _ _) hb, hrest⟩

end Orderly

/-! ### What replaying a log leads to -/

variable {c : MetadataCommand} {a' : Applied} {r : Replayed}

section

variable {V : List GoString} {epoch : ℕ} {ℓ m : List RaftEntry} {e : RaftEntry} {a b b' : Applied}

/-- The voters applied are those of the configuration, and a transition in progress
started from them. -/
lemma Orderly.applyAll_voters (h : Orderly V ℓ) (hb : (founded epoch V).applyAll ℓ = .ok b) :
    b.voters = configuration V ℓ ∧ (b.jointOld = [] ∧ b.jointNew = [] ∨ b.jointOld = b.voters) := by
  induction ℓ using reverseRecOn generalizing b with
  | nil =>
    cases hb
    exact ⟨rfl, .inl ⟨rfl, rfl⟩⟩
  | append_singleton ℓ e ih =>
    obtain ⟨a, ha, hb⟩ := applyAll_append_eq_ok.1 hb
    rw [applyAll_singleton_eq_ok] at hb
    obtain ⟨hvoters, hjoint⟩ := ih (h.of_isPrefix (prefix_append _ _)) ha
    have hlast : (ℓ ++ [e])[ℓ.length]? = some e := by simp
    rw [configuration_append_singleton]
    cases apply_eq_ok.1 hb with
    | advance htype =>
      rw [if_neg (by simp [RaftEntry.finalizes, htype])]
      exact ⟨hvoters, hjoint⟩
    | duplicate htype =>
      rw [if_neg (by simp [RaftEntry.finalizes, htype])]
      exact ⟨hvoters, hjoint⟩
    | begins htype =>
      rw [if_neg (by simp [RaftEntry.finalizes, htype])]
      have := h.begins hlast htype
      rw [take_left] at this
      exact ⟨this, .inr rfl⟩
    | finalizes htype =>
      rw [if_pos (show e.finalizes from htype)]
      exact ⟨rfl, .inl ⟨rfl, rfl⟩⟩

lemma applyAll_jointNew (hvalid : ∀ e ∈ ℓ, ValidEntry e) (ha : a.jointOld = [] → a.jointNew = [])
    (hb : a.applyAll ℓ = .ok b) : b.jointOld = [] → b.jointNew = [] := by
  refine foldlM_invariant (P := fun a => a.jointOld = [] → a.jointNew = [])
    (fun e he a b ha hb => ?_) ha hb
  cases apply_eq_ok.1 hb with
  | advance | duplicate => exact ha
  | begins htype =>
    exact fun hnil => absurd hnil ((hvalid e he).transition (.inl htype)).1.ne_nil
  | finalizes => exact fun _ => rfl

/-- Right before a finalize entry the transition it finalizes is in progress. -/
lemma Orderly.applyAll_joint (h : Orderly V ℓ) {p : ℕ} (he : ℓ[p]? = some e) (hf : e.finalizes)
    (hb : a.applyAll (ℓ.take p) = .ok b) :
    b.jointOld = e.command.oldVoters ∧ b.jointNew = e.command.newVoters := by
  obtain ⟨q, d, rfl, hd, hbegins, hold, hnew⟩ := h.finalizes he hf
  rw [take_succ_eq hd] at hb
  obtain ⟨a₁, -, hb⟩ := applyAll_append_eq_ok.1 hb
  rw [applyAll_singleton_eq_ok] at hb
  rw [← hold, ← hnew]
  rw [RaftEntry.begins] at hbegins
  cases apply_eq_ok.1 hb with
  | begins => exact ⟨rfl, rfl⟩
  | advance htype | duplicate htype | finalizes htype => simp [hbegins] at htype

/-- Every finalize entry of the log is applied, or is the next one to be applied. -/
def Lags (ℓ : List RaftEntry) (commitIndex : ℕ) : Prop :=
  ∀ {p e}, ℓ[p]? = some e → e.finalizes → p ≤ commitIndex

lemma Lags.configuration {c : ℕ} (h : Lags ℓ c) :
    (∃ e, ℓ[c]? = some e ∧ e.finalizes ∧ configuration V ℓ = e.command.newVoters) ∨
      (∀ e, ℓ[c]? = some e → ¬ e.finalizes) ∧
        configuration V ℓ = Cluster.configuration V (ℓ.take c) := by
  have hsplit := take_append_drop (c + 1) ℓ
  have hrest : ∀ e ∈ ℓ.drop (c + 1), ¬ e.finalizes := by
    intro e he hf
    obtain ⟨i, hi⟩ := mem_iff_getElem?.1 he
    rw [getElem?_drop] at hi
    have := h hi hf
    omega
  have hconf : Cluster.configuration V ℓ = Cluster.configuration V (ℓ.take (c + 1)) := by
    conv_lhs => rw [← hsplit]
    exact configuration_append_of_not_finalizes hrest
  cases he : ℓ[c]? with
  | none =>
    rw [getElem?_eq_none_iff] at he
    refine .inr ⟨by simp, ?_⟩
    rw [take_of_length_le he]
  | some e =>
    rw [hconf, take_succ_eq he, configuration_append_singleton]
    by_cases hf : e.finalizes
    · exact .inl ⟨e, rfl, hf, if_pos hf⟩
    · refine .inr ⟨?_, if_neg hf⟩
      rintro d hd
      rwa [← Option.some.inj hd]

/-! ### Nodes that joined later -/

/-- What a node has applied, `a`, against what a founding member has applied at the same
point, `b`: a node that joined later may not know the voters yet. -/
def Joined (a b : Applied) : Prop := a = b ∨ a = { b with voters := [] }

section

variable (h : Joined a b)

include h

lemma Joined.appliedEpoch : a.appliedEpoch = b.appliedEpoch := by
  rcases h with rfl | rfl <;> rfl

lemma Joined.committedView : a.committedView = b.committedView := by
  rcases h with rfl | rfl <;> rfl

lemma Joined.jointOld : a.jointOld = b.jointOld := by
  rcases h with rfl | rfl <;> rfl

lemma Joined.jointNew : a.jointNew = b.jointNew := by
  rcases h with rfl | rfl <;> rfl

lemma Joined.apply (hbegin : c.type = .beginJointConsensus → c.oldVoters = b.voters)
    (ha : a.apply c = .ok a') : ∃ b', b.apply c = .ok b' ∧ Joined a' b' := by
  simp only [apply_eq_ok] at ha ⊢
  rcases h with rfl | rfl
  · exact ⟨a', ha, .inl rfl⟩
  cases ha with
  | advance htype hjoint hepoch hle => exact ⟨_, .advance htype hjoint hepoch hle, .inr rfl⟩
  | duplicate htype hjoint hepoch hle hview =>
    exact ⟨_, .duplicate htype hjoint hepoch hle hview, .inr rfl⟩
  | begins htype hjoint hepoch =>
    exact ⟨_, .begins htype hjoint hepoch (.inr (hbegin htype).symm), .inl rfl⟩
  | finalizes htype hepoch hold hnew =>
    exact ⟨_, .finalizes htype hepoch hold hnew, .inl rfl⟩

lemma Joined.apply_of (hb : b.apply c = .ok b') : ∃ a', a.apply c = .ok a' ∧ Joined a' b' := by
  simp only [apply_eq_ok] at hb ⊢
  rcases h with rfl | rfl
  · exact ⟨b', hb, .inl rfl⟩
  cases hb with
  | advance htype hjoint hepoch hle => exact ⟨_, .advance htype hjoint hepoch hle, .inr rfl⟩
  | duplicate htype hjoint hepoch hle hview =>
    exact ⟨_, .duplicate htype hjoint hepoch hle hview, .inr rfl⟩
  | begins htype hjoint hepoch => exact ⟨_, .begins htype hjoint hepoch (.inl rfl), .inl rfl⟩
  | finalizes htype hepoch hold hnew =>
    exact ⟨_, .finalizes htype hepoch hold hnew, .inl rfl⟩

end

lemma Orderly.applyAll_of_joined (h : Orderly V (ℓ ++ m))
    (hb : (founded epoch V).applyAll ℓ = .ok b) (hj : Joined a b) (ha : a.applyAll m = .ok a') :
    ∃ b', (founded epoch V).applyAll (ℓ ++ m) = .ok b' ∧ Joined a' b' := by
  induction m generalizing ℓ a b with
  | nil =>
    cases ha
    exact ⟨b, by rwa [append_nil], hj⟩
  | cons e m ih =>
    obtain ⟨a₁, ha₁, ha⟩ := applyAll_cons_eq_ok.1 ha
    have hvoters := (h.of_isPrefix (prefix_append _ _)).applyAll_voters hb
    have hbegin : e.command.type = .beginJointConsensus → e.command.oldVoters = b.voters := by
      intro htype
      have := h.begins (p := ℓ.length) (e := e) (by simp) htype
      rw [take_left] at this
      rw [this, hvoters.1]
    obtain ⟨b₁, hb₁, hj₁⟩ := hj.apply hbegin ha₁
    have hℓ : (founded epoch V).applyAll (ℓ ++ [e]) = .ok b₁ :=
      applyAll_append_eq_ok.2 ⟨b, hb, applyAll_singleton_eq_ok.2 hb₁⟩
    rw [append_cons] at h ⊢
    exact ih h hℓ hj₁ ha

lemma Joined.applyAll_of (hj : Joined a b) (hb : b.applyAll m = .ok b') :
    ∃ a', a.applyAll m = .ok a' ∧ Joined a' b' :=
  foldlM_simulation (R := fun b a => Joined a b) (fun _ _ _ _ _ hj hb => hj.apply_of hb) hj hb

/-! ### Quorums -/

/-- A quorum under what a node has applied is a majority of the configuration of its log. -/
lemma voterMajority_configuration (h : Orderly V ℓ) (hvalid : ∀ e ∈ ℓ, ValidEntry e)
    (hlag : Lags ℓ s.commitIndex) (hb : (founded epoch V).applyAll (ℓ.take s.commitIndex) = .ok b)
    (hj : Joined s.applied b) {acks : List GoString} (hq : s.hasVoterQuorum acks) :
    voterMajority (configuration V ℓ) acks := by
  have hold : s.jointOldVoters = b.jointOld := hj.jointOld
  have hnew : s.jointNewVoters = b.jointNew := hj.jointNew
  rw [RaftPersistentState.hasVoterQuorum] at hq
  rcases hlag.configuration (V := V) with ⟨e, he, hf, hconf⟩ | ⟨-, hconf⟩
  · -- the finalize entry comes next: the transition to its new voters is in progress
    obtain ⟨hold', hnew'⟩ := h.applyAll_joint he hf hb
    have hne : s.jointOldVoters ≠ [] := by
      rw [hold, hold']
      exact (hvalid e (mem_of_getElem? he)).transition (.inr hf) |>.1.ne_nil
    rw [if_pos hne, Bool.and_eq_true] at hq
    rw [hconf, ← hnew', ← hnew]
    exact hq.2
  · obtain ⟨hvoters, hjoint⟩ := (h.of_isPrefix (List.take_prefix _ _)).applyAll_voters hb
    rw [hconf, ← hvoters]
    split_ifs at hq with hne
    · rw [Bool.and_eq_true] at hq
      rw [hold] at hne hq
      rcases hjoint with ⟨hnil, -⟩ | heq
      · exact absurd hnil hne
      · rw [← heq]
        exact hq.1
    · rcases hj with hj | hj
      · rw [← show s.voters = b.voters from congrArg voters hj]
        exact hq
      · rw [show s.voters = [] from congrArg voters hj] at hq
        simp [voterMajority] at hq

/-! ### The replay of `validateLocked` -/

/-- What `validateLocked` has replayed, `r`, against what was applied, `a`: it learns of
voters only from membership changes. -/
def Tracks (r : Replayed) (a : Applied) : Prop :=
  ∃ w, (w = [] ∨ w = a.voters) ∧ r = ⟨a.appliedEpoch, a.committedView, w, a.jointOld, a.jointNew⟩

lemma Tracks.replay (h : Tracks r a) (hb : a.apply c = .ok b) :
    ∃ r', r.replay c = .ok r' ∧ Tracks r' b := by
  obtain ⟨w, hw, rfl⟩ := h
  rw [apply_eq_ok] at hb
  cases hb with
  | advance htype hjoint hepoch hle =>
    refine ⟨⟨c.epoch, some (commandView c), w, a.jointOld, a.jointNew⟩, ?_, w, hw, rfl⟩
    simp only [Replayed.replay, htype, hjoint, hepoch]
    rw [if_neg (by simp only [ne_eq, not_true_eq_false, false_or]; omega), if_pos trivial]
  | duplicate htype hjoint hepoch hle hview =>
    have hne := addOne_ne a.appliedEpoch
    refine ⟨_, ?_, w, hw, rfl⟩
    simp only [Replayed.replay, htype, hjoint]
    rw [if_neg (by simp only [ne_eq, not_true_eq_false, false_or]; omega), if_neg (by omega),
      if_neg (not_not.2 hview)]
  | begins htype hjoint hepoch hvoters =>
    refine ⟨⟨a.appliedEpoch, a.committedView, c.oldVoters, c.oldVoters, c.newVoters⟩, ?_,
      c.oldVoters, .inr rfl, rfl⟩
    simp only [Replayed.replay, htype, hjoint, hepoch, ne_eq, not_true_eq_false, or_self, if_false]
  | finalizes htype hepoch hold hnew =>
    refine ⟨⟨c.epoch, some (commandView c), c.newVoters, [], []⟩, ?_, c.newVoters, .inr rfl, rfl⟩
    simp only [Replayed.replay, htype, hepoch, hold, hnew, ne_eq, not_true_eq_false, or_self,
      if_false]

/-- What `validateLocked` has replayed after some entries. -/
def Replayed.replayAll (r : Replayed) (entries : List RaftEntry) : Except RaftError Replayed :=
  entries.foldlM (fun r e => r.replay e.command) r

lemma validateLoop_eq_replayAll {commitIndex : ℕ} (hℓ : ∀ e ∈ ℓ, ValidEntry e) :
    validateLoop commitIndex index ℓ r = r.replayAll (ℓ.take (commitIndex + 1 - index)) := by
  induction ℓ generalizing index r with
  | nil => simp [validateLoop, Replayed.replayAll, pure, Except.pure]
  | cons e ℓ ih =>
    have he : validateRaftEntry e = .ok () := hℓ e (by simp)
    have hℓ' : ∀ d ∈ ℓ, ValidEntry d := fun d hd => hℓ d (by simp [hd])
    rw [validateLoop, he]
    simp only
    by_cases hindex : index ≤ commitIndex
    · rw [if_pos hindex, show commitIndex + 1 - index = commitIndex + 1 - (index + 1) + 1 by omega,
        take_succ_cons]
      simp only [Replayed.replayAll, foldlM_cons, bind, Except.bind]
      cases r.replay e.command with
      | error err => rfl
      | ok r' => exact ih hℓ'
    · rw [if_neg hindex, ih hℓ', show commitIndex + 1 - index = 0 by omega,
        show commitIndex + 1 - (index + 1) = 0 by omega]
      rfl

lemma Tracks.replayAll (h : Tracks r a) (hb : a.applyAll ℓ = .ok b) :
    ∃ r', r.replayAll ℓ = .ok r' ∧ Tracks r' b :=
  foldlM_simulation (R := fun a r => Tracks r a) (fun _ _ _ _ _ h hb => h.replay hb) h hb

lemma Replayed.replayAll_append {r₁ : Replayed}
    (h : r.replayAll ℓ = .ok r₁) : r.replayAll (ℓ ++ m) = r₁.replayAll m := by
  rw [Replayed.replayAll, foldlM_append]
  rw [Replayed.replayAll] at h
  rw [h]
  rfl

end

end GideonDB.Cluster
