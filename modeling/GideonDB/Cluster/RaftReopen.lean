/-
Every state a store writes can be opened again.

`validateLocked` derives the applied epoch, the view, the voters and the joint sets from
the snapshot and the committed entries behind it.  `Reopens` is what it asks for; it is
kept by every call, whatever the other nodes send, with one exception: `InstallSnapshot`
moves the commit index without touching the joint sets, so on a node in the middle of a
membership change it leaves joint sets that no entry accounts for (`reopen_rejects`).
-/
import GideonDB.Cluster.RaftDurability
import GideonDB.Cluster.RaftReplay

namespace GideonDB.Cluster

open Go Relation

/-! ### Opening a file -/

/-- The limit of the file. -/
def maxStateSize : ℕ := 8 * 2 ^ 20

/-- `OpenRaftStore` on a file that `persistLocked` has written.  `size` is the length of the
JSON text of a state: a longer text is cut off and does not decode. -/
def openRaftFile (size : RaftPersistentState → ℕ) (nodeID : GoString) (bootstrapEpoch : ℕ)
    (file : RaftPersistentState) : Except RaftError RaftStore :=
  if ¬ validNodeID nodeID ∨ bootstrapEpoch = 0 then
    .error (.text "valid node ID and bootstrap epoch are required")
  else if maxStateSize < size file then .error (.text "decode Raft state: unexpected EOF")
  else openRaftStore nodeID bootstrapEpoch (some file) true

/-- The stores nodes with one bootstrap epoch can have after allowed calls.  Snapshots come
from such stores. -/
inductive Written (bootstrapEpoch : ℕ) (allowed : RaftStore → StoreCall → Prop) : RaftStore → Prop
  | opened {nodeID : GoString} {r : RaftStore}
      (hopen : openRaftStore nodeID bootstrapEpoch none true = .ok r) :
      Written bootstrapEpoch allowed r
  | call {r r' : RaftStore} {call : StoreCall} (h : Written bootstrapEpoch allowed r)
      (hallow : allowed r call) (hcall : call.isInstall = false)
      (hrun : call.run bootstrapEpoch r = some r') : Written bootstrapEpoch allowed r'
  | install {r leader : RaftStore} {q : InstallSnapshotRequest} {ok : Bool}
      (h : Written bootstrapEpoch allowed r) (hleader : Written bootstrapEpoch allowed leader)
      (hsnapshot : leader.state.snapshot = some q.snapshot)
      (hallow : allowed r (.installSnapshot q ok)) :
      Written bootstrapEpoch allowed (r.installSnapshot q ok).2

/-- A snapshot that moves the commit index is not installed during a membership change. -/
def StoreCall.installsStable (r : RaftStore) : StoreCall → Prop
  | .installSnapshot q _ =>
    r.state.commitIndex < q.snapshot.lastIncludedIndex → r.state.jointOldVoters = []
  | _ => True

/-! ### What `validateLocked` asks for -/

/-- The epoch is the bootstrap epoch and there is no view, or it is later and there is. -/
structure Versioned (bootstrapEpoch appliedEpoch : ℕ) (view : Option ViewDigests) : Prop where
  range : appliedEpoch < 2 ^ 64
  view : appliedEpoch = bootstrapEpoch ∧ view = none ∨
    bootstrapEpoch < appliedEpoch ∧ ∃ v, view = some v ∧ validView v = true

/-- Epoch and view fit, and the voter lists are canonical. -/
structure Sound (bootstrapEpoch : ℕ) (a : Applied) : Prop where
  versioned : Versioned bootstrapEpoch a.appliedEpoch a.committedView
  voters : a.voters = [] ∨ Canonical a.voters
  joint : a.jointOld = [] ∧ a.jointNew = [] ∨
    Canonical a.jointOld ∧ Canonical a.jointNew ∧ a.voters = a.jointOld

lemma Sound.jointNew_eq_nil {epoch : ℕ} {a : Applied} (h : Sound epoch a) (hold : a.jointOld = []) :
    a.jointNew = [] := by
  rcases h.joint with ⟨-, hnew⟩ | ⟨hcanon, -⟩
  · exact hnew
  · exact absurd hold hcanon.ne_nil

variable {e : RaftEntry}

lemma ValidEntry.view (h : ValidEntry e) (he : e.command.type = .advanceEpoch ∨ e.finalizes) :
    2 ≤ e.command.epoch ∧ validView (commandView e.command) := by
  rw [ValidEntry, validateRaftEntry] at h
  split at h
  · simp at h
  rw [RaftEntry.finalizes] at he
  rcases he with he | he <;> simp only [he] at h <;> split at h
  · simp at h
  · rename_i hguard
    simp only [not_or, not_not] at hguard
    exact ⟨by omega, hguard.2.2.2⟩
  · simp at h
  · rename_i hguard
    simp only [not_or, not_not] at hguard
    exact ⟨by omega, hguard.2.2⟩

variable {epoch : ℕ}

lemma Versioned.next {e : ℕ} {view : Option ViewDigests} (h : Versioned epoch e view) {e' : ℕ}
    (he' : e' = addOne e) (hmin : 2 ≤ e') {v : ViewDigests} (hv : validView v) :
    Versioned epoch e' (some v) := by
  have hrange := h.range
  have hnext : e' = e + 1 := by
    rw [addOne] at he'
    omega
  have hle : epoch ≤ e := by
    rcases h.view with ⟨heq, -⟩ | ⟨hlt, -⟩
    · exact heq.ge
    · exact hlt.le
  refine ⟨?_, .inr ⟨by omega, v, rfl, hv⟩⟩
  rw [he', addOne]
  exact Nat.mod_lt _ (Nat.two_pow_pos 64)

variable {a b : Applied}

lemma Sound.apply (h : Sound epoch a)
    (he : ValidEntry e) (hb : a.apply e.command = .ok b) : Sound epoch b := by
  cases Applied.apply_eq_ok.1 hb with
  | advance htype hjoint hepoch =>
    obtain ⟨hmin, hview⟩ := he.view (.inl htype)
    exact { h with versioned := h.versioned.next hepoch hmin hview }
  | duplicate => exact { h with }
  | begins htype =>
    obtain ⟨hold, hnew, -⟩ := he.transition (.inl htype)
    exact ⟨h.versioned, .inr hold, .inr ⟨hold, hnew, rfl⟩⟩
  | finalizes htype hepoch =>
    obtain ⟨hmin, hview⟩ := he.view (.inr htype)
    obtain ⟨-, hnew, -⟩ := he.transition (.inr htype)
    exact ⟨h.versioned.next hepoch hmin hview, .inr hnew, .inl ⟨rfl, rfl⟩⟩

lemma Sound.applyAll {ℓ : List RaftEntry} (h : Sound epoch a) (hℓ : ∀ e ∈ ℓ, ValidEntry e)
    (hb : a.applyAll ℓ = .ok b) : Sound epoch b :=
  foldlM_invariant (fun e he _ _ h hb => h.apply (hℓ e he) hb) h hb

/-- What `validateLocked` asks of a state. -/
structure Reopens (bootstrapEpoch : ℕ) (s : RaftPersistentState) : Prop where
  format : s.format = 1
  indexed : WellIndexed s
  boundary : s.snapshotIndex = 0 ↔ s.snapshotTerm = 0
  snapshot : Versioned bootstrapEpoch s.snapshotEpoch s.snapshotView
  applied : Sound bootstrapEpoch s.applied
  entries : ∀ e ∈ s.entries, ValidEntry e
  replays : ∃ r, (⟨s.snapshotEpoch, s.snapshotView, [], [], []⟩ : Replayed).replayAll
      (s.entries.take (s.commitIndex - s.snapshotIndex)) = .ok r ∧ Tracks r s.applied

variable {log : List RaftEntry}

namespace Reopens

variable {epoch : ℕ} {s s' : RaftPersistentState}

lemma header (h : Reopens epoch s) : s.validateHeader epoch = .ok () := by
  obtain ⟨hsnap, hcommit⟩ := h.indexed
  have happ : epoch ≤ s.appliedEpoch := by
    rcases h.applied.versioned.view with ⟨heq, -⟩ | ⟨hlt, -⟩
    · exact heq.ge
    · exact hlt.le
  have hsnapEpoch : epoch ≤ s.snapshotEpoch := by
    rcases h.snapshot.view with ⟨heq, -⟩ | ⟨hlt, -⟩
    · exact heq.ge
    · exact hlt.le
  have hbound := h.boundary
  rw [RaftPersistentState.validateHeader, if_neg, if_neg, if_neg, if_neg, if_neg, if_neg]
  · rintro ⟨hne, hbad⟩
    rcases h.applied.joint with ⟨hold, hnew⟩ | ⟨hold, hnew, hvoters⟩
    · exact hne.elim (fun hne => hne hold) (fun hne => hne hnew)
    · rcases hbad with hbad | hbad | hbad
      · exact hbad hold
      · exact hbad hnew
      · exact hbad hvoters
  · rintro ⟨hne, hbad⟩
    exact h.applied.voters.elim hne hbad
  · rcases h.snapshot.view with ⟨-, hview⟩ | ⟨-, v, hview, hvalid⟩
    · simp [hview]
    · simp [hview, hvalid]
  · rcases h.snapshot.view with ⟨heq, hview⟩ | ⟨hlt, v, hview, -⟩
    · rw [hview]
      rintro (⟨-, hne⟩ | ⟨hlt, -⟩)
      · exact hne rfl
      · omega
    · rw [hview]
      rintro (⟨heq, -⟩ | ⟨-, hne⟩)
      · omega
      · simp at hne
  · rintro (⟨hzero, hne⟩ | ⟨hpos, hzero⟩)
    · exact hne (hbound.1 hzero)
    · exact (Nat.pos_iff_ne_zero.1 hpos) (hbound.2 hzero)
  · rw [lastLogLocked_fst]
    have hformat := h.format
    omega

lemma validateReplayed_eq {r : Replayed} (hepoch : r.appliedEpoch = s.appliedEpoch)
    (hvoters : r.voters = [] ∨ r.voters = s.voters) (hold : r.jointOld = s.jointOldVoters)
    (hnew : r.jointNew = s.jointNewVoters) (hview : r.committedView = s.committedView) :
    s.validateReplayed r = .ok s := by
  rw [RaftPersistentState.validateReplayed, if_neg (not_not.2 hepoch), if_neg, hview]
  · cases s.committedView with
    | none => rfl
    | some v => simp
  · rintro (⟨hne, hdiff⟩ | hdiff | hdiff)
    · exact hvoters.elim hne hdiff
    · exact hdiff hold
    · exact hdiff hnew

lemma validateLocked (h : Reopens epoch s) (hepoch : epoch ≠ 0) : s.validateLocked epoch = .ok s := by
  have hsame : s.withSnapshotEpoch epoch = s := by
    rw [RaftPersistentState.withSnapshotEpoch, if_neg]
    rintro ⟨hzero, -⟩
    rcases h.snapshot.view with ⟨heq, -⟩ | ⟨hlt, -⟩ <;> omega
  obtain ⟨r, hr, w, hw, rfl⟩ := h.replays
  rw [RaftPersistentState.validateLocked, hsame, h.header]
  simp only
  rw [validateLoop_eq_replayAll h.entries,
    show s.commitIndex + 1 - (s.snapshotIndex + 1) = s.commitIndex - s.snapshotIndex by omega, hr]
  exact validateReplayed_eq rfl hw rfl rfl rfl

lemma withEntries (h : Reopens epoch s) (hvalid : ∀ e ∈ log, ValidEntry e)
    (hlen : s.commitIndex - s.snapshotIndex ≤ log.length)
    (htake : log.take (s.commitIndex - s.snapshotIndex) =
      s.entries.take (s.commitIndex - s.snapshotIndex)) : Reopens epoch { s with entries := log } := by
  refine { h with indexed := ⟨h.indexed.1, ?_⟩, entries := hvalid, replays := ?_ }
  · change s.commitIndex ≤ s.snapshotIndex + log.length
    omega
  · change ∃ r, (⟨s.snapshotEpoch, s.snapshotView, [], [], []⟩ : Replayed).replayAll
      (log.take (s.commitIndex - s.snapshotIndex)) = .ok r ∧ Tracks r s.applied
    rw [htake]
    exact h.replays

lemma applyThrough (h : Reopens epoch s) {target : ℕ} (happly : s.applyThroughLocked target = .ok s') :
    Reopens epoch s' := by
  have hidx := h.indexed.applyThrough happly
  obtain ⟨a, ha, rfl⟩ := RaftPersistentState.applyThroughLocked_ok happly
  obtain ⟨hsnap, hcommit⟩ := h.indexed
  obtain ⟨hcount, hrounds⟩ := applyLoop_commitIndex ha
  rw [applyLoop_eq_applyAll (by omega)] at ha
  have hmem : ∀ e ∈ (s.entries.drop (s.commitIndex - s.snapshotIndex)).take (target - s.commitIndex),
      ValidEntry e := fun e he => h.entries e (List.mem_of_mem_drop (List.mem_of_mem_take he))
  have happ : ({ s with
        commitIndex := max s.commitIndex target
        appliedEpoch := a.appliedEpoch
        committedView := a.committedView
        voters := a.voters
        jointOldVoters := a.jointOld
        jointNewVoters := a.jointNew } : RaftPersistentState).applied = a := by
    have : a.commitIndex = max s.commitIndex target := by
      rw [hcount]
      change s.commitIndex + _ = _
      omega
    simp only [RaftPersistentState.applied, ← this]
  refine { h with indexed := hidx, applied := ?_, replays := ?_ }
  · rw [happ]
    exact h.applied.applyAll hmem ha
  · obtain ⟨r, hr, htracks⟩ := h.replays
    obtain ⟨r', hr', htracks'⟩ := htracks.replayAll ha
    refine ⟨r', ?_, ?_⟩
    · change (⟨s.snapshotEpoch, s.snapshotView, [], [], []⟩ : Replayed).replayAll
        (s.entries.take (max s.commitIndex target - s.snapshotIndex)) = .ok r'
      rw [show max s.commitIndex target - s.snapshotIndex =
        (s.commitIndex - s.snapshotIndex) + (target - s.commitIndex) by omega, List.take_add,
        Replayed.replayAll_append hr]
      exact hr'
    · rw [happ]
      exact htracks'

/-- No entries behind the snapshot are committed and no membership change is in progress. -/
lemma of_stable (hformat : s.format = 1) (hcommit : s.commitIndex = s.snapshotIndex)
    (hpos : s.snapshotIndex ≠ 0) (hterm : s.snapshotTerm ≠ 0)
    (hepoch : s.appliedEpoch = s.snapshotEpoch) (hview : s.committedView = s.snapshotView)
    (hsnapshot : Versioned epoch s.snapshotEpoch s.snapshotView)
    (hvoters : s.voters = [] ∨ Canonical s.voters) (hold : s.jointOldVoters = [])
    (hnew : s.jointNewVoters = []) (hents : ∀ e ∈ s.entries, ValidEntry e) : Reopens epoch s := by
  refine ⟨hformat, ⟨hcommit.ge, by omega⟩, by simp [hpos, hterm], hsnapshot,
    ⟨?_, hvoters, .inl ⟨hold, hnew⟩⟩, hents,
    ⟨⟨s.snapshotEpoch, s.snapshotView, [], [], []⟩, ?_, [], .inl rfl, ?_⟩⟩
  · change Versioned epoch s.appliedEpoch s.committedView
    rwa [hepoch, hview]
  · rw [hcommit, Nat.sub_self, List.take_zero]
    rfl
  · simp only [RaftPersistentState.applied, hepoch, hview, hold, hnew]

end Reopens

/-! ### Every call -/

lemma Reopens.configure {epoch : ℕ} {s : RaftPersistentState} (h : Reopens epoch s)
    {voters : List GoString} (hnil : s.voters = []) (hcanonical : Canonical voters) :
    Reopens epoch { s with voters := voters } := by
  obtain ⟨hformat, hidx, hboundary, hsnapshot, happ, hents, r', hr', w, hw, hreplayed⟩ := h
  have hjoint : s.jointOldVoters = [] ∧ s.jointNewVoters = [] := by
    rcases happ.joint with hjoint | ⟨hold, -, heq⟩
    · exact hjoint
    · exact absurd (heq.symm.trans hnil) hold.ne_nil
  refine ⟨hformat, hidx, hboundary, hsnapshot, ⟨happ.versioned, .inr hcanonical,
    .inl hjoint⟩, hents, r', hr', [], .inl rfl, ?_⟩
  -- no voters are known, so no entry has set any
  have hwnil : w = [] := hw.elim id fun hw => hw.trans hnil
  rw [hreplayed, hwnil]
  rfl

lemma Reopens.edit (h : Reopens epoch s) (he : Edit s s') : Reopens epoch s' := by
  cases he with
  | vote term votedFor =>
    obtain ⟨hformat, hidx, hboundary, hsnapshot, happ, hents, hreplays⟩ := h
    exact ⟨hformat, hidx, hboundary, hsnapshot, happ, hents, hreplays⟩
  | configure hnil hcanonical => exact h.configure hnil hcanonical
  | log hvalid hlen htake =>
    exact h.withEntries (fun e he => (hvalid e he).elim (h.entries e) id) hlen htake
  | apply happly => exact h.applyThrough happly

lemma Reopens.edits (h : Reopens epoch s) (he : ReflTransGen Edit s s') : Reopens epoch s' := by
  induction he with
  | refl => exact h
  | tail _ he ih => exact ih.edit he

/-- Memory and file can be opened. -/
structure ReopenStore (bootstrapEpoch : ℕ) (r : RaftStore) : Prop where
  nodeID : validNodeID r.nodeID = true
  state : Reopens bootstrapEpoch r.state
  file : Reopens bootstrapEpoch r.file

namespace ReopenStore

variable {epoch : ℕ} {r r' : RaftStore} {s : RaftPersistentState}

lemma term_ne_zero (h : Reopens epoch s) {t : ℕ} (hne : index ≠ s.snapshotIndex)
    (hterm : s.termAtLocked index = .ok t) : t ≠ 0 := by
  rw [RaftPersistentState.termAtLocked, if_neg hne] at hterm
  split at hterm
  · simp at hterm
  split at hterm
  · simp at hterm
  · rename_i e he
    have hvalid := h.entries e (List.mem_of_getElem? he)
    rw [ValidEntry, validateRaftEntry] at hvalid
    split at hvalid
    · simp at hvalid
    · rename_i hne
      cases hterm
      exact hne

section

variable (h : ReopenStore epoch r)

include h

lemma edits {p : Prop} (he : StoreEdits p r r') : ReopenStore epoch r' := by
  have hstate := h.state.edits he.state
  refine ⟨he.nodeID ▸ h.nodeID, hstate, ?_⟩
  rcases he.file with hfile | hfile <;> rw [hfile]
  · exact h.file
  · exact hstate

lemma persistLocked (hs : Reopens epoch s) (ok : Bool) :
    ReopenStore epoch ({ r with state := s }.persistLocked ok).2 := by
  cases ok with
  | false => exact ⟨h.nodeID, hs, h.file⟩
  | true => exact ⟨h.nodeID, hs, hs⟩

lemma compactCommitted (ok : Bool) : ReopenStore epoch (r.compactCommitted ok).2 := by
  rcases r.compactCommitted_cases ok with ⟨x, hcall⟩ | ⟨hold, hne, term, hterm, hcall⟩ <;> rw [hcall]
  · exact h
  · have hsnap := h.state.indexed.1
    refine h.persistLocked ?_ ok
    exact .of_stable h.state.format rfl (by simp only; omega) (term_ne_zero h.state hne hterm) rfl rfl
      h.state.applied.versioned h.state.applied.voters hold
      (h.state.applied.jointNew_eq_nil hold)
      (fun e he => h.state.entries e (List.mem_of_mem_drop he))

lemma installSnapshot {leader : RaftPersistentState} (hleader : Reopens epoch leader)
    {q : InstallSnapshotRequest} (hsnapshot : leader.snapshot = some q.snapshot) (ok : Bool)
    (hstab : r.state.commitIndex < q.snapshot.lastIncludedIndex → r.state.jointOldVoters = []) :
    ReopenStore epoch (r.installSnapshot q ok).2 := by
  rcases StoreEdits.installSnapshot r q ok with hedits | ⟨hlt, hvalid, hcall⟩
  · exact h.edits hedits
  rw [hcall]
  have hs : Reopens epoch (r.state.withTerm q.term) := h.state.edit (.withTerm _ _)
  have happ := (StoreSameLog.withTerm r.state q.term).applied
  have hold : (r.state.withTerm q.term).jointOldVoters = [] := by
    rw [show (r.state.withTerm q.term).jointOldVoters = r.state.jointOldVoters from
      congrArg Applied.jointOld happ]
    exact hstab hlt
  -- the snapshot's epoch and view are those of the leader's snapshot
  have hvers : Versioned epoch q.snapshot.appliedEpoch q.snapshot.committedView := by
    rw [RaftPersistentState.snapshot] at hsnapshot
    split at hsnapshot
    · simp at hsnapshot
    · rw [← Option.some.inj hsnapshot]
      exact hleader.snapshot
  simp only [RaftStore.validSnapshot, Bool.and_eq_true, beq_iff_eq, bne_iff_ne] at hvalid
  obtain ⟨⟨⟨⟨hvoters, hindex⟩, hterm⟩, -⟩, -⟩ := hvalid
  refine h.persistLocked ?_ ok
  refine .of_stable hs.format rfl hindex hterm rfl rfl hvers
    (.inr (canonical_of_normalizeVoters hvoters)) hold
    (hs.applied.jointNew_eq_nil hold) fun e he => hs.entries e ?_
  change e ∈ RaftStore.retained (r.state.withTerm q.term) q.snapshot at he
  rw [RaftStore.retained] at he
  split at he
  · exact List.mem_of_mem_drop he
  · simp at he

end

end ReopenStore

/-! ### Opening what was written -/

section

variable {epoch : ℕ} {allowed : RaftStore → StoreCall → Prop} {r r' : RaftStore}

lemma Reopens.bootstrap (hrange : epoch < 2 ^ 64) : Reopens epoch (.bootstrap epoch) :=
  ⟨rfl, ⟨le_rfl, le_rfl⟩, by simp [RaftPersistentState.bootstrap],
    ⟨hrange, .inl ⟨rfl, rfl⟩⟩, ⟨⟨hrange, .inl ⟨rfl, rfl⟩⟩, .inl rfl, .inl ⟨rfl, rfl⟩⟩,
    by simp [RaftPersistentState.bootstrap], ⟨_, rfl, [], .inl rfl, rfl⟩⟩

lemma ReopenStore.openRaftStore (h : ReopenStore epoch r) (hepoch : epoch ≠ 0) :
    openRaftStore r.nodeID epoch (some r.file) true = .ok ⟨r.nodeID, r.file, r.file⟩ := by
  rw [openRaftStore.eq_def, if_neg (by simp [h.nodeID, hepoch])]
  simp only [h.file.validateLocked hepoch]

lemma ReopenStore.call (h : ReopenStore epoch r) (hepoch : epoch ≠ 0) {call : StoreCall}
    (hcall : call.isInstall = false) (hrun : call.run epoch r = some r') : ReopenStore epoch r' := by
  cases hcompact : call.isCompact with
  | false =>
    rcases StoreCall.edits h.state.indexed hcall hcompact hrun with hedits | rfl
    · exact h.edits hedits
    · have hopen := StoreCall.run_reopen hrun
      rw [h.openRaftStore hepoch, Except.ok.injEq] at hopen
      subst hopen
      exact ⟨h.nodeID, h.file, h.file⟩
  | true =>
    obtain ⟨ok, rfl⟩ := StoreCall.eq_compactCommitted hcompact
    cases hrun
    exact h.compactCommitted ok

lemma Written.inv (hrange : epoch < 2 ^ 64)
    (h : Written epoch (fun r call => call.installsStable r) r) : ReopenStore epoch r ∧ epoch ≠ 0 := by
  induction h with
  | opened hopen =>
    rw [openRaftStore.eq_def] at hopen
    split at hopen
    · simp at hopen
    rename_i hvalid
    simp only [not_or, not_not] at hvalid
    cases hopen
    exact ⟨⟨hvalid.1, .bootstrap hrange, .bootstrap hrange⟩, hvalid.2⟩
  | call _ _ hcall hrun ih => exact ⟨ih.1.call ih.2 hcall hrun, ih.2⟩
  | install _ _ hsnapshot hstab ih ihleader =>
    exact ⟨ih.1.installSnapshot ihleader.1.state hsnapshot _ hstab, ih.2⟩

/-- **Reopening.**  What a store has written validates for the same bootstrap epoch, and
opening it restores it field by field. -/
theorem reopen_restores (hrange : epoch < 2 ^ 64)
    (h : Written epoch (fun r call => call.installsStable r) r) {size : RaftPersistentState → ℕ}
    (hsize : size r.file ≤ maxStateSize) :
    r.file.validateLocked epoch = .ok r.file ∧
      openRaftFile size r.nodeID epoch r.file = .ok ⟨r.nodeID, r.file, r.file⟩ := by
  obtain ⟨hinv, hepoch⟩ := h.inv hrange
  refine ⟨hinv.file.validateLocked hepoch, ?_⟩
  rw [openRaftFile, if_neg (by simp [hinv.nodeID, hepoch]), if_neg (by omega)]
  exact hinv.openRaftStore hepoch

/-- Call by call. -/
def runCalls (bootstrapEpoch : ℕ) : RaftStore → List StoreCall → Option RaftStore
  | r, [] => some r
  | r, call :: calls => (call.run bootstrapEpoch r).bind fun r' => runCalls bootstrapEpoch r' calls

lemma Written.runCalls {calls : List StoreCall} (h : Written epoch allowed r)
    (hallow : ∀ r call, call.isInstall = false → allowed r call)
    (hcalls : calls.all (fun call => !call.isInstall) = true)
    (hrun : runCalls epoch r calls = some r') : Written epoch allowed r' := by
  induction calls generalizing r with
  | nil =>
    cases hrun
    exact h
  | cons call calls ih =>
    obtain ⟨r₁, hr₁, hrun⟩ := Option.bind_eq_some_iff.1 hrun
    simp only [List.all_cons, Bool.and_eq_true, Bool.not_eq_true'] at hcalls
    exact ih (.call h (hallow _ _ hcalls.1) hcalls.1 hr₁) hcalls.2 hrun

end

def freshStore (digit : UInt8) : RaftStore :=
  ⟨sampleNode digit, .bootstrap 1, .bootstrap 1⟩

variable {allowed : RaftStore → StoreCall → Prop}

lemma freshStore_one_written : Written 1 allowed (freshStore 1) :=
  @Written.opened _ _ (sampleNode 1) _ (by decide +kernel)

lemma freshStore_two_written : Written 1 allowed (freshStore 2) :=
  @Written.opened _ _ (sampleNode 2) _ (by decide +kernel)

def sampleBegin (epoch : ℕ) (oldVoters newVoters : List GoString) : MetadataCommand :=
  ⟨.beginJointConsensus, epoch, [], [], [], [], oldVoters, newVoters⟩

def sampleFinalize (epoch : ℕ) (oldVoters newVoters : List GoString) : MetadataCommand :=
  let view := sampleView 7
  ⟨.finalizeJointConsensus, epoch + 1, view.membership, view.catalog, view.placement,
    view.capacityManifest, oldVoters, newVoters⟩

/-- The leader's part of a membership change in term 1: the begin entry at `index`, the
finalize entry behind it. -/
def transitionCalls (index epoch : ℕ) (oldVoters newVoters : List GoString) : List StoreCall :=
  [.appendCommand 1 (sampleBegin epoch oldVoters newVoters) true,
    .commitWithVoterAcks index 1 [sampleNode 1, sampleNode 2, sampleNode 3] true,
    .appendCommand 1 (sampleFinalize epoch oldVoters newVoters) true,
    .commitWithVoterAcks (index + 1) 1 [sampleNode 1, sampleNode 2, sampleNode 3] true]

def threeVoters : List GoString := [sampleNode 1, sampleNode 2, sampleNode 3]

def fourVoters : List GoString := [sampleNode 1, sampleNode 2, sampleNode 3, sampleNode 4]

/-- Node 1 leads term 1, admits node 4, removes it again and compacts its log. -/
def thereAndBackCalls : List StoreCall :=
  [.configureVoters threeVoters true, .beginElection true] ++
    transitionCalls 1 1 threeVoters fourVoters ++ transitionCalls 3 2 fourVoters threeVoters ++
    [.compactCommitted true]

/-- The snapshot node 1 has after that. -/
def thereAndBackSnapshot : RaftSnapshot := ⟨4, 1, 3, threeVoters, some (sampleView 7)⟩

lemma thereAndBack_written (allowed : RaftStore → StoreCall → Prop)
    (hallow : ∀ r call, call.isInstall = false → allowed r call) :
    ∃ r, Written 1 allowed r ∧ r.state.snapshot = some thereAndBackSnapshot := by
  obtain ⟨r, hr, hsnapshot⟩ := Option.map_eq_some_iff.1
    (show (runCalls 1 (freshStore 1) thereAndBackCalls).map (fun r => r.state.snapshot) =
      some (some thereAndBackSnapshot) by decide +kernel)
  exact ⟨r, freshStore_one_written.runCalls hallow (by decide +kernel) hr, hsnapshot⟩

/-- Node 2 gets the snapshot and then an entry of node 1. -/
def snapshotFollower : RaftStore :=
  (((freshStore 2).installSnapshot ⟨1, sampleNode 1, thereAndBackSnapshot⟩ true).2.appendEntries
    ⟨1, sampleNode 1, 4, 1, [⟨1, sampleAdvance 4 8⟩], 5⟩ true).2

theorem reopen_restores_snapshotFollower :
    Written 1 (fun r call => call.installsStable r) snapshotFollower ∧
      snapshotFollower.file.snapshotIndex = 4 ∧ snapshotFollower.file.commitIndex = 5 ∧
      openRaftFile (fun s => 1024 * (s.entries.length + 1)) (sampleNode 2) 1 snapshotFollower.file =
        .ok ⟨sampleNode 2, snapshotFollower.file, snapshotFollower.file⟩ := by
  obtain ⟨leader, hleader, hsnapshot⟩ := thereAndBack_written
    (fun r call => call.installsStable r) (fun r call hcall => by
      cases call with
      | installSnapshot => simp [StoreCall.isInstall] at hcall
      | _ => trivial)
  have hwrit : Written 1 (fun r call => call.installsStable r) snapshotFollower := by
    refine @Written.call _ _ _ _
      (.appendEntries ⟨1, sampleNode 1, 4, 1, [⟨1, sampleAdvance 4 8⟩], 5⟩ true)
      (@Written.install _ _ _ _ ⟨1, sampleNode 1, thereAndBackSnapshot⟩ true freshStore_two_written
        hleader hsnapshot fun _ => rfl) trivial rfl rfl
  exact ⟨hwrit, by decide +kernel, by decide +kernel,
    (reopen_restores (by decide) hwrit (by decide +kernel)).2⟩

/-- Node 2 applies the begin entry of the first membership change and then gets the
snapshot. -/
def jointFollower : Option RaftStore :=
  (runCalls 1 (freshStore 2) [.configureVoters threeVoters true, .appendEntries
    ⟨1, sampleNode 1, 0, 0, [⟨1, sampleBegin 1 threeVoters fourVoters⟩], 1⟩ true]).map fun r =>
      (r.installSnapshot ⟨1, sampleNode 1, thereAndBackSnapshot⟩ true).2

/-- The snapshot is installed, the joint sets stay, and the file does not open again. -/
theorem reopen_rejects :
    ∃ r, Written 1 (fun _ _ => True) r ∧ r.file.commitIndex = 4 ∧
      r.file.jointOldVoters = threeVoters ∧
      openRaftStore r.nodeID 1 (some r.file) true =
        .error (.text "persisted voter configuration does not match committed log") := by
  obtain ⟨leader, hleader, hsnapshot⟩ := thereAndBack_written (fun _ _ => True)
    (fun _ _ _ => trivial)
  obtain ⟨r, hr, hfacts⟩ := Option.map_eq_some_iff.1
    (show jointFollower.map (fun r => (r.file.commitIndex, r.file.jointOldVoters,
      openRaftStore r.nodeID 1 (some r.file) true)) = some (4, threeVoters,
        .error (.text "persisted voter configuration does not match committed log")) by decide +kernel)
  obtain ⟨r₁, hr₁, rfl⟩ := Option.map_eq_some_iff.1 hr
  simp only [Prod.mk.injEq] at hfacts
  exact ⟨_, .install (freshStore_two_written.runCalls (fun _ _ _ => trivial) (by decide +kernel) hr₁)
    hleader hsnapshot trivial, hfacts⟩

end GideonDB.Cluster
