/-
The sequence numbers of the log.

A log is in sequence if its records lie below the next LSN, the last one right below it, and the
checkpoint on disk lies below it too.  A checkpoint keeps this at every file operation: it
publishes the LSN of the last record.  A snapshot that is ahead of the log publishes a later LSN,
and until the log has been reset to it the log is not in sequence.  If every such cutover is made
as a whole, LSNs stay above the checkpoint (`nextLSN_above_checkpoint`); a crash in the middle of
one can cost a write (`acknowledged_lost_after_cutover_crash`).
-/
import GideonDB.Engine.Course

namespace GideonDB.Engine

open Go GideonDB.Core Store List
open Prog hiding bind throw

/-- The record is in the log, or the checkpoint covers it. -/
def Retains (record : WalRecord) (disk : Disk) : Prop :=
  record ∈ disk.wal ∨ record.lsn ≤ disk.checkpoint

/-- The log is in sequence, with the next LSN, and the given records are retained. -/
structure Sequenced (kept : WalRecord → Prop) (disk : Disk) (next : ℕ) : Prop where
  below : ∀ record ∈ disk.wal, record.lsn < next
  last : ∀ record ∈ disk.wal.getLast?, record.lsn + 1 = next
  above : disk.checkpoint < next
  retained : ∀ record, kept record → Retains record disk

/-- Ordered in memory too. -/
def Node.Sequenced (kept : WalRecord → Prop) (n : Node) : Prop :=
  Engine.Sequenced kept n.disk n.nextLSN

/-- The log on disk is in sequence, whatever is in memory. -/
def Node.Recoverable (kept : WalRecord → Prop) (n : Node) : Prop :=
  ∃ next, Engine.Sequenced kept n.disk next

variable {manifest : Manifest}

namespace Sequenced

variable {kept : WalRecord → Prop} {disk : Disk} {next : ℕ} (h : Sequenced kept disk next)

include h

lemma append (payload : Mutation) :
    Sequenced (fun record => kept record ∨ record = ⟨next, payload⟩)
      { disk with wal := disk.wal ++ [⟨next, payload⟩] } (next + 1) where
  below := by
    intro record hmem
    rcases mem_append.1 hmem with hold | hnew
    · exact (h.below record hold).trans (Nat.lt_succ_self next)
    · rw [mem_singleton.1 hnew]
      exact Nat.lt_succ_self next
  last := by
    intro record hlast
    rw [getLast?_concat, Option.mem_some_iff] at hlast
    rw [← hlast]
  above := h.above.trans (Nat.lt_succ_self next)
  retained := by
    rintro record (hkept | rfl)
    · rcases h.retained record hkept with hmem | hle
      · exact .inl (mem_append_left _ hmem)
      · exact .inr hle
    · exact .inl (mem_append_right _ mem_cons_self)

lemma publish (hold : disk.checkpoint ≤ manifest.maxLSN) (hnew : manifest.maxLSN < next) :
    Sequenced kept { disk with manifest := some manifest } next where
  below := h.below
  last := h.last
  above := hnew
  retained := fun record hkept => (h.retained record hkept).imp id fun hle => hle.trans hold

lemma truncate (hcov : ∀ record ∈ disk.wal, record.lsn ≤ disk.checkpoint) {next' : ℕ}
    (habove : disk.checkpoint < next') : Sequenced kept { disk with wal := [] } next' where
  below := by simp
  last := by simp
  above := habove
  retained := by
    intro record hkept
    rcases h.retained record hkept with hmem | hle
    · exact .inr (hcov record hmem)
    · exact .inr hle

lemma replace (hnew : next ≤ manifest.maxLSN + 1) :
    Sequenced kept { disk with wal := [], manifest := some manifest } (manifest.maxLSN + 1) where
  below := by simp
  last := by simp
  above := Nat.lt_succ_self _
  retained := by
    intro record hkept
    refine .inr (Nat.lt_succ_iff.1 (lt_of_lt_of_le ?_ hnew))
    rcases h.retained record hkept with hmem | hle
    · exact h.below record hmem
    · exact hle.trans_lt h.above

lemma mono {kept' : WalRecord → Prop} (hkept : ∀ record, kept' record → kept record) :
    Sequenced kept' disk next :=
  { h with retained := fun record hk => h.retained record (hkept record hk) }

end Sequenced

/-! ### Programs that keep the log in sequence -/

variable {n n' : Node}

lemma Installs.sameLog (h : Installs n n') : SameLog n n' := by
  rw [SameLog, h.1]
  exact ⟨rfl, rfl, rfl⟩

lemma FilesOnly.sameLog (h : FilesOnly n n') : SameLog n n' := h.installs.sameLog

lemma ShardOnly.sameLog (h : ShardOnly n n') : SameLog n n' := h.still.1

variable {kept : WalRecord → Prop}

lemma Sequenced.congr {disk disk' : Disk} {next : ℕ}
    (h : Sequenced kept disk next) (hwal : disk'.wal = disk.wal)
    (hman : disk'.manifest = disk.manifest) : Sequenced kept disk' next := by
  have hckp : disk'.checkpoint = disk.checkpoint := by rw [Disk.checkpoint, hman]; rfl
  refine ⟨?_, ?_, ?_, fun record hkept => ?_⟩
  · rw [hwal]
    exact h.below
  · rw [hwal]
    exact h.last
  · rw [hckp]
    exact h.above
  · rw [Retains, hwal, hckp]
    exact h.retained record hkept

lemma SameLog.sequenced (hsame : SameLog n n') (h : n.Sequenced kept) : n'.Sequenced kept := by
  rw [Node.Sequenced, hsame.2.2]
  exact h.congr hsame.1 hsame.2.1

lemma Node.Sequenced.recoverable (h : n.Sequenced kept) : n.Recoverable kept := ⟨n.nextLSN, h⟩

/-- The program keeps every log in sequence, with all faults, and loses no record. -/
def KeepsLog {α : Type} (p : Action α) : Prop :=
  ∀ (kept : WalRecord → Prop) (n : Node), n.Sequenced kept →
    p.wp True (fun _ n' => n'.Sequenced kept) (Node.Recoverable kept) n

namespace KeepsLog

variable {α β : Type}

variable {p : Action α}

lemma of_within (h : p.Within SameLog) : KeepsLog p := by
  intro kept n hn
  have hsame : SameLog n n := ⟨rfl, rfl, rfl⟩
  exact wp_mono (h.wp (fun _ _ _ => .trans) hsame)
    (fun _ n' hn' => hn'.sequenced hn) fun n' hn' => (hn'.sequenced hn).recoverable

lemma of_installs (h : p.Within Installs) : KeepsLog p :=
  of_within (h.mono fun _ _ => Installs.sameLog)

lemma update {f : Node → Node} (h : ∀ n, SameLog n (f n)) : KeepsLog (Prog.update f) :=
  of_within (.update h)

lemma state : KeepsLog Prog.state := of_within Within.state

lemma pure (a : α) : KeepsLog (pure a) := of_within (Within.pure a)

lemma throw (e : Error) : KeepsLog (Prog.throw e : Action α) := of_within (Within.throw e)

lemma bind {k : α → Action β} (hp : KeepsLog p) (hk : ∀ a, KeepsLog (k a)) :
    KeepsLog (p >>= k) := by
  intro kept n hn
  exact wp_seq (hp kept n hn) (fun a n' hn' => hk a kept n' hn') fun _ _ => id

end KeepsLog

/-! ### Appends -/

variable {mutation : Mutation}

section Append

variable (env : Env)

lemma wp_append (hn : n.Sequenced kept) (mutation : Mutation) :
    (append env mutation).wp True
      (fun result n' =>
        match result with
        | .ok _ => ∃ payload, env.encode mutation = some payload ∧
            n'.Sequenced fun record => kept record ∨ record = ⟨n.nextLSN, payload⟩
        | .error _ => n'.Sequenced kept)
      (Node.Recoverable kept) n := by
  rw [append.eq_def]
  split
  · exact hn
  · rename_i payload hpay
    split
    · exact hn
    · refine ⟨hn.recoverable, ⟨payload, hpay, hn.append payload⟩, fun _ => ⟨?_, ?_⟩⟩
      -- the rollback restores the log, whether or not the write had taken effect
      · exact hn.congr rfl rfl
      · exact hn.congr rfl rfl

/-- A mutation that was acknowledged by a step from `n` to `n'`. -/
def Logged (mutation : Mutation) (n n' : Node) : Prop :=
  ∃ payload, env.encode mutation = some payload ∧ Retains ⟨n.nextLSN, payload⟩ n'.disk

/-- The program keeps the log in sequence, and if it succeeds the mutation has been logged. -/
def Acks {α : Type} (mutation? : Option Mutation) (p : Action α) (n : Node) : Prop :=
  ∀ kept : WalRecord → Prop, n.Sequenced kept →
    p.wp True
      (fun result n' => n'.Sequenced kept ∧ ∀ a mutation, result = .ok a →
        mutation? = some mutation → Logged env mutation n n')
      (Node.Recoverable kept) n

variable {env} {α β : Type}

lemma acks_append {k : ℕ → Action α} (hk : ∀ lsn, KeepsLog (k lsn))
    (n : Node) : Acks env (some mutation) (append env mutation >>= k) n := by
  intro kept hn
  refine wp_seq (wp_append env hn mutation) (fun lsn n' h => ?_) fun e n' h => ?_
  · obtain ⟨payload, hpay, hseq⟩ := h
    refine wp_mono (hk lsn _ n' hseq) (fun result n'' h'' => ?_) fun n'' h'' => ?_
    · refine ⟨h''.mono fun _ => .inl, fun _ mutation' _ hmut => ?_⟩
      cases hmut
      exact ⟨payload, hpay, h''.retained _ (.inr rfl)⟩
    · obtain ⟨next, hnext⟩ := h''
      exact ⟨next, hnext.mono fun _ => .inl⟩
  · exact ⟨h, fun _ _ hres => by cases hres⟩

lemma Acks.of_keepsLog {p : Action α} (h : KeepsLog p) (n : Node) : Acks env none p n := by
  intro kept hn
  refine wp_mono (h kept n hn) (fun result n' h' => ⟨h', fun a mutation _ hmut => ?_⟩)
    fun _ => id
  cases hmut

end Append

/-! ### Checkpoints -/

section Checkpoint

variable (env : Env)

lemma wp_prepareCheckpoint (hn : n.Sequenced kept) : (prepareCheckpoint env).wp True
      (fun result n' => n'.Sequenced kept ∧ ∀ plan, result = .ok (some plan) →
        plan.maxLSN = n'.lastLSN) (Node.Recoverable kept) n := by
  have hframe : (prepareCheckpoint env).wp True (fun _ n' => FilesOnly n n') (FilesOnly n) n :=
    (within_prepareCheckpoint env).wp (fun _ _ _ => .trans) (.refl n)
  refine wp_mono (wp_and hframe (ensures_prepareCheckpoint n))
    (fun result n' h => ?_) fun n' h => ?_
  · obtain ⟨hfiles, hplan⟩ := h
    refine ⟨hfiles.sameLog.sequenced hn, fun plan hp => ?_⟩
    rw [(hplan _ hp).2.2 plan rfl, Node.lastLSN, Node.lastLSN, hfiles.sameLog.2.2]
  · exact (h.1.sameLog.sequenced hn).recoverable

/-- Publishing the last LSN of the log and resetting the log to the next: the log is in
sequence after every file operation, and nothing is in the log that is not in the checkpoint. -/
lemma wp_publish (hn : n.Sequenced kept) (hman : manifest.maxLSN = n.lastLSN) :
    (saveManifest manifest >>= fun _ => reset (manifest.maxLSN + 1)).wp True
      (fun _ n' => n'.Sequenced kept) (Node.Recoverable kept) n := by
  have hpos : 0 < n.nextLSN := Nat.zero_lt_of_lt hn.above
  have hnext : manifest.maxLSN + 1 = n.nextLSN := by
    rw [hman, Node.lastLSN, Nat.sub_add_cancel hpos]
  have habove := hn.above
  have hpub : (n.setManifest manifest).Sequenced kept := hn.publish (by omega) (by omega)
  have hempty : ((n.setManifest manifest).setWal []).Sequenced kept := by
    refine hpub.truncate (fun record hmem => ?_) hpub.above
    exact Nat.lt_succ_iff.1 ((hn.below record hmem).trans_eq hnext.symm)
  rw [saveManifest, reset, hnext]
  exact ⟨hn.recoverable, ⟨hpub.recoverable, ⟨hempty.recoverable, hempty, fun _ =>
    ⟨hempty, hempty⟩⟩, fun _ => ⟨hpub, hempty⟩⟩, fun _ => ⟨hn, hpub⟩⟩

lemma keepsLog_checkpointShard : KeepsLog (checkpointShard env) := by
  intro kept n hn
  refine wp_seq (wp_prepareCheckpoint env hn) (fun plan n' h => ?_) fun e n' h => h.1
  cases plan with
  | none => exact h.1
  | some plan =>
    have hmaxLSN : (plan.manifest env).maxLSN = n'.lastLSN := h.2 plan rfl
    have hpublish := wp_seq (wp_publish h.1 hmaxLSN)
      (fun _ n'' h'' => KeepsLog.of_installs (within_installCheckpoint env plan) kept n'' h'')
      fun _ _ => id
    rwa [bind_assoc] at hpublish

lemma keepsLog_afterMutation (count : ℕ) : KeepsLog (afterMutation env count) := by
  rw [afterMutation]
  refine KeepsLog.bind (KeepsLog.update fun _ => ⟨rfl, rfl, rfl⟩) fun _ => ?_
  refine .bind KeepsLog.state fun _ => ?_
  split
  · exact keepsLog_checkpointShard env
  · exact .pure _

end Checkpoint

/-! ### Operations -/

section Operations

variable (env : Env)

lemma course_acks (leads : Bool) :
    Course env leads (fun mutation? _ p n => Acks env mutation? p n) fun _ _ p => KeepsLog p where
  throw _ _ _ := fun _ hn => ⟨hn, fun _ _ h => by cases h⟩
  pure _ n := Acks.of_keepsLog (KeepsLog.pure _) n
  discard h := by
    intro kept hn
    refine wp_seq (h kept hn) (fun a n' h' => ?_) fun e n' h' => ?_
    · exact ⟨h'.1, fun _ mutation _ => h'.2 a mutation rfl⟩
    · exact ⟨h'.1, fun _ _ hres => by cases hres⟩
  state h := h
  still hp hk := by
    intro kept hn
    refine hp.wp_seq (fun _ _ _ => .trans) (.refl _) (fun a n' h => ?_)
      (fun _ _ h => ⟨h.1.sequenced hn, fun _ _ hres => by cases hres⟩)
      fun _ h => (h.1.sequenced hn).recoverable
    refine wp_mono (hk a n' h kept (h.1.sequenced hn)) (fun result n'' h'' => ?_) fun _ => id
    refine ⟨h''.1, fun a mutation ha hmut => ?_⟩
    have hlogged := h''.2 a mutation ha hmut
    rwa [Logged, h.1.2.2] at hlogged
  append n hk := acks_append hk n
  rest_throw _ := KeepsLog.throw
  rest_still hp hk := (KeepsLog.of_within (hp.mono fun _ _ => And.left)).bind hk
  due _ _ _ _ := (keepsLog_afterMutation env _).bind fun _ => .pure _
  remember _ _ _ h := KeepsLog.update h

/-- Every operation other than the installation of a snapshot keeps the log in sequence at every
point, and if it succeeds its mutation is in the log or in the checkpoint. -/
theorem acks_prog {op : Op} (hop : ∀ sequence records, op ≠ .installReplicaSnapshot sequence records)
    (n : Node) : Acks env (op.mutation n) (op.prog env) n := by
  by_cases hckp : op = .checkpoint
  · rw [hckp]
    exact .of_keepsLog (keepsLog_checkpointShard env) n
  · exact (course_acks env op.leads).prog hckp hop n

end Operations

/-! ### Snapshots -/

variable {faults : List Fault} {sequence : ℕ}

section Snapshot

variable (env : Env)

/-- The faults under which a cutover is made as a whole: `SaveManifest` has no effect, or it
succeeds and so does the reset of the log.  A crash after the log has been emptied counts as
success. -/
def cutsWhole : List Fault → Bool
  | [] => true
  | .fail :: _ => true
  | .crash :: _ => true
  | .failAfter :: _ => false
  | [.ok] => true
  | [.ok, .ok] => true
  | .ok :: .ok :: .ok :: _ => true
  | .ok :: .ok :: .crash :: _ => true
  | .ok :: _ => false

/-- No fault comes in the middle of a cutover to a snapshot that is ahead of the log. -/
def CutsOver (p : Process) : Event → Prop
  | .call (.installReplicaSnapshot sequence records) faults =>
    p.node.lastLSN < sequence → ∀ n rest indexes,
      (prepareSnapshot env sequence records).run faults p.node = .finished n rest (.ok indexes) →
      cutsWhole rest = true
  | _ => True

/-- What a run does to a log that was in sequence. -/
abbrev Sequential {α : Type} (kept : WalRecord → Prop) (outcome : Outcome Node Error α) : Prop :=
  outcome.Meets (fun _ => Node.Sequenced kept) (Node.Recoverable kept)

variable {env} {kept : WalRecord → Prop} {n : Node} {α β : Type}

variable {p : Action α}

lemma Sequential.of_wp {Q : Except Error α → Node → Prop}
    (h : p.wp True Q (Node.Recoverable kept) n) (hQ : ∀ result n', Q result n' → n'.Sequenced kept)
    (faults : List Fault) : Sequential kept (p.run faults n) :=
  (meets_of_wp h faults).mono hQ fun _ => id

lemma KeepsLog.sequential (hp : KeepsLog p) (hn : n.Sequenced kept)
    (faults : List Fault) : Sequential kept (p.run faults n) :=
  Sequential.of_wp (hp kept n hn) (fun _ _ => id) faults

lemma Sequential.bind {k : α → Action β} (hp : Sequential kept (p.run faults n))
    (hk : ∀ n' rest a, p.run faults n = .finished n' rest (.ok a) → n'.Sequenced kept →
      Sequential kept ((k a).run rest n')) : Sequential kept ((p >>= k).run faults n) := by
  rw [run_bind]
  cases hout : p.run faults n with
  | finished n' rest result =>
    rw [hout] at hp
    cases result with
    | ok a => exact hk n' rest a hout hp
    | error e => exact hp
  | crashed n' =>
    rw [hout] at hp
    exact hp

lemma sequential_cutOver_of_cutsWhole (hn : n.Sequenced kept) (hseq : n.lastLSN ≤ sequence)
    (records : List Record) (indexes : Indexes) (hfaults : cutsWhole faults) :
    Sequential kept ((cutOver env sequence records indexes).run faults n) := by
  have hnext : n.nextLSN ≤ (snapshotManifest env sequence records indexes).maxLSN + 1 :=
    Nat.sub_le_iff_le_add.1 hseq
  have hdone := hn.replace hnext
  rw [cutsWhole.eq_def] at hfaults
  split at hfaults
  · exact hdone
  -- nothing is published
  · exact hn
  · exact hn.recoverable
  · cases hfaults
  · exact hdone
  · exact hdone
  · exact hdone
  -- the crash comes between the truncation and the sync
  · exact ⟨_, hdone⟩
  · cases hfaults

/-- A snapshot of the last LSN is published like a checkpoint, under any faults. -/
lemma sequential_cutOver_of_lastLSN (hn : n.Sequenced kept) (records : List Record)
    (indexes : Indexes) (faults : List Fault) :
    Sequential kept ((cutOver env n.lastLSN records indexes).run faults n) :=
  Sequential.of_wp (wp_publish hn rfl) (fun _ _ => id) faults

variable (env)

/-- The installation of a snapshot keeps the log in sequence if no fault comes in the middle of
the cutover. -/
lemma sequential_installReplicaSnapshot (hn : n.Sequenced kept) {records : List Record}
    (hcuts : CutsOver env ⟨true, n⟩ (.call (.installReplicaSnapshot sequence records) faults)) :
    Sequential kept ((installReplicaSnapshot env sequence records).run faults n) := by
  have hfiles : (prepareSnapshot env sequence records).wp True (fun _ n' => FilesOnly n n')
      (FilesOnly n) n :=
    ((within_prepareSnapshot env _ _).mono fun _ _ h => h.1).wp (fun _ _ _ => .trans) (.refl n)
  have hprep : Sequential kept ((prepareSnapshot env sequence records).run faults n) :=
    (KeepsLog.of_installs ((within_prepareSnapshot env _ _).mono fun _ _ h =>
      h.1.installs)).sequential hn faults
  refine hprep.bind fun n' rest indexes hrun hn' => ?_
  obtain ⟨hframe, hle⟩ := finished_of_wp
    (wp_and hfiles (ensures_prepareSnapshot sequence records n)) hrun
  have hlast : n'.lastLSN = n.lastLSN := by rw [Node.lastLSN, hframe.sameLog.2.2, Node.lastLSN]
  refine .bind ?_ fun n'' rest' _ _ hn'' =>
    (KeepsLog.of_installs (within_installSnapshot env sequence records indexes)).sequential hn'' rest'
  rcases (hle indexes rfl).eq_or_lt with heq | hlt
  · rw [← heq, ← hlast]
    exact sequential_cutOver_of_lastLSN hn' records indexes rest
  · exact sequential_cutOver_of_cutsWhole hn' (hlast.trans_le hlt.le) records indexes
      (hcuts hlt n' rest indexes hrun)

end Snapshot

/-! ### Opening -/

variable {replayAfter : ℕ} {acc : Recovery} {rest : List Fault}

section Open

variable (env : Env)

/-- The log and the manifest on disk are the same. -/
def SameDisk (n n' : Node) : Prop :=
  n'.disk.wal = n.disk.wal ∧ n'.disk.manifest = n.disk.manifest

lemma SameDisk.trans {n₁ n₂ n₃ : Node} (h : SameDisk n₁ n₂) (h' : SameDisk n₂ n₃) :
    SameDisk n₁ n₃ := ⟨h'.1.trans h.1, h'.2.trans h.2⟩

lemma SameLog.sameDisk (h : SameLog n n') : SameDisk n n' := ⟨h.1, h.2.1⟩

lemma SameDisk.recoverable (hsame : SameDisk n n')
    (h : n.Recoverable kept) : n'.Recoverable kept := by
  obtain ⟨next, hnext⟩ := h
  exact ⟨next, hnext.congr hsame.1 hsame.2⟩

lemma within_loadSegments : (loadSegments env).Within SameDisk := by
  have hupdate : ∀ f : Node → Node, (∀ n, SameDisk n (f n)) →
      (.update f : Action Unit).Within SameDisk := fun _ => .update
  refine Within.state.bind fun n => ?_
  split
  · exact .throw _
  · exact .pure _
  · refine (Within.ofExcept _).bind fun loaded => ?_
    refine Within.bind (hupdate _ fun _ => ⟨rfl, rfl⟩) fun _ => ?_
    refine .bind ((within_restoreRouted env _).mono fun _ _ h => h.sameLog.sameDisk)
      fun _ => ?_
    refine .bind ((within_cleanupOrphans _).mono fun _ _ h => h.sameLog.sameDisk)
      fun _ => ?_
    exact hupdate _ fun _ => ⟨rfl, rfl⟩

lemma ensures_loadSegments (hn : n.checkpointLSN = 0) :
    (loadSegments env).Ensures n fun _ n' => n'.checkpointLSN = n.disk.checkpoint := by
  refine .bind_state ?_
  split
  · exact .throw _
  · rename_i hload
    refine .pure ?_
    rw [Disk.checkpoint, (loadManifest_eq_ok.1 hload).1, hn]
    rfl
  · rename_i manifest hload
    have hckp : n.disk.checkpoint = manifest.maxLSN := by
      rw [Disk.checkpoint, (loadManifest_eq_ok.1 hload).1]
      rfl
    exact .bind (.any _) fun _ _ _ => .bind (.any _) fun _ _ _ => .bind (.any _) fun _ _ _ =>
      .bind (.any _) fun _ _ _ => .bind_update (Ensures.pure hckp.symm)

/-- One record of the log: recovery remembers its LSN and replays it if it comes after the
checkpoint. -/
lemma recoverStep_cases {acc' : Recovery} {record : WalRecord}
    (h : recoverStep env replayAfter acc record = .ok acc') : acc'.lastLSN = record.lsn ∧
      (if replayAfter < record.lsn then replay env acc.shard record.mutation = .ok acc'.shard
        else acc'.shard = acc.shard) := by
  rw [recoverStep] at h
  split at h
  · cases h
  · split at h
    · rename_i hafter
      rw [if_pos hafter]
      obtain ⟨sh, hreplay, h⟩ := bind_eq_ok.1 h
      cases h
      exact ⟨rfl, hreplay⟩
    · rename_i hbefore
      rw [if_neg hbefore]
      cases h
      exact ⟨rfl, rfl⟩

/-- The whole log: the last LSN that recovery finds, and the replay of what comes after the
checkpoint, in the order of the log. -/
lemma recover_cases {wal : List WalRecord} {recovered : Recovery}
    (h : wal.foldlM (recoverStep env replayAfter) acc = .ok recovered) :
    recovered.lastLSN = (wal.getLast?.map WalRecord.lsn).getD acc.lastLSN ∧
      (wal.filter fun record => replayAfter < record.lsn).foldlM
        (fun sh record => replay env sh record.mutation) acc.shard = .ok recovered.shard := by
  induction wal generalizing acc with
  | nil =>
    cases h
    exact ⟨rfl, rfl⟩
  | cons record wal ih =>
    obtain ⟨acc', hstep, h⟩ := foldlM_cons_eq_ok.1 h
    obtain ⟨hlast, hshard⟩ := ih h
    obtain ⟨hlsn, hreplay⟩ := recoverStep_cases env hstep
    constructor
    · rw [hlast, hlsn, getLast?_cons]
      cases wal.getLast? <;> rfl
    · split at hreplay
      · rename_i hafter
        rw [filter_cons_of_pos (by simpa using hafter), foldlM_cons, hreplay]
        exact hshard
      · rename_i hbefore
        rw [filter_cons_of_neg (by simpa using hbefore), ← hreplay]
        exact hshard

/-- The shard of `m` comes from the files of `n`: what the manifest loads, and then the log
after the checkpoint. -/
def Replayed (n m : Node) : Prop :=
  ∃ faults rest loaded, (loadSegments env).run faults (n.restarted env) =
      .finished loaded rest (.ok ()) ∧
    (n.disk.wal.filter fun record => n.disk.checkpoint < record.lsn).foldlM
      (fun sh record => replay env sh record.mutation) loaded.shard = .ok m.shard

lemma run_openLog (n : Node) (faults : List Fault) : (openLog env).run faults n =
    match n.disk.wal.foldlM (recoverStep env n.checkpointLSN) ⟨0, n.shard, n.digests⟩ with
    | .error err => .finished n faults (.error err)
    | .ok recovered => .finished { n with
        shard := recovered.shard
        digests := recovered.digests
        nextLSN := if recovered.lastLSN = 0 then n.checkpointLSN + 1 else recovered.lastLSN + 1 }
      faults (.ok ()) := by
  rw [openLog, run_bind]
  change Prog.run (Prog.ofExcept _ >>= _) faults n = _
  rw [run_bind]
  cases n.disk.wal.foldlM (recoverStep env n.checkpointLSN) ⟨0, n.shard, n.digests⟩ <;> rfl

lemma openLog_cases {m : Node} (h : (openLog env).run faults n = .finished m rest (.ok ())) :
    m.disk = n.disk ∧ (n.disk.wal.filter fun record => n.checkpointLSN < record.lsn).foldlM
        (fun sh record => replay env sh record.mutation) n.shard = .ok m.shard ∧
      ∃ last, last = (n.disk.wal.getLast?.map WalRecord.lsn).getD 0 ∧
        m.nextLSN = if last = 0 then n.checkpointLSN + 1 else last + 1 := by
  rw [run_openLog] at h
  cases hrecover : n.disk.wal.foldlM (recoverStep env n.checkpointLSN) ⟨0, n.shard, n.digests⟩ with
  | error err =>
    rw [hrecover] at h
    cases h
  | ok recovered =>
    rw [hrecover] at h
    cases h
    obtain ⟨hlast, hshard⟩ := recover_cases env hrecover
    exact ⟨rfl, hshard, recovered.lastLSN, hlast, rfl⟩

lemma run_openShard (n : Node) (faults : List Fault) : (openShard env).run faults n =
    (loadSegments env >>= fun _ => openLog env).run faults (n.restarted env) := rfl

lemma sameDisk_openShard (n : Node) (faults : List Fault) :
    ((openShard env).run faults n).Meets (fun _ => SameDisk n) (SameDisk n) := by
  have hlog : (openLog env).Within SameDisk :=
    Within.state.bind fun _ => (Within.ofExcept _).bind fun _ =>
      Within.update fun _ => ⟨rfl, rfl⟩
  have hopen : (loadSegments env >>= fun _ => openLog env).wp True
      (fun _ n' => SameDisk (n.restarted env) n') (SameDisk (n.restarted env)) (n.restarted env) :=
    ((within_loadSegments env).bind fun _ => hlog).wp (fun _ _ _ => SameDisk.trans) ⟨rfl, rfl⟩
  exact meets_of_wp hopen faults

lemma loadSegments_cases (n : Node) (faults : List Fault) :
    ((loadSegments env).run faults (n.restarted env)).Meets (fun result n' => SameDisk n n' ∧
      (result = .ok () → n'.checkpointLSN = n.disk.checkpoint)) (SameDisk n) := by
  have hframe : (loadSegments env).wp True (fun _ n' => SameDisk (n.restarted env) n')
      (SameDisk (n.restarted env)) (n.restarted env) :=
    (within_loadSegments env).wp (fun _ _ _ => SameDisk.trans) ⟨rfl, rfl⟩
  exact (meets_of_wp (wp_and hframe (ensures_loadSegments env rfl)) faults).mono
    (fun _ _ h => ⟨h.1, h.2 ()⟩) fun _ h => h.1

lemma openShard_cases {m : Node} (h : (openShard env).run faults n = .finished m rest (.ok ())) :
    Replayed env n m ∧ SameDisk n m ∧
      ∃ last, last = (n.disk.wal.getLast?.map WalRecord.lsn).getD 0 ∧
        m.nextLSN = if last = 0 then n.disk.checkpoint + 1 else last + 1 := by
  have hload := loadSegments_cases env n faults
  rw [run_openShard, run_bind] at h
  cases hout : (loadSegments env).run faults (n.restarted env) with
  | crashed n' =>
    rw [hout] at h
    cases h
  | finished loaded rest' result =>
    rw [hout] at h hload
    cases result with
    | error err => cases h
    | ok _ =>
      obtain ⟨hsame, hckp⟩ := hload
      obtain ⟨hdisk, hshard, hnext⟩ := openLog_cases env h
      rw [hsame.1, hckp rfl] at hshard hnext
      refine ⟨⟨faults, rest', loaded, hout, hshard⟩, ?_, hnext⟩
      rw [SameDisk, hdisk]
      exact hsame

/-- After an opening the log goes on after its last record, or after the checkpoint. -/
lemma sequential_openShard (hn : n.Recoverable kept) (faults : List Fault) :
    ((openShard env).run faults n).Meets
      (Ends (Node.Sequenced kept) (Node.Recoverable kept)) (Node.Recoverable kept) := by
  have hsame := sameDisk_openShard env n faults
  cases hout : (openShard env).run faults n with
  | crashed n' =>
    rw [hout] at hsame
    exact hsame.recoverable hn
  | finished n' rest result =>
    rw [hout] at hsame
    cases result with
    | error err => exact hsame.recoverable hn
    | ok _ =>
      obtain ⟨next, hseq⟩ := hn
      obtain ⟨-, -, last, hlast, hnext⟩ := openShard_cases env hout
      refine .congr ?_ hsame.1 hsame.2
      rw [hnext]
      cases hwal : n.disk.wal.getLast? with
      | none =>
        have hzero : last = 0 := by rw [hlast, hwal]; rfl
        rw [if_pos hzero]
        have hempty : n.disk.wal = [] := getLast?_eq_none_iff.1 hwal
        exact ⟨by simp [hempty], by simp [hempty], Nat.lt_succ_self _, hseq.retained⟩
      | some record =>
        -- an LSN of 0 in the log would mean a checkpoint of 0
        have hrec := hseq.last record hwal
        have habove := hseq.above
        rw [hwal] at hlast
        have hlast' : last = record.lsn := hlast
        have hnext' : (if last = 0 then n.disk.checkpoint + 1 else last + 1) = next := by
          split <;> omega
        rw [hnext']
        exact hseq

end Open

/-! ### Runs -/

section Runs

variable (env : Env)

/-- Whatever happens to a shard, as long as no fault comes in the middle of a cutover: while it
is up its log is in sequence, while it is down the log on disk is, and no record is lost that
no checkpoint covers. -/
lemma sequenced_of_reaches {p q : Process} (h : Process.Reaches env (CutsOver env) p q)
    (hp : if p.up then p.node.Sequenced kept else p.node.Recoverable kept) :
    if q.up then q.node.Sequenced kept else q.node.Recoverable kept := by
  refine h.induction (fun n op faults hcuts hn => ?_) (fun n => Node.Sequenced.recoverable)
    (fun n faults _ hn => sequential_openShard env hn faults) hp
  rcases op.installs_or with ⟨sequence, records, rfl⟩ | hother
  · exact sequential_installReplicaSnapshot env hn hcuts
  · exact Sequential.of_wp (acks_prog env hother n kept hn) (fun _ _ h => h.1) faults

lemma sequenced_new : (Node.new env).Sequenced fun _ => False where
  below := by simp [Node.new]
  last := by simp [Node.new]
  above := Nat.zero_lt_one
  retained := fun _ => False.elim

end Runs

end GideonDB.Engine
