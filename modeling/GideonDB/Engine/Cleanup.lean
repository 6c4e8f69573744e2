/-
The files that a shard keeps.

Checkpoints, snapshots and opening a shard end with `CleanupOrphans`.  It takes a file for an orphan
only if its name starts with `segment-`, so the indexes of a view, `view-%020d`, stay in the
directory when their manifest has been replaced.  A checkpoint with nothing to do and opening a
shard without a manifest do not clean up at all.
-/
import GideonDB.Engine.Checkpoint
import GideonDB.Engine.Run

namespace GideonDB.Engine

open Go GideonDB.Core Store
open Prog hiding bind throw

/-- The calls that end with a clean directory. -/
inductive Call
  | checkpoint
  | installReplicaSnapshot (sequence : ℕ) (records : List Record)
  | reopen

/-- The engine's function. -/
def Call.prog (env : Env) : Call → Action Unit
  | checkpoint => checkpointShard env
  | installReplicaSnapshot sequence records => Engine.installReplicaSnapshot env sequence records
  | reopen => openShard env

/-- The call does not come to `CleanupOrphans`, if it succeeds. -/
def Call.Idle (n : Node) : Call → Prop
  | checkpoint =>
    upToDate n.disk.manifest n.lastLSN n.shard.checkpointDelta.1 n.shard.checkpointDelta.2 = true
  | installReplicaSnapshot _ _ => False
  | reopen => n.disk.manifest = none

/-- The names that the manifest on disk refers to. -/
def Disk.referenced (disk : Disk) : List FileName :=
  (disk.manifest.map Manifest.referenced).getD []

/-- The files that `CleanupOrphans` looks at are all referred to. -/
def Disk.Cleaned (disk : Disk) : Prop :=
  ∀ name ∈ disk.files.keys, name.orphanCandidate = true → name ∈ disk.referenced

/-- The files that `CleanupOrphans` does not look at: the indexes of views. -/
def Disk.views (disk : Disk) : List FileName :=
  disk.files.keys.filter fun name => !name.orphanCandidate

/-- Those that a checkpoint writes. -/
def viewFiles (env : Env) (lsn count : ℕ) : List FileName :=
  ⟨.view lsn, .filter⟩ :: ((if env.config.indexType = .hnsw then [⟨.view lsn, .graph⟩] else []) ++
    if usesPQ env count then [⟨.view lsn, .pq⟩] else [])

/-- The views among which a call that cleans up leaves a tidy directory. -/
def Call.views (env : Env) (n : Node) : Call → List FileName
  | checkpoint => viewFiles env n.lastLSN n.shard.list.length
  | installReplicaSnapshot _ _ => []
  | reopen => n.disk.referenced

section Calls

variable {env : Env} {n n' : Node}

lemma Disk.mem_views {disk : Disk} {name : FileName} :
    name ∈ disk.views ↔ name ∈ disk.files.keys ∧ name.orphanCandidate = false := by
  rw [views, List.mem_filter, Bool.not_eq_true']

lemma Disk.stem_of_mem_views {disk : Disk} {name : FileName} (h : name ∈ disk.views) :
    ∃ lsn, name.stem = .view lsn := by
  have hview := (mem_views.1 h).2
  rw [FileName.orphanCandidate] at hview
  split at hview
  · exact ⟨_, ‹_›⟩
  · cases hview

lemma Writes.views {P : FileName → Prop} (h : Writes P n n') {name : FileName}
    (hname : name ∈ n'.disk.views) : name ∈ n.disk.views ∨ P name := by
  rw [Disk.mem_views, GoMap.mem_keys] at hname
  by_cases hP : P name
  · exact .inr hP
  · rw [h.2 name hP, ← GoMap.mem_keys, ← Disk.mem_views] at hname
    exact .inl hname

lemma ensures_removeAll (names : List FileName) :
    (removeAll names).Ensures n fun _ n' => n'.disk.manifest = n.disk.manifest ∧
      ∀ name ∈ n'.disk.files.keys, name ∈ n.disk.files.keys ∧ name ∉ names := by
  induction names generalizing n with
  | nil => exact Ensures.pure ⟨rfl, fun name hname => ⟨hname, List.not_mem_nil⟩⟩
  | cons name names ih =>
    refine Ensures.bind (Ensures.file rfl) fun _ n₁ (hn₁ : n₁ = _) => ?_
    subst hn₁
    refine ih.mono fun _ n' hn' => ⟨hn'.1, fun other hother => ?_⟩
    obtain ⟨hmem, hnot⟩ := hn'.2 other hother
    have hmem : other ∈ (n.disk.files.delete name).keys := hmem
    rw [GoMap.keys_delete, n.disk.files.nodup_keys.mem_erase_iff] at hmem
    exact ⟨hmem.2, List.not_mem_cons_of_ne_of_not_mem hmem.1 hnot⟩

/-- What `CleanupOrphans` leaves of a directory. -/
structure CleanedUp (manifest : Manifest) (files : Files) (disk : Disk) : Prop where
  manifest : disk.manifest = some manifest
  cleaned : disk.Cleaned
  files : ∀ name ∈ disk.files.keys, name ∈ files.keys

lemma ensures_cleanupOrphans {manifest : Manifest} {files : Files}
    (h : n.disk.manifest = some manifest) (hfiles : n.disk.files = files) :
    (cleanupOrphans manifest).Ensures n fun _ n' => CleanedUp manifest files n'.disk := by
  subst hfiles
  refine .bind_state ((ensures_removeAll _).mono fun _ n' hn' =>
    ⟨hn'.1.trans h, fun name hname horphan => ?_, fun name hname => (hn'.2 name hname).1⟩)
  obtain ⟨hmem, hnot⟩ := hn'.2 name hname
  rw [Disk.referenced, hn'.1, h]
  by_contra hrefd
  exact hnot (List.mem_filter.2 ⟨hmem, by simpa [horphan] using hrefd⟩)

/-- What a call that succeeds leaves. -/
structure Call.Leaves (env : Env) (call : Call) (n : Node) (disk : Disk) : Prop where
  idle : call.Idle n → disk = n.disk
  cleaned : ¬ call.Idle n → disk.Cleaned
  views : ¬ call.Idle n → ∀ name ∈ disk.views, name ∈ n.disk.views ∨ name ∈ call.views env n
  referenced : ¬ call.Idle n → ∀ name ∈ call.views env n, name ∈ disk.referenced

lemma CleanedUp.referenced {manifest : Manifest} {files : Files} {disk : Disk}
    (h : CleanedUp manifest files disk) : disk.referenced = manifest.referenced := by
  rw [Disk.referenced, h.manifest]
  rfl

lemma CleanedUp.views {manifest : Manifest} (h : CleanedUp manifest n.disk.files n'.disk)
    {name : FileName} (hname : name ∈ n'.disk.views) : name ∈ n.disk.views := by
  rw [Disk.mem_views] at hname ⊢
  exact ⟨h.files name hname.1, hname.2⟩

lemma Call.ensures_installReplicaSnapshot (sequence : ℕ) (records : List Record) :
    ((installReplicaSnapshot sequence records).prog env).Ensures n fun _ n' =>
      (installReplicaSnapshot sequence records).Leaves env n n'.disk := by
  refine .bind (ensures_writes (within_prepareSnapshot env _ _) n) fun indexes n₁ hn₁ => ?_
  refine .bind (Q := fun _ n' => n'.disk.manifest =
    some (snapshotManifest env sequence records indexes) ∧ n'.disk.files = n₁.disk.files) ?_
    fun _ n₂ hn₂ => .bind_state (.bind_ofExcept fun _ _ => .bind_update ?_)
  · refine Ensures.bind (Ensures.file rfl) fun _ n₂ (hn₂ : n₂ = _) => ?_
    subst hn₂
    exact (ensures_reset _ _).mono fun _ _ hreset => hreset.2
  · refine .mono (ensures_cleanupOrphans (by exact hn₂.1) (by exact hn₂.2)) fun _ n' hn' =>
      ⟨False.elim, fun _ => hn'.cleaned, fun _ name hname => .inl ?_, nofun⟩
    refine (hn₁.views (hn'.views hname)).resolve_right fun hstem => ?_
    obtain ⟨_, hview⟩ := Disk.stem_of_mem_views hname
    cases hview.symm.trans hstem

end Calls

end GideonDB.Engine
