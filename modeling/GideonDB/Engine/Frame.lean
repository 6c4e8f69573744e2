/-
What the parts of the engine operations leave alone.

Preparing a checkpoint or a snapshot and cleaning up afterwards change files of segments only;
applying a mutation changes the shard in memory only.  Both hold step by step, so also where a
fault cuts them off.
-/
import GideonDB.Engine.Node

namespace GideonDB

open Go GideonDB.Core Store

/-! ### The shape of a shard -/

namespace Shard

/-- The active segment takes the writes of the collection. -/
def Shaped (config : CollectionConfig) (sh : Shard) : Prop :=
  sh.config = config ∧ sh.active.Shaped config

variable {config : CollectionConfig} {sh : Shard}

lemma Shaped.upsert (h : sh.Shaped config) (lib : Metadata.Library) (record : Record) :
    (sh.upsert lib record).1.Shaped config := by
  have hactive := h.2.upsert lib record
  rw [Shard.upsert]
  split <;> rename_i heq <;> rw [heq] at hactive <;> exact ⟨h.1, hactive⟩

lemma Shaped.delete (h : sh.Shaped config) (lib : Metadata.Library) (ns id : GoString) :
    (sh.delete lib ns id).1.Shaped config := by
  have hactive := h.2.delete lib ns id
  rw [Shard.delete]
  split
  · exact h
  split
  · split <;> rename_i heq <;> rw [heq] at hactive <;> exact ⟨h.1, hactive⟩
  · split <;> exact h
  · exact h

lemma Shaped.installImmutable (h : sh.Shaped config) (base : Segment) :
    (sh.installImmutable base).Shaped config := ⟨h.1, h.1 ▸ Segment.Shaped.new _⟩

end Shard

namespace Engine

open Prog hiding bind throw

/-- Only files of segments differ. -/
def FilesOnly (n n' : Node) : Prop :=
  n' = { n with disk := { n.disk with files := n'.disk.files } }

/-- The shard still takes the writes that it took. -/
def SameShape (n n' : Node) : Prop := ∀ config, n.shard.Shaped config → n'.shard.Shaped config

/-- Only the shard in memory differs, and not its shape. -/
def ShardOnly (n n' : Node) : Prop := n' = { n with shard := n'.shard } ∧ SameShape n n'

lemma FilesOnly.refl (n : Node) : FilesOnly n n := rfl

lemma FilesOnly.trans {n₁ n₂ n₃ : Node} (h : FilesOnly n₁ n₂) (h' : FilesOnly n₂ n₃) :
    FilesOnly n₁ n₃ := by
  rw [FilesOnly] at *
  rw [h', h]

/-- Only files of segments and what comes from a checkpoint in memory differ. -/
def Installs (n n' : Node) : Prop :=
  n' = { n with
    disk := { n.disk with files := n'.disk.files }
    shard := n'.shard
    checkpointLSN := n'.checkpointLSN
    mutations := n'.mutations
    digests := n'.digests } ∧ SameShape n n'

lemma Installs.trans {n₁ n₂ n₃ : Node} (h : Installs n₁ n₂) (h' : Installs n₂ n₃) :
    Installs n₁ n₃ := by
  refine ⟨?_, fun config hshape => h'.2 config (h.2 config hshape)⟩
  rw [h'.1, h.1]

lemma FilesOnly.installs {n n' : Node} (h : FilesOnly n n') : Installs n n' := by
  rw [h]
  exact ⟨rfl, fun _ => id⟩

lemma ShardOnly.installs {n n' : Node} (h : ShardOnly n n') : Installs n n' := by
  refine ⟨?_, h.2⟩
  rw [h.1]

/-- Only files of the given names differ. -/
def Writes (P : FileName → Prop) (n n' : Node) : Prop :=
  FilesOnly n n' ∧ ∀ name, ¬ P name → n'.disk.files.get name = n.disk.files.get name

namespace Writes

variable {P : FileName → Prop} {n₁ n₂ n₃ : Node}

lemma refl (P : FileName → Prop) (n : Node) : Writes P n n := ⟨rfl, fun _ _ => rfl⟩

lemma trans (h : Writes P n₁ n₂) (h' : Writes P n₂ n₃) : Writes P n₁ n₃ :=
  ⟨h.1.trans h'.1, fun name hname => (h'.2 name hname).trans (h.2 name hname)⟩

lemma mono {P' : FileName → Prop} (h : Writes P n₁ n₂) (hP : ∀ name, P name → P' name) :
    Writes P' n₁ n₂ :=
  ⟨h.1, fun name hname => h.2 name fun hP' => hname (hP name hP')⟩

end Writes

/-- The new segments. -/
def OfSegments (lsn : ℕ) (name : FileName) : Prop :=
  name.stem = .delta lsn ∨ ∃ inputLSN, name.stem = .compact inputLSN lsn

/-- The new indexes. -/
def OfView (lsn : ℕ) (name : FileName) : Prop :=
  name.stem = .view lsn ∨ name.stem = .segmentView lsn

/-- The names of files that one checkpoint makes. -/
def OfCheckpoint (lsn : ℕ) (name : FileName) : Prop := OfSegments lsn name ∨ OfView lsn name

section Files

variable (env : Env) {P : FileName → Prop}

lemma within_writeFile {name : FileName} (hname : P name) (content : Content) :
    (writeFile name content).Within (Writes P) :=
  Within.file fun _ => ⟨rfl, fun name' hname' => GoMap.get_set_of_ne _ _ (by
    rintro rfl
    exact hname' hname)⟩

lemma within_writeBundle {stem : Stem} (hstem : ∀ kind, P ⟨stem, kind⟩) (records : List Record)
    (maxLSN : ℕ) : (writeBundle env stem records maxLSN).Within (Writes P) := by
  rw [writeBundle]
  split
  · exact .throw _
  · split
    · exact .throw _
    · split
      · exact .throw _
      · exact (within_writeFile (hstem _) _).bind fun _ => within_writeFile (hstem _) _

lemma within_statAll (names : List FileName) : (statAll env names).Within (Writes P) := by
  refine Within.state.bind fun n => ?_
  split
  · exact .pure _
  · exact .throw _

lemma within_writeTombstones {stem : Stem} (hstem : ∀ kind, P ⟨stem, kind⟩)
    (tombstones : List GoString) (maxLSN : ℕ) :
    (writeTombstones stem tombstones maxLSN).Within (Writes P) := by
  rw [writeTombstones]
  split
  · exact .pure _
  · exact (within_writeFile (hstem _) _).bind fun _ => .pure _

lemma within_writeSegmentRef {stem : Stem} (hstem : ∀ kind, P ⟨stem, kind⟩)
    (records : List Record) (tombstones : List GoString) (maxLSN : ℕ) :
    (writeSegmentRef env stem records tombstones maxLSN).Within (Writes P) :=
  (within_writeBundle env hstem _ _).bind fun _ => (within_writeTombstones hstem _ _).bind fun _ =>
    (within_statAll env _).bind fun _ => .pure _

lemma within_compactSegmentRefs (refs : List SegmentRef) (sequence : ℕ) :
    (compactSegmentRefs env refs sequence).Within (Writes (OfSegments sequence)) := by
  refine (Within.ofExcept _).bind fun plan => ?_
  split
  · exact .pure _
  · refine Within.state.bind fun n => (Within.ofExcept _).bind fun merged => ?_
    exact (within_writeSegmentRef env (fun kind => .inr ⟨_, rfl⟩) _ _ _).bind fun _ =>
      Within.pure _

lemma within_buildViewPQ (refs : List SegmentRef) (records : List Record) :
    (buildViewPQ refs records).Within (Writes P) := by
  refine Within.state.bind fun n => (Within.ofExcept _).bind fun values => ?_
  split
  · exact .pure _
  · exact .throw _

lemma within_writeGraph {name : FileName} (hname : env.config.indexType = .hnsw → P name)
    (records : List Record) : (writeGraph env name records).Within (Writes P) := by
  rw [writeGraph]
  split
  · rename_i htype
    split
    · exact (within_writeFile (hname htype) _).bind fun _ => .pure _
    · exact .throw _
  · exact .pure _

lemma within_writeDiskANN {name : FileName} (hname : P name) (records : List Record)
    (current : Option FileName) : (writeDiskANN env name records current).Within (Writes P) := by
  rw [writeDiskANN]
  split
  · exact .pure _
  · split
    · exact (within_writeFile hname _).bind fun _ => .pure _
    · exact .throw _

lemma within_writePQ {name : FileName} {count : ℕ} (hname : usesPQ env count → P name)
    {check : Action Unit} (hcheck : check.Within (Writes P)) :
    (writePQ env name check count).Within (Writes P) := by
  rw [writePQ]
  split
  · rename_i hpq
    exact hcheck.bind fun _ => (within_writeFile (hname hpq) _).bind fun _ => .pure _
  · exact .pure _

lemma within_writeIndexes {stem diskannStem : Stem} {records : List Record}
    (hfilter : P ⟨stem, .filter⟩) (hgraph : env.config.indexType = .hnsw → P ⟨stem, .graph⟩)
    (hpq : usesPQ env records.length → P ⟨stem, .pq⟩) (hdiskann : P ⟨diskannStem, .diskann⟩)
    {checkPQ : Action Unit} (hcheck : checkPQ.Within (Writes P)) (maxLSN : ℕ) :
    (writeIndexes env stem diskannStem checkPQ records maxLSN).Within (Writes P) := by
  rw [writeIndexes]
  split
  · exact .throw _
  · exact (within_writeFile hfilter _).bind fun _ => (within_writeGraph env hgraph _).bind fun _ =>
      (within_writePQ env hpq hcheck).bind fun _ =>
        (within_writeDiskANN env hdiskann _ _).bind fun _ => .pure _

lemma within_cleanupOrphans (manifest : Manifest) : (cleanupOrphans manifest).Within FilesOnly := by
  refine Within.state.bind fun n => ?_
  generalize n.disk.files.keys.filter _ = names
  induction names with
  | nil => exact .pure _
  | cons name names ih =>
    have hremove : (Prog.file .io (Node.removeFile name) : Action Unit).Within FilesOnly :=
      Within.file fun _ => rfl
    rw [removeAll]
    exact hremove.bind fun _ => ih

lemma within_installCheckpoint (plan : Plan) : (installCheckpoint env plan).Within Installs := by
  refine Within.bind (Within.update fun _ => ⟨rfl, fun _ => id⟩) fun _ =>
    (Within.ofExcept _).bind fun _ => Within.state.bind fun _ => (Within.ofExcept _).bind fun _ => ?_
  exact Within.bind (Within.update fun _ => ⟨rfl, fun _ h => h.installImmutable _⟩) fun _ =>
    (within_cleanupOrphans _).mono fun _ _ => FilesOnly.installs

lemma within_installSnapshot (sequence : ℕ) (records : List Record) (indexes : Indexes) :
    (installSnapshot env sequence records indexes).Within Installs :=
  Within.state.bind fun _ => (Within.ofExcept _).bind fun _ =>
    Within.bind (Within.update fun _ => ⟨rfl, fun _ h => h.installImmutable _⟩) fun _ =>
      (within_cleanupOrphans _).mono fun _ _ => FilesOnly.installs

lemma within_oldRefs (old : Option Manifest) : (oldRefs env old).Within (Writes P) := by
  rw [oldRefs.eq_def]
  split
  · exact .pure _
  · split
    · exact ((within_statAll env _).bind fun _ => .pure _).bind fun _ =>
        Within.pure _
    · exact .pure _

lemma within_stageSegments (old : Option Manifest) (delta : List Record)
    (tombstones : List GoString) (maxLSN : ℕ) :
    (stageSegments env old delta tombstones maxLSN).Within (Writes (OfSegments maxLSN)) := by
  refine (within_oldRefs env old).bind fun refs => ?_
  split
  · exact (within_writeSegmentRef env (fun kind => .inl rfl) _ _ _).bind fun _ =>
      within_compactSegmentRefs env _ _
  · exact within_compactSegmentRefs env _ _

lemma within_viewIndexes (refs : List SegmentRef) (records : List Record) (maxLSN : ℕ) :
    (writeIndexes env (.view maxLSN) (.segmentView maxLSN) (buildViewPQ refs records) records
      maxLSN).Within (Writes (OfView maxLSN)) :=
  within_writeIndexes env (.inl rfl) (fun _ => .inl rfl) (fun _ => .inl rfl) (.inr rfl)
    (within_buildViewPQ _ _) _

lemma within_stageCheckpoint (old : Option Manifest) (delta : List Record)
    (tombstones : List GoString) (records : List Record) (maxLSN : ℕ) :
    (stageCheckpoint env old delta tombstones records maxLSN).Within
      (Writes (OfCheckpoint maxLSN)) :=
  ((within_stageSegments env _ _ _ _).mono fun _ _ h => h.mono fun _ => .inl).bind fun _ =>
    ((within_viewIndexes env _ _ _).mono fun _ _ h => h.mono fun _ => .inr).bind fun _ =>
      Within.pure _

/-- Preparing a checkpoint touches files of segments only. -/
theorem within_prepareCheckpoint : (prepareCheckpoint env).Within FilesOnly := by
  have hsync : (Prog.file .io id : Action Unit).Within FilesOnly := Within.file fun _ => rfl
  refine hsync.bind fun _ => Within.state.bind fun n => ?_
  split
  · exact .throw _
  · refine (Within.ofExcept _).bind fun old => ?_
    split
    · exact .pure _
    · exact ((within_stageCheckpoint env _ _ _ _ _).mono fun _ _ h => h.1).bind fun _ =>
        Within.pure _

/-- The files of a snapshot. -/
def OfSnapshot (sequence : ℕ) (name : FileName) : Prop := name.stem = .base sequence

lemma within_snapshotFiles (sequence : ℕ) (records : List Record) :
    (writeBundle env (.base sequence) records sequence >>= fun _ =>
      writeIndexes env (.base sequence) (.base sequence) (pure ()) records sequence).Within
        (Writes (OfSnapshot sequence)) :=
  (within_writeBundle env (fun _ => rfl) _ _).bind fun _ =>
    within_writeIndexes env (by rfl) (fun _ => by rfl) (fun _ => by rfl) (by rfl) (Within.pure _) _

/-- Preparing a snapshot touches its own files only. -/
theorem within_prepareSnapshot (sequence : ℕ) (records : List Record) :
    (prepareSnapshot env sequence records).Within (Writes (OfSnapshot sequence)) := by
  refine Within.state.bind fun n => ?_
  split
  · exact .throw _
  · split
    · exact .throw _
    · exact (Within.ofExcept _).bind fun _ => (Within.ofExcept _).bind fun _ =>
        within_snapshotFiles env _ _

end Files

/-! ### The shard in memory -/

section Memory

variable (env : Env)

lemma within_mutateShard {f : Shard → Shard × Option Segment.Error}
    (hf : ∀ config sh, Shard.Shaped config sh → (f sh).1.Shaped config) :
    (mutateShard f).Within ShardOnly := by
  have hwrite : (Prog.update (Node.setShard fun sh => (f sh).1) : Action Unit).Within ShardOnly :=
    Within.update fun _ => ⟨rfl, fun config => hf config _⟩
  refine Within.state.bind fun n => hwrite.bind fun _ => ?_
  split
  · exact .pure _
  · exact .throw _

lemma within_shardUpsert (record : Record) :
    (mutateShard fun sh => sh.upsert env.lib record).Within ShardOnly :=
  within_mutateShard fun _ _ h => h.upsert _ _

lemma within_shardDelete (ns id : GoString) :
    (mutateShard fun sh => sh.delete env.lib ns id).Within ShardOnly :=
  within_mutateShard fun _ _ h => h.delete _ _ _

lemma within_deleteIfPresent (ns id : GoString) : (deleteIfPresent env ns id).Within ShardOnly := by
  refine within_mutateShard fun config sh h => ?_
  have hdelete := h.delete env.lib ns id
  split
  · rename_i heq
    rwa [heq] at hdelete
  · exact hdelete

lemma within_upsertAll (records : List Record) : (upsertAll env records).Within ShardOnly := by
  induction records with
  | nil => exact .pure _
  | cons record records ih =>
    rw [upsertAll]
    exact (within_shardUpsert env _).bind fun _ => ih

lemma within_restoreAll (records : List Record) : (restoreAll env records).Within ShardOnly := by
  induction records with
  | nil => exact .pure _
  | cons record records ih =>
    rw [restoreAll]
    exact (Within.ofExcept _).bind fun _ => (within_shardUpsert env _).bind fun _ => ih

lemma within_restoreRouted (records : List Record) :
    (restoreRouted env records).Within ShardOnly := by
  induction records with
  | nil => exact .pure _
  | cons record records ih =>
    rw [restoreRouted]
    split
    · exact (within_restoreAll env _).bind fun _ => ih
    · exact .throw _

end Memory

/-! ### Calls that succeed -/

section Success

variable {env : Env}

lemma ensures_stageCheckpoint (old : Option Manifest) (delta : List Record)
    (tombstones : List GoString) (records : List Record) (maxLSN : ℕ) (n : Node) :
    (stageCheckpoint env old delta tombstones records maxLSN).Ensures n fun plan _ =>
      plan.maxLSN = maxLSN :=
  .bind (.any _) fun _ _ _ => .bind (.any _) fun _ _ _ => Ensures.pure rfl

lemma ensures_prepareCheckpoint (n : Node) : (prepareCheckpoint env).Ensures n fun plan n' =>
    (plan = none ↔ upToDate n.disk.manifest n.lastLSN n.shard.checkpointDelta.1
      n.shard.checkpointDelta.2) ∧ (plan = none → n'.disk = n.disk) ∧
      ∀ plan' ∈ plan, plan'.maxLSN = n.lastLSN := by
  refine Ensures.bind (Ensures.file rfl) fun _ n₁ (hn₁ : n₁ = n) => ?_
  subst hn₁
  refine .bind_state ?_
  split
  · exact .throw _
  refine .bind_ofExcept fun old hold => ?_
  obtain ⟨rfl, -⟩ := loadManifest_eq_ok.1 hold
  split_ifs with hdate
  · exact Ensures.pure ⟨iff_of_true rfl hdate, fun _ => rfl, by simp⟩
  · exact .bind (ensures_stageCheckpoint _ _ _ _ _ _) fun _ _ hplan =>
      Ensures.pure ⟨iff_of_false (by simp) hdate, by simp, by simpa using hplan⟩

lemma ensures_prepareSnapshot (sequence : ℕ) (records : List Record) (n : Node) :
    (prepareSnapshot env sequence records).Ensures n fun _ _ => n.lastLSN ≤ sequence := by
  refine .bind_state ?_
  split
  · exact .throw _
  · split_ifs with hle
    · exact .throw _
    · exact (Ensures.any _).mono fun _ _ _ => Nat.le_of_not_lt hle

lemma ensures_reset (next : ℕ) (n : Node) : (reset next).Ensures n fun _ n' =>
    n'.disk.wal = [] ∧ n'.disk.manifest = n.disk.manifest ∧ n'.disk.files = n.disk.files := by
  cases next with
  | zero => exact .throw _
  | succ last =>
  refine Ensures.bind (Ensures.file rfl) fun _ n₁ (hn₁ : n₁ = _) => ?_
  refine Ensures.bind (Ensures.file rfl) fun _ n₂ (hn₂ : n₂ = _) => ?_
  subst hn₁ hn₂
  exact Ensures.bind_update (Ensures.pure ⟨rfl, rfl, rfl⟩)

end Success

end Engine

end GideonDB
