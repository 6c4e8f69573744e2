/-
Snapshots installed on a shard.

Without failures `InstallReplicaSnapshot` either refuses the snapshot and changes nothing, or
makes it the checkpoint of the shard: the records are those of the snapshot, and the log goes on
after its sequence.
-/
import GideonDB.Engine.Checkpoint

namespace GideonDB.Engine

open Go GideonDB.Core Segment Store List
open Prog hiding bind throw

/-! ### The checks -/

section Check

variable {env : Env}

lemma nodup_of_checkSnapshotRecord {items : List (Record × ℕ)} {seen seen' : GoMap GoString Unit}
    (h : items.foldlM (checkSnapshotRecord env) seen = .ok seen') :
    (items.map fun item => item.1.key).Nodup ∧ ∀ item ∈ items, seen.has item.1.key = false := by
  induction items generalizing seen with
  | nil => simp
  | cons item items ih =>
    obtain ⟨seen₁, hstep, hrest⟩ := foldlM_cons_eq_ok.1 h
    rw [checkSnapshotRecord] at hstep
    split at hstep
    · cases hstep
    split at hstep
    · cases hstep
    rename_i hseen
    rw [Bool.not_eq_true] at hseen
    split at hstep
    · cases hstep
      obtain ⟨hnodup, hfresh⟩ := ih hrest
      have hnot : ∀ item' ∈ items, item'.1.key ≠ item.1.key ∧ seen.has item'.1.key = false := by
        intro item' hmem
        have hhas := hfresh item' hmem
        rw [GoMap.has_set, Bool.or_eq_false_iff] at hhas
        exact ⟨of_decide_eq_false hhas.1, hhas.2⟩
      refine ⟨nodup_cons.2 ⟨fun hmem => ?_, hnodup⟩,
        forall_mem_cons.2 ⟨hseen, fun item' hmem => (hnot item' hmem).2⟩⟩
      obtain ⟨item', hmem, heq⟩ := mem_map.1 hmem
      exact (hnot item' hmem).1 heq
    · cases hstep

lemma nodup_of_checks {records : List Record} {seen : GoMap GoString Unit}
    (h : records.zipIdx.foldlM (checkSnapshotRecord env) .empty = .ok seen) :
    (records.map Record.key).Nodup := by
  have hnodup := (nodup_of_checkSnapshotRecord h).1
  have hmap : (records.zipIdx.map fun item => item.1.key) = records.map Record.key := by
    conv_rhs => rw [← zipIdx_map_fst 0 records, map_map]
    rfl
  rwa [hmap] at hnodup

end Check

/-! ### The files -/

section Files

variable {env : Env} {n : Node} {records : List Record} {sequence : ℕ}

lemma succeeds_writePQ (name : FileName) (count : ℕ) :
    (writePQ env name (pure ()) count).Succeeds n := by
  rw [writePQ]
  split
  · exact (Succeeds.pure ()).bind fun _ _ => Succeeds.file.bind fun _ _ =>
      Succeeds.pure _
  · exact .pure _

/-- The files of a snapshot. -/
structure SnapshotFiles (env : Env) (files : Files) (sequence : ℕ) (records : List Record)
    (indexes : Indexes) : Prop where
  recordColumn : files.get ⟨.base sequence, .records⟩ =
    some (.records sequence (records.map withoutVector))
  vectorColumn : files.get ⟨.base sequence, .vectors⟩ =
    some (.vectors sequence env.config.dimension (records.map Record.vector))
  indexed : Indexed env files (.base sequence) (.base sequence) records sequence indexes

lemma SnapshotFiles.describes {files : Files} {indexes : Indexes}
    (h : SnapshotFiles env files sequence records indexes)
    (hsound : ∀ record ∈ records, Sound env record) (hnodup : (records.map Record.key).Nodup)
    (hdim : env.config.dimension ≠ 0) :
    Describes env files (snapshotManifest env sequence records indexes) records where
  accepted := if_neg hdim
  dimension := rfl
  sound := hsound
  nodup := hnodup
  segments := ⟨[⟨records, []⟩], .cons ⟨h.recordColumn, h.vectorColumn, rfl, rfl, rfl,
    fun record hmem => (hsound record hmem).column, hnodup, rfl, by simp, by simp⟩ .nil, rfl⟩
  count := rfl
  filter := by
    obtain ⟨file, hfile, -, hget⟩ := h.indexed.filter
    exact ⟨_, file, rfl, hfile, hget⟩
  graph := h.indexed.graph
  stamped := by
    obtain ⟨hfilter, hpq, hgraph⟩ := h.indexed.names
    intro name hname
    have hstem : name.stem = .base sequence := by
      simp only [Manifest.referenced, snapshotManifest, mem_append, Option.mem_toList,
        mem_cons, not_mem_nil, or_false] at hname
      rcases hname with ((hname | hname) | hname) | hname | hname
      · exact (hgraph name hname).elim id id
      · cases hname
        exact hfilter
      · exact hpq name hname
      · rw [hname]
      · rw [hname]
    rw [hstem]
    exact ⟨le_rfl, fun _ => ⟨sequence, rfl⟩⟩

section

variable (h : ∀ record ∈ records, Sound env record)

include h

lemma succeeds_writeGraph (name : FileName) : (writeGraph env name records).Succeeds n := by
  rw [writeGraph]
  split
  · rw [if_pos (all_eq_true.2 fun record hmem => decide_eq_true (h record hmem).dimension)]
    exact Succeeds.file.bind fun _ _ => Succeeds.pure _
  · exact .pure _

lemma succeeds_writeDiskANN (name : FileName) (current : Option FileName) :
    (writeDiskANN env name records current).Succeeds n := by
  rw [writeDiskANN]
  split
  · exact .pure _
  · rw [if_pos (all_eq_true.2 fun record hmem => decide_eq_true (h record hmem).dimension)]
    exact Succeeds.file.bind fun _ _ => Succeeds.pure _

lemma succeeds_writeIndexes (stem : Stem) (maxLSN : ℕ) :
    (writeIndexes env stem stem (pure ()) records maxLSN).Succeeds n := by
  obtain ⟨file, hfile, -⟩ := Metadata.Index.marshalRecords_eq env.lib (records.map Record.metadata)
  rw [writeIndexes, hfile]
  exact Succeeds.file.bind fun _ _ => (succeeds_writeGraph h _).bind fun _ _ =>
    (succeeds_writePQ _ _).bind fun _ _ => (succeeds_writeDiskANN h _ _).bind fun _ _ =>
      Succeeds.pure _

lemma wp_snapshotFiles (hdim : env.config.dimension ≠ 0) (n : Node) :
    (writeBundle env (.base sequence) records sequence >>= fun _ =>
      writeIndexes env (.base sequence) (.base sequence) (pure ()) records sequence).wp False
        (fun result n' => ∃ indexes, result = .ok indexes ∧ Writes (OfSnapshot sequence) n n' ∧
          SnapshotFiles env n'.disk.files sequence records indexes)
        (Writes (OfSnapshot sequence) n) n := by
  have hbundle : (writeBundle env (.base sequence) records sequence).Succeeds n := by
    have hfind : records.find? (fun record => record.vector.length ≠ env.config.dimension) = none :=
      find?_eq_none.2 fun record hmem => by simp [(h record hmem).dimension]
    rw [writeBundle, if_neg hdim, hfind, mapM_codec_withoutVector fun record hmem =>
      (h record hmem).column]
    exact Succeeds.file.bind fun _ _ => Succeeds.file
  have hsucc := hbundle.bind fun _ n' =>
    succeeds_writeIndexes h (.base sequence) sequence (n := n')
  have hframe : wp False _ _ _ n := (within_snapshotFiles env sequence records).wp
    (fun _ _ _ => .trans) (.refl _ n)
  have hkinds : (writeIndexes env (.base sequence) (.base sequence) (pure ()) records
      sequence).Within (Writes fun name => name.kind ≠ .records ∧ name.kind ≠ .vectors) :=
    within_writeIndexes env (by simp) (by simp) (by simp) (by simp) (.pure _) _
  have hfiles : Ensures (writeBundle env (.base sequence) records sequence >>= fun _ =>
      writeIndexes env (.base sequence) (.base sequence) (pure ()) records sequence) n
        fun indexes n' => SnapshotFiles env n'.disk.files sequence records indexes := by
    refine .bind (ensures_writeBundle (fun record hmem => (h record hmem).column)
      (.base sequence) sequence) fun _ n₁ hn₁ => ?_
    obtain ⟨-, hrecs, hvecs⟩ := hn₁
    refine ((ensures_writeIndexes (.base sequence) (.base sequence) (fun P => .pure ())
      sequence).and (ensures_writes hkinds n₁)).mono fun indexes n₂ hn₂ => ?_
    exact ⟨(hn₂.2.2 _ (by simp)).trans hrecs, (hn₂.2.2 _ (by simp)).trans hvecs, hn₂.1⟩
  refine wp_mono (wp_and hframe (hsucc.wp hfiles)) (fun result n' hn' => ?_) fun _ => And.left
  obtain ⟨hwrites, indexes, hres, hsnap⟩ := hn'
  exact ⟨indexes, hres, hwrites, hsnap⟩

end

end Files

/-! ### The installation -/

section Install

variable {env : Env} {n : Node} {base records : List Record} {sequence : ℕ} {indexes : Indexes}

lemma SnapshotFiles.snapshotBase_ok {files : Files}
    (h : SnapshotFiles env files sequence records indexes)
    (hsound : ∀ record ∈ records, Sound env record) (hnodup : (records.map Record.key).Nodup) :
    ∃ segment, snapshotBase env files records indexes = .ok segment ∧
      Serves env segment records := by
  have hnone : ∃ segment, recordsBase env records none = .ok segment ∧
      Serves env segment records := recordsBase_spec hsound hnodup nofun
  have hgraph := h.indexed.graph
  rw [GraphFor] at hgraph
  rw [snapshotBase.eq_def]
  cases htype : env.config.indexType with
  | flat => exact hnone
  | hnsw => exact hnone
  | diskann =>
    rw [htype] at hgraph
    rcases hgraph with ⟨hname, -⟩ | ⟨name, hname, hfile⟩
    · rw [hname]
      exact hnone
    · obtain ⟨file, hmarshal, hdata, -⟩ := h.indexed.filter
      obtain ⟨idx, hidx, hindexFor⟩ := loadFilter_ok hsound hmarshal
      obtain ⟨segment, hseg, hserves⟩ := diskANNBase_spec hsound hnodup hindexFor hfile
        (.inl rfl)
      rw [← hdata] at hidx
      rw [hname]
      refine ⟨segment, ?_, hserves⟩
      change (loadFilter env indexes.data records.length >>= _) = _
      rw [hidx]
      exact hseg

/-- A shard with a snapshot as its checkpoint. -/
structure Installed (env : Env) (sequence : ℕ) (records : List Record) (n' : Node) : Prop where
  coherent : Coherent env records n'
  lookup : n'.shard.lookup = liveOf records
  nextLSN : n'.nextLSN = sequence + 1
  manifest : ∃ manifest recordsName vectorsName, n'.disk.manifest = some manifest ∧
    manifest.layout = .column recordsName vectorsName

lemma durable_snapshot {disk : Disk}
    (h : Describes env disk.files (snapshotManifest env sequence records indexes) records)
    (hman : disk.manifest = some (snapshotManifest env sequence records indexes))
    (hwal : disk.wal = []) : Durable env disk records (liveOf records) (sequence + 1) := by
  have hckp : disk.checkpoint = sequence := by
    rw [Disk.checkpoint, hman]
    rfl
  refine ⟨?_, ?_, ?_, by omega, by omega, fun record hmem => ?_, ?_⟩
  · rw [hman]
    exact h
  · rw [hwal]
    rfl
  · rw [hwal]
    exact Nat.succ_pos _
  · rw [hwal] at hmem
    cases hmem
  · rw [hwal]
    rfl

lemma SnapshotFiles.wp_installSnapshot {n₂ : Node}
    (h : SnapshotFiles env n₂.disk.files sequence records indexes)
    (hsound : ∀ record ∈ records, Sound env record) (hnodup : (records.map Record.key).Nodup)
    (hdim : env.config.dimension ≠ 0) (hconf : n₂.shard.config = env.config)
    (hman : n₂.disk.manifest = some (snapshotManifest env sequence records indexes))
    (hwal : n₂.disk.wal = []) (hnext : n₂.nextLSN = sequence + 1) :
    (installSnapshot env sequence records indexes).wp False
      (fun result n' => result = .ok () ∧ Installed env sequence records n')
      (fun n' => SameView n₂.disk n'.disk) n₂ := by
  obtain ⟨segment, hseg, hserves⟩ := h.snapshotBase_ok hsound hnodup
  obtain ⟨hheal, hbase⟩ := Healthy.installImmutable hconf hserves.presents hserves.filters
    hserves.dimension hnodup hsound
  have hdur := durable_snapshot (h.describes hsound hnodup hdim) hman hwal
  rw [installSnapshot, wp_bind, wp_state, after_ok, hseg, wp_bind,
    wp_ofExcept, after_ok, wp_bind, wp_update, after_ok]
  refine wp_mono (attains_cleanupOrphans _ _).ok (fun result n' hn' => ?_) fun _ hspares =>
    hspares.sameView hman
  obtain ⟨hres, hspares⟩ := hn'
  have hview : SameView n₂.disk n'.disk := hspares.sameView hman
  have hsame := hspares.1
  have hshard : n'.shard = n₂.shard.installImmutable segment := by
    rw [hsame]
    rfl
  have hnext' : n'.nextLSN = sequence + 1 := by
    rw [hsame]
    exact hnext
  have hlook : n'.shard.lookup = liveOf records := by
    rw [hshard, lookup_installImmutable, hbase]
    rfl
  refine ⟨hres, ⟨?_, ?_, ?_, ?_, fun _ => ?_⟩, hlook, hnext',
    _, _, _, hview.manifest.trans hman, rfl⟩
  · rw [hshard]
    exact hheal
  · rw [hlook, hnext']
    exact hdur.congr hview
  · rw [hshard]
    exact hbase
  · rw [hview.checkpoint, Disk.checkpoint, hman, hsame]
    rfl
  · rw [hshard]
    rfl

/-- The manifest of a snapshot is on disk, with the log as it was or emptied. -/
def Published (env : Env) (sequence : ℕ) (records : List Record) (n n' : Node) : Prop :=
  n.lastLSN ≤ sequence ∧ (n'.disk.wal = n.disk.wal ∨ n'.disk.wal = []) ∧
    ∃ manifest, n'.disk.manifest = some manifest ∧ manifest.maxLSN = sequence ∧
      Describes env n'.disk.files manifest records

lemma Published.congr {n' n'' : Node} (h : Published env sequence records n n')
    (hview : SameView n'.disk n''.disk) : Published env sequence records n n'' := by
  obtain ⟨hle, hwal, manifest, hman, hlsn, hdesc⟩ := h
  exact ⟨hle, hview.wal.symm ▸ hwal, manifest, hview.manifest.trans hman, hlsn,
    hdesc.congr (hview.files manifest hman)⟩

/-- Without failures a snapshot is installed as a whole or not at all.  Before its manifest is
published only files with its sequence in their names are written. -/
theorem Coherent.wp_installReplicaSnapshot (h : Coherent env base n)
    (hsound : ∀ record ∈ records, Sound env record) (sequence : ℕ) :
    (installReplicaSnapshot env sequence records).wp False
      (fun result n' => (result = .ok () ∧ Installed env sequence records n') ∨
        (∃ err, result = .error err) ∧ n' = n)
      (fun n' => Writes (OfSnapshot sequence) n n' ∨ Published env sequence records n n') n := by
  have href : ∀ err : Error, (Except.error err : Except Error Unit) = .ok () ∧
      Installed env sequence records n ∨
        (∃ err', (Except.error err : Except Error Unit) = .error err') ∧ n = n :=
    fun err => .inr ⟨⟨err, rfl⟩, rfl⟩
  rw [installReplicaSnapshot, prepareSnapshot, wp_bind, wp_bind, wp_state,
    after_ok]
  split
  · exact href _
  split_ifs with hle
  · exact href _
  cases hcheck : records.zipIdx.foldlM (checkSnapshotRecord env) .empty with
  | error err =>
    rw [wp_bind]
    exact href err
  | ok seen =>
    have hnodup := nodup_of_checks hcheck
    rw [wp_bind, wp_ofExcept, after_ok, h.loadManifest, wp_bind,
      wp_ofExcept, after_ok]
    by_cases hdim : env.config.dimension = 0
    · rw [wp_bind, writeBundle, if_pos hdim]
      exact href _
    refine wp_mono (wp_snapshotFiles hsound hdim n) (fun result n₁ hn₁ => ?_) fun _ => .inl
    obtain ⟨indexes, rfl, hwrites, hfiles⟩ := hn₁
    have honly := hwrites.1
    have hdesc := hfiles.describes hsound hnodup hdim
    have hpub : ∀ n' : Node, n'.disk.files = n₁.disk.files → n'.disk.manifest =
        some (snapshotManifest env sequence records indexes) →
        (n'.disk.wal = n.disk.wal ∨ n'.disk.wal = []) → Published env sequence records n n' :=
      fun n' hsame hman hwal => ⟨Nat.le_of_not_lt hle, hwal, _, hman, rfl, hsame ▸ hdesc⟩
    have hwal : n₁.disk.wal = n.disk.wal := by rw [honly]
    rw [after_ok, cutOver, wp_bind, wp_bind, saveManifest, wp_file]
    refine ⟨.inl hwrites, ?_, False.elim⟩
    rw [after_ok, reset, wp_bind, wp_file]
    refine ⟨.inr (hpub _ rfl rfl (.inl hwal)), ?_, False.elim⟩
    rw [after_ok, wp_bind, wp_file]
    refine ⟨.inr (hpub _ rfl rfl (.inr rfl)), ?_, False.elim⟩
    rw [after_ok, wp_update, after_ok]
    refine wp_mono (SnapshotFiles.wp_installSnapshot hfiles hsound hnodup hdim ?_ rfl rfl rfl)
      (fun _ _ => .inl) fun _ hview => .inr (Published.congr ?_ hview)
    · rw [honly]
      exact h.healthy.config_eq
    · exact hpub _ rfl rfl (.inr rfl)

end Install

end GideonDB.Engine
