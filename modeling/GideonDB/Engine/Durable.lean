/-
What the files of a shard stand for.

A manifest describes a list of records if its segments show them and its index files are about
them.  The files of a shard are durable for some records if the manifest describes a part of
their history and the log the rest: then opening the shard succeeds and shows these records.
-/
import GideonDB.Engine.Frame
import GideonDB.Engine.View

namespace GideonDB.Engine

open Go GideonDB.Core Segment Store Record Metadata.Index List
open Prog hiding bind throw

/-! ### Segments for given records -/

variable {name : FileName}

section Base

variable {env : Env} {records : List Record} {metadataIndex : Option Metadata.Index}

lemma allRouted_of_sound (h : ∀ record ∈ records, Sound env record) : allRouted env records :=
  all_eq_true.2 fun record hmem => (h record hmem).routed

lemma allRouted_withoutVector (h : ∀ record ∈ records, Sound env record) :
    allRouted env (records.map withoutVector) := by
  rw [allRouted, all_map]
  exact allRouted_of_sound h

lemma map_withoutVector_idem (records : List Record) :
    (records.map withoutVector).map withoutVector = records.map withoutVector := by
  rw [map_map]
  rfl

/-- A segment that shows the records to readers and to filtered searches. -/
structure Serves (env : Env) (base : Segment) (records : List Record) : Prop where
  presents : base.Presents records
  filters : base.Filters env.lib
  dimension : base.index.dimension = env.config.dimension

section

variable (h : ∀ record ∈ records, Sound env record) (hnodup : (records.map Record.key).Nodup) (hidx
  : IndexFor env.lib records metadataIndex)

include h hnodup hidx

lemma recordsBase_spec :
    ∃ base, recordsBase env records metadataIndex = .ok base ∧ Serves env base records := by
  have hprep : ∀ record ∈ records, Prepared env.config record := fun record hmem =>
    (h record hmem).prepared
  have hfits : ∀ record ∈ records, record.id ≠ [] ∧ record.vector.length = env.config.dimension :=
    fun record hmem => ⟨(h record hmem).id, (h record hmem).dimension⟩
  obtain ⟨base, hbase, hpresents⟩ := presents_newImmutable hprep hfits hnodup
  refine ⟨base, ?_, hpresents, filters_newImmutable hbase hprep hfits hnodup hidx,
    dimension_newImmutable hbase hprep hfits hnodup⟩
  rw [recordsBase, if_pos (allRouted_of_sound h), hbase]
  rfl

lemma mappedBase_spec {vectorAt : ℕ → FloatVector} (hvecs : VectorsAt vectorAt records) :
    ∃ base, mappedBase env env.config.dimension (records.map withoutVector) vectorAt metadataIndex =
      .ok base ∧ Serves env base records := by
  obtain ⟨base, hbase, hpresents⟩ := presents_newMapped hvecs hnodup
    fun record hmem => (h record hmem).prepared
  refine ⟨base, ?_, hpresents, filters_newMapped hbase hidx, dimension_initNamed hbase⟩
  rw [mappedBase, if_neg (by simp [allRouted_withoutVector h]), if_neg (not_not.2 rfl), newMapped,
    map_withoutVector_idem]
  rw [newMapped] at hbase
  rw [hbase]
  rfl

end

lemma hnswBase_spec (htype : env.config.indexType = .hnsw)
    (h : ∀ record ∈ records, Sound env record) (hnodup : (records.map Record.key).Nodup)
    (hidx : IndexFor env.lib records metadataIndex) :
    ∃ base, hnswBase env records env.config.dimension records.length metadataIndex = .ok base ∧
      Serves env base records := by
  obtain ⟨base, hbase, hpresents⟩ := presents_newHNSWFromGraph hnodup
    fun record hmem => (h record hmem).prepared
  refine ⟨base, ?_, hpresents, filters_newHNSWFromGraph hbase hidx,
    dimension_initNamed hbase⟩
  have hdim : records.all (fun record => record.vector.length = env.config.dimension) =
      true := all_eq_true.2 fun record hmem => decide_eq_true (h record hmem).dimension
  rw [hnswBase, if_neg (not_not.2 htype), if_neg (by simp [allRouted_of_sound h]),
    if_neg (not_not.2 rfl), if_neg (not_not.2 rfl), if_pos hdim, hbase]
  rfl

/-- The file of a DiskANN index for the records. -/
def diskANNFile (env : Env) (records : List Record) : Content :=
  .diskann env.config.dimension (diskANNTag records) (records.map vector)

lemma diskANNTag_withoutVector (records : List Record) :
    diskANNTag (records.map withoutVector) = diskANNTag records := by
  rw [diskANNTag, flatMap_map]
  rfl

lemma vectorsAt_map (records : List Record) :
    VectorsAt (fun position => ((records.map vector)[position]?).getD []) records := by
  intro position record hget
  dsimp only
  rw [List.getElem?_map, hget]
  rfl

lemma diskANNBase_spec (h : ∀ record ∈ records, Sound env record)
    (hnodup : (records.map Record.key).Nodup) (hidx : IndexFor env.lib records metadataIndex)
    {files : Files} (hfile : files.get name = some (diskANNFile env records)) {stored : List Record}
    (hstored : stored = records ∨ stored = records.map withoutVector) :
    ∃ base, diskANNBase env files name stored metadataIndex = .ok base ∧
      Serves env base records := by
  have hrouted : allRouted env stored := by
    rcases hstored with rfl | rfl
    · exact allRouted_of_sound h
    · exact allRouted_withoutVector h
  have hlength : (records.map vector).length = stored.length := by
    rcases hstored with rfl | rfl <;> simp
  have htag : diskANNTag records = diskANNTag stored := by
    rcases hstored with rfl | rfl
    · rfl
    · exact (diskANNTag_withoutVector records).symm
  have hmap : stored.map withoutVector = records.map withoutVector := by
    rcases hstored with rfl | rfl
    · rfl
    · exact map_withoutVector_idem records
  refine ⟨newDiskANN env.lib env.config records
    (fun position => ((records.map vector)[position]?).getD []) metadataIndex, ?_,
    presents_newDiskANN (vectorsAt_map records) hnodup, filters_newDiskANN _ hidx, rfl⟩
  rw [diskANNBase, if_neg (by simp [hrouted]), hfile, diskANNFile]
  dsimp only
  rw [if_neg (by simp [hlength, htag]), newDiskANN, newDiskANN, hmap]

lemma loadFilter_ok (h : ∀ record ∈ records, Sound env record) {file : Metadata.PersistedIndex}
    (hfile : marshalRecords env.lib (records.map metadata) = some file) :
    ∃ idx, loadFilter env (file.throughJSON env.lib) records.length = .ok idx ∧
      IndexFor env.lib records (some idx) := by
  have htrip := @roundTrips_of_survives env.lib true _
    fun metadata (hmem : metadata ∈ records.map Record.metadata) field value hvalue hscal => by
      obtain ⟨record, hrec, rfl⟩ := mem_map.1 hmem
      exact (h record hrec).filter field value hvalue hscal
  obtain ⟨file', idx, hfile', hidx, hanss⟩ := htrip.answers
  obtain rfl : file' = file := Option.mem_unique hfile' hfile
  rw [length_map] at hidx
  refine ⟨idx, by rw [loadFilter, hidx], fun idx' hidx' => ?_⟩
  cases hidx'
  exact hanss

end Base

/-! ### Manifests -/

namespace Manifest

/-- The segments of a manifest.  A manifest of format 2 has one. -/
def refs (manifest : Manifest) : List SegmentRef :=
  match manifest.layout with
  | .column records vectors => [⟨records, vectors, none, none, none, manifest.dimension,
      manifest.maxLSN, manifest.recordCount, 0⟩]
  | .segments refs => refs

end Manifest

/-- The LSN up to which the writers of a name have used it. -/
def Stem.stamp : Stem → ℕ
  | .base sequence => sequence
  | .delta lsn => lsn
  | .compact _ sequence => sequence
  | .segmentView lsn => lsn
  | .view lsn => lsn

/-- The index file that goes with the records of a manifest. -/
def GraphFor (env : Env) (files : Files) (graph : Option FileName) (records : List Record) : Prop :=
  match env.config.indexType with
  | .flat => True
  | .hnsw => ∃ name, graph = some name ∧
      files.get name = some (.graph env.config.dimension records.length)
  | .diskann => (graph = none ∧ records = []) ∨
      ∃ name, graph = some name ∧ files.get name = some (diskANNFile env records)

/-- A manifest that `LoadManifest` accepts, and the records it stands for in the order in which
they are loaded. -/
structure Describes (env : Env) (files : Files) (manifest : Manifest) (records : List Record) :
    Prop where
  accepted : checkManifest manifest = .ok ()
  dimension : manifest.dimension = env.config.dimension
  sound : ∀ record ∈ records, Sound env record
  nodup : (records.map Record.key).Nodup
  segments : ∃ datas, List.Forall₂ (Holds env files) manifest.refs datas ∧
    match manifest.layout with
    | .column _ _ => datas = [⟨records, []⟩]
    | .segments _ => Enumerates (viewOf datas) records
  count : manifest.recordCount = records.length
  filter : ∃ name file, manifest.filter = some name ∧
    marshalRecords env.lib (records.map metadata) = some file ∧
    files.get name = some (.filter manifest.maxLSN records.length (file.throughJSON env.lib))
  graph : GraphFor env files manifest.graph records
  stamped : ∀ name ∈ manifest.referenced, name.stem.stamp ≤ manifest.maxLSN ∧
    (manifest.isMulti = false → ∃ sequence, name.stem = .base sequence)

/-- What a manifest has to load for the records: a segment that serves them, or nothing. -/
def Loads (env : Env) (loaded : Loaded) (records : List Record) : Prop :=
  loaded.records = [] ∧
    match loaded.base with
    | some base => Serves env base records
    | none => records = []

variable {refs : List SegmentRef} {datas : List SegmentData} {recordsName vectorsName : FileName}

namespace Describes

variable {env : Env} {files : Files} {manifest : Manifest} {records : List Record}

lemma manifestFilter_ok (h : Describes env files manifest records) :
    ∃ idx, manifestFilter env files manifest = .ok idx ∧ IndexFor env.lib records idx := by
  obtain ⟨name, file, hname, hfile, hget⟩ := h.filter
  obtain ⟨idx, hidx, hanss⟩ := loadFilter_ok h.sound hfile
  refine ⟨some idx, ?_, hanss⟩
  rw [manifestFilter, hname]
  dsimp only
  rw [readFilter, hget, h.count]
  dsimp only
  rw [if_pos ⟨rfl, rfl⟩]
  change (loadFilter env _ _ >>= _) = _
  rw [hidx]
  rfl

lemma valid_of_forall₂
    (h : List.Forall₂ (Holds env files) refs datas) : ∀ data ∈ datas, data.Valid env := by
  induction h with
  | nil => simp
  | cons hholds _ ih => exact forall_mem_cons.2 ⟨hholds.valid, ih⟩

section

variable (h : Describes env files manifest records)

include h

lemma holds_column (hlayout : manifest.layout = .column recordsName vectorsName) :
    Holds env files ⟨recordsName, vectorsName, none, none, none, manifest.dimension,
      manifest.maxLSN, manifest.recordCount, 0⟩ ⟨records, []⟩ := by
  obtain ⟨datas, hholds, hdatas⟩ := h.segments
  rw [hlayout] at hdatas
  obtain rfl : datas = [⟨records, []⟩] := hdatas
  rw [Manifest.refs, hlayout] at hholds
  exact (forall₂_cons.1 hholds).1

lemma loadColumn_ok (hlayout : manifest.layout = .column recordsName vectorsName) :
    ∃ loaded, loadColumn env files manifest recordsName vectorsName = .ok loaded ∧
      Loads env loaded records := by
  obtain ⟨idx, hidx, hanss⟩ := h.manifestFilter_ok
  have hholds := h.holds_column hlayout
  have hcol := hholds.readRecordColumn
  have hmapped := hholds.openMappedVectors
  have hbundle := hholds.readBundle
  have hgraph := h.graph
  rw [GraphFor] at hgraph
  dsimp only at hcol hmapped hbundle
  rw [loadColumn, if_neg (not_not.2 h.dimension)]
  cases htype : env.config.indexType with
  | flat =>
    obtain ⟨base, hbase, hserves⟩ := mappedBase_spec h.sound h.nodup hanss
      (vectorsAt_map records)
    refine ⟨⟨some base, []⟩, ?_, rfl, hserves⟩
    rw [if_pos rfl, hcol, hidx, hmapped, h.dimension]
    change (mappedBase env _ _ _ _ >>= _) = _
    rw [hbase]
    rfl
  | hnsw =>
    rw [htype] at hgraph
    obtain ⟨name, hname, hfile⟩ := hgraph
    obtain ⟨base, hbase, hserves⟩ := hnswBase_spec htype h.sound h.nodup hanss
    refine ⟨⟨some base, []⟩, ?_, rfl, hserves⟩
    rw [if_neg (by simp), hbundle, hidx, hname]
    change (readGraph files name >>= _) = _
    rw [readGraph, hfile]
    change (hnswBase env _ _ _ _ >>= _) = _
    rw [hbase]
    rfl
  | diskann =>
    rw [htype] at hgraph
    rw [if_neg (by simp), hbundle, hidx]
    rcases hgraph with ⟨hname, hempty⟩ | ⟨name, hname, hfile⟩
    · refine ⟨⟨none, []⟩, ?_, rfl, hempty⟩
      rw [hname, hempty]
      rfl
    · obtain ⟨base, hbase, hserves⟩ := diskANNBase_spec h.sound h.nodup hanss hfile (.inl rfl)
      refine ⟨⟨some base, []⟩, ?_, rfl, hserves⟩
      rw [hname]
      change (diskANNBase env _ _ _ _ >>= _) = _
      rw [hbase]
      rfl

/-- The records of a manifest of format 3, some of them without their vectors, and the segment
built from them. -/
lemma multi_ok (hlayout : manifest.layout = .segments refs) {idx : Option Metadata.Index}
    (hanss : IndexFor env.lib records idx) :
    ∃ stored base, multiRecords env files manifest refs = .ok stored ∧
      (stored = records ∨ stored = records.map withoutVector) ∧
      multiBase env files manifest refs stored idx = .ok base ∧ Serves env base records := by
  obtain ⟨datas, hholds, hdatas⟩ := h.segments
  rw [hlayout] at hdatas
  rw [Manifest.refs, hlayout] at hholds
  dsimp only at hholds hdatas
  have hvalid := valid_of_forall₂ hholds
  obtain ⟨data, hmat, -, -, henum⟩ := materializeSegments_spec hholds hvalid
  obtain ⟨values, records', hresolve, hvalues, henum', -, hcomposite⟩ :=
    resolveMappedSegments_spec hholds hvalid
  obtain rfl := hdatas.unique henum'
  obtain hdata : data.records = records := henum.unique hdatas
  have hgraph := h.graph
  rw [GraphFor] at hgraph
  cases htype : env.config.indexType with
  | flat =>
    have hrefs : refs ≠ [] := by
      rintro rfl
      have haccd := h.accepted
      rw [checkManifest, hlayout] at haccd
      cases haccd
    obtain ⟨vectorAt, hvectorAt, hvecs⟩ := hcomposite hrefs
    obtain ⟨base, hbase, hserves⟩ := mappedBase_spec h.sound h.nodup hanss hvecs
    refine ⟨records.map withoutVector, base, ?_, .inr rfl, ?_, hserves⟩
    · rw [multiRecords, htype, if_pos (by simp), hresolve, ← hvalues]
      rfl
    · rw [multiBase, htype, compositeBase, hresolve]
      change (openCompositeMappedVectors files refs values >>= _) = _
      rw [hvectorAt, ← hbase, hvalues]
      obtain ⟨ref, refs, rfl⟩ := exists_cons_of_ne_nil hrefs
      obtain ⟨data, hmem, hholds⟩ := exists_of_forall₂ hholds mem_cons_self
      change mappedBase env ref.dimension _ _ _ = _
      rw [hholds.dimension]
  | hnsw =>
    rw [htype] at hgraph
    obtain ⟨name, hname, hfile⟩ := hgraph
    obtain ⟨base, hbase, hserves⟩ := hnswBase_spec htype h.sound h.nodup hanss
    refine ⟨records, base, ?_, .inl rfl, ?_, hserves⟩
    · rw [multiRecords, htype, if_neg (by simp), hmat, ← hdata]
      rfl
    · rw [multiBase, htype, hname]
      change (readGraph files name >>= _) = _
      rw [readGraph, hfile]
      exact hbase
  | diskann =>
    rw [htype] at hgraph
    rcases hgraph with ⟨hname, hempty⟩ | ⟨name, hname, hfile⟩
    · obtain ⟨base, hbase, hserves⟩ := recordsBase_spec h.sound h.nodup hanss
      refine ⟨records, base, ?_, .inl rfl, ?_, hserves⟩
      · rw [multiRecords, htype, hname, if_neg (by simp), hmat, ← hdata]
        rfl
      · rw [multiBase, htype, hname]
        exact hbase
    · obtain ⟨base, hbase, hserves⟩ := diskANNBase_spec h.sound h.nodup hanss hfile (.inr rfl)
      refine ⟨records.map withoutVector, base, ?_, .inr rfl, ?_, hserves⟩
      · rw [multiRecords, htype, hname, if_pos (by simp), hresolve, ← hvalues]
        rfl
      · rw [multiBase, htype, hname]
        exact hbase

lemma loadMulti_ok (hlayout : manifest.layout = .segments refs) :
    ∃ loaded, loadMulti env files manifest refs = .ok loaded ∧ Loads env loaded records := by
  obtain ⟨idx, hidx, hanss⟩ := h.manifestFilter_ok
  obtain ⟨stored, base, hstored, hrecs, hbase, hserves⟩ := h.multi_ok hlayout hanss
  have hlength : stored.length = manifest.recordCount := by
    rw [h.count]
    rcases hrecs with rfl | rfl <;> simp
  have hrouted : allRouted env stored := by
    rcases hrecs with rfl | rfl
    · exact allRouted_of_sound h.sound
    · exact allRouted_withoutVector h.sound
  refine ⟨⟨some base, []⟩, ?_, rfl, hserves⟩
  rw [loadMulti, hstored]
  change (if stored.length ≠ manifest.recordCount then _ else _) = _
  rw [if_neg (not_not.2 hlength), hidx]
  change (if allRouted env stored = false then _ else _) = _
  rw [if_neg (by simp [hrouted]), hbase]
  rfl

lemma loadBase_ok :
    ∃ loaded, loadBase env files manifest = .ok loaded ∧ Loads env loaded records := by
  rw [loadBase]
  cases hlayout : manifest.layout with
  | column recordsName vectorsName => exact h.loadColumn_ok hlayout
  | segments refs => exact h.loadMulti_ok hlayout

end

end Describes

/-! ### Changes of other files -/

variable {ref : SegmentRef} {manifest : Manifest} {records : List Record}

section Congr

variable {env : Env} {files files' : Files}

lemma Holds.congr {data : SegmentData} (h : Holds env files ref data)
    (hagree : ∀ name ∈ ref.names, files'.get name = files.get name) :
    Holds env files' ref data where
  __ := h
  records := by
    rw [hagree _ (by simp [SegmentRef.names])]
    exact h.records
  vectors := by
    rw [hagree _ (by simp [SegmentRef.names])]
    exact h.vectors
  tombstones := by
    have htomb := h.tombstones
    cases hname : ref.tombstones with
    | none =>
      rw [hname] at htomb
      exact htomb
    | some name =>
      rw [hname] at htomb
      exact (hagree name (by simp [SegmentRef.names, hname])).trans htomb

lemma forall₂_holds_congr (h : List.Forall₂ (Holds env files) refs datas)
    (hagree : ∀ ref ∈ refs, ∀ name ∈ ref.names, files'.get name = files.get name) :
    List.Forall₂ (Holds env files') refs datas := by
  induction h with
  | nil => exact .nil
  | cons hholds _ ih =>
    exact .cons (hholds.congr (hagree _ mem_cons_self))
      (ih (forall_mem_cons.1 hagree).2)

lemma Manifest.mem_referenced_of_ref (hmem : ref ∈ manifest.refs) (hname : name ∈ ref.names) :
    name ∈ manifest.referenced := by
  rw [Manifest.referenced]
  refine mem_append_right _ ?_
  rw [Manifest.refs] at hmem
  cases hlayout : manifest.layout with
  | column records vectors =>
    rw [hlayout] at hmem
    obtain rfl := mem_singleton.1 hmem
    simpa [SegmentRef.names] using hname
  | segments refs =>
    rw [hlayout] at hmem
    exact mem_flatMap.2 ⟨ref, hmem, hname⟩

lemma GraphFor.congr {graph : Option FileName} (h : GraphFor env files graph records)
    (hagree : ∀ name ∈ graph, files'.get name = files.get name) :
    GraphFor env files' graph records := by
  rw [GraphFor] at h ⊢
  cases htype : env.config.indexType with
  | flat => trivial
  | hnsw =>
    rw [htype] at h
    obtain ⟨name, hname, hfile⟩ := h
    exact ⟨name, hname, (hagree name hname).trans hfile⟩
  | diskann =>
    rw [htype] at h
    rcases h with hempty | ⟨name, hname, hfile⟩
    · exact .inl hempty
    · exact .inr ⟨name, hname, (hagree name hname).trans hfile⟩

lemma Describes.congr (h : Describes env files manifest records)
    (hagree : ∀ name ∈ manifest.referenced, files'.get name = files.get name) :
    Describes env files' manifest records where
  __ := h
  segments := by
    obtain ⟨datas, hholds, hdatas⟩ := h.segments
    exact ⟨datas, forall₂_holds_congr hholds fun ref hmem name hname =>
      hagree name (Manifest.mem_referenced_of_ref hmem hname), hdatas⟩
  filter := by
    obtain ⟨name, file, hname, hfile, hget⟩ := h.filter
    refine ⟨name, file, hname, hfile, ?_⟩
    rw [hagree name (by simp [Manifest.referenced, hname])]
    exact hget
  graph := h.graph.congr fun name hname => hagree name (by
    rw [Option.mem_def] at hname
    simp [Manifest.referenced, hname])

end Congr

/-! ### The log -/

section Log

variable {env : Env}

/-- The records after the mutations of the log that come after an LSN. -/
def tailApply (wal : List WalRecord) (after : ℕ) (live : Live) : Live :=
  (wal.filter fun record => after < record.lsn).foldl
    (fun live record => record.mutation.apply live) live

lemma tailApply_cons (record : WalRecord) (wal : List WalRecord) (after : ℕ) (live : Live) :
    tailApply (record :: wal) after live = tailApply wal after
      (if after < record.lsn then record.mutation.apply live else live) := by
  rw [tailApply, tailApply, filter_cons]
  by_cases h : after < record.lsn
  · simp [h]
  · simp [h]

lemma tailApply_append (wal wal' : List WalRecord) (after : ℕ) (live : Live) :
    tailApply (wal ++ wal') after live = tailApply wal' after (tailApply wal after live) := by
  rw [tailApply, tailApply, tailApply, filter_append, foldl_append]

lemma tailApply_eq_self {wal : List WalRecord} {after : ℕ}
    (h : ∀ record ∈ wal, record.lsn ≤ after) (live : Live) : tailApply wal after live = live := by
  have hnil : wal.filter (fun record => after < record.lsn) = [] := by
    rw [filter_eq_nil_iff]
    intro record hmem
    simpa using h record hmem
  rw [tailApply, hnil]
  rfl

/-- What recovery makes of a contiguous log of sound mutations. -/
structure Recovered (env : Env) (after start : ℕ) (wal : List WalRecord)
    (acc recovered : Recovery) : Prop where
  leaves : Healthy.Leaves env acc.shard recovered.shard (tailApply wal after acc.shard.lookup)
  lastLSN : recovered.lastLSN = if wal = [] then acc.lastLSN else start + wal.length - 1
  idle : (∀ record ∈ wal, record.lsn ≤ after) → recovered.shard = acc.shard

lemma recover_ok {after : ℕ} {wal : List WalRecord} {start : ℕ}
    (hlsns : wal.map WalRecord.lsn = List.range' start wal.length) {acc : Recovery}
    (hacc : acc.lastLSN = 0 ∨ acc.lastLSN + 1 = start) (hheal : Healthy env acc.shard)
    (hsound : ∀ record ∈ wal, after < record.lsn → record.mutation.Sound env) :
    ∃ recovered, wal.foldlM (recoverStep env after) acc = .ok recovered ∧
      Recovered env after start wal acc recovered := by
  induction wal generalizing acc start with
  | nil => exact ⟨acc, rfl, ⟨hheal, rfl, rfl⟩, rfl, fun _ => rfl⟩
  | cons record wal ih =>
    rw [map_cons, length_cons, range'_succ, List.cons.injEq] at hlsns
    obtain ⟨hlsn, hlsns⟩ := hlsns
    have hcontiguous : ¬ (acc.lastLSN ≠ 0 ∧ record.lsn ≠ acc.lastLSN + 1) := by omega
    obtain ⟨acc', hacc', hlast, hleaves, hidle⟩ : ∃ acc', recoverStep env after acc record =
        .ok acc' ∧ acc'.lastLSN = record.lsn ∧
        Healthy.Leaves env acc.shard acc'.shard
          (if after < record.lsn then record.mutation.apply acc.shard.lookup
            else acc.shard.lookup) ∧
        (record.lsn ≤ after → acc'.shard = acc.shard) := by
      rw [recoverStep, if_neg hcontiguous]
      by_cases hafter : after < record.lsn
      · obtain ⟨sh, hreplay, hleaves⟩ :=
          hheal.replay (hsound record mem_cons_self hafter)
        rw [if_pos hafter, if_pos hafter, hreplay]
        exact ⟨_, rfl, rfl, hleaves.toLeaves, fun hle => absurd hafter (not_lt.2 hle)⟩
      · rw [if_neg hafter, if_neg hafter]
        exact ⟨_, rfl, rfl, ⟨hheal, rfl, rfl⟩, fun _ => rfl⟩
    obtain ⟨recovered, hrecovered, h⟩ := ih hlsns (.inr (by rw [hlast, hlsn])) hleaves.healthy
      (forall_mem_cons.1 hsound).2
    refine ⟨recovered, by rw [foldlM_cons, hacc']; exact hrecovered, ⟨h.leaves.healthy, ?_,
      h.leaves.immutable.trans hleaves.immutable⟩, ?_, fun hall => ?_⟩
    · rw [h.leaves.lookup, hleaves.lookup, tailApply_cons]
    · rw [h.lastLSN, if_neg (cons_ne_nil _ _), hlast, hlsn, length_cons]
      split_ifs with hnil
      · rw [hnil]
        rfl
      · omega
    · rw [h.idle (forall_mem_cons.1 hall).2,
        hidle (hall record mem_cons_self)]

end Log

/-! ### Durable files -/

/-- The records by key. -/
def liveOf (records : List Record) : Live := fun key => (entriesOf records).lookup key

/-- The files stand for the records `live`: the manifest for those of `base`, the log for the
mutations after it.  The next LSN is `next`. -/
structure Durable (env : Env) (disk : Disk) (base : List Record) (live : Live) (next : ℕ) :
    Prop where
  manifest : match disk.manifest with
    | none => base = []
    | some manifest => Describes env disk.files manifest base
  lsns : disk.wal.map WalRecord.lsn = List.range' (next - disk.wal.length) disk.wal.length
  short : disk.wal.length < next
  above : disk.checkpoint < next
  covers : next ≤ disk.checkpoint + 1 + disk.wal.length
  sound : ∀ record ∈ disk.wal, disk.checkpoint < record.lsn → record.mutation.Sound env
  replayed : tailApply disk.wal disk.checkpoint (liveOf base) = live

/-- A shard whose files stand for what it has in memory. -/
structure Coherent (env : Env) (base : List Record) (n : Node) : Prop where
  healthy : Healthy env n.shard
  durable : Durable env n.disk base n.shard.lookup n.nextLSN
  base : n.shard.baseLookup = liveOf base
  checkpointLSN : n.checkpointLSN = n.disk.checkpoint
  /-- With nothing logged since the checkpoint, nothing has changed since then. -/
  clean : n.nextLSN = n.disk.checkpoint + 1 → n.shard.checkpointDelta = ([], [])

/-- The files may differ in those that the manifest does not refer to. -/
structure SameView (disk disk' : Disk) : Prop where
  wal : disk'.wal = disk.wal
  manifest : disk'.manifest = disk.manifest
  files : ∀ manifest, disk.manifest = some manifest → ∀ name ∈ manifest.referenced,
    disk'.files.get name = disk.files.get name

section Durable

variable {env : Env} {disk disk' : Disk} {base : List Record} {live : Live} {next : ℕ}

lemma SameView.trans {disk'' : Disk} (h : SameView disk disk') (h' : SameView disk' disk'') :
    SameView disk disk'' where
  wal := h'.wal.trans h.wal
  manifest := h'.manifest.trans h.manifest
  files manifest hman name hmem :=
    (h'.files manifest (h.manifest.trans hman) name hmem).trans
      (h.files manifest hman name hmem)

lemma SameView.checkpoint (h : SameView disk disk') : disk'.checkpoint = disk.checkpoint := by
  rw [Disk.checkpoint, Disk.checkpoint, h.manifest]

lemma Durable.congr (h : Durable env disk base live next) (hsame : SameView disk disk') :
    Durable env disk' base live next where
  manifest := by
    have hman := h.manifest
    rw [hsame.manifest]
    cases heq : disk.manifest with
    | none =>
      rw [heq] at hman
      exact hman
    | some manifest =>
      rw [heq] at hman
      exact hman.congr (hsame.files manifest heq)
  lsns := by rw [hsame.wal, h.lsns]
  short := by rw [hsame.wal]; exact h.short
  above := by rw [hsame.checkpoint]; exact h.above
  covers := by rw [hsame.wal, hsame.checkpoint]; exact h.covers
  sound := by rw [hsame.wal, hsame.checkpoint]; exact h.sound
  replayed := by rw [hsame.wal, hsame.checkpoint, h.replayed]

lemma Durable.lsn_lt (h : Durable env disk base live next) {record : WalRecord}
    (hmem : record ∈ disk.wal) : record.lsn < next := by
  have hlsn : record.lsn ∈ disk.wal.map WalRecord.lsn := mem_map_of_mem hmem
  rw [h.lsns, mem_range'_1] at hlsn
  have := h.short
  omega

end Durable

/-! ### Cleaning up -/

section Cleanup

variable {env : Env} {faulty : Prop}

/-- Only files that the manifest does not refer to differ. -/
def Spares (manifest : Manifest) : Node → Node → Prop := Writes fun name => name ∉ manifest.referenced

lemma attains_cleanupOrphans (manifest : Manifest) (n : Node) :
    (cleanupOrphans manifest).Attains faulty n (Spares manifest n) (Spares manifest n) := by
  rw [cleanupOrphans, Attains, wp_bind, wp_state, after_ok]
  have horphans : ∀ name ∈ n.disk.files.keys.filter (fun name =>
      !manifest.referenced.contains name && name.orphanCandidate), name ∉ manifest.referenced := by
    intro name hmem hrefd
    have hnot := (mem_filter.1 hmem).2
    simp [hrefd] at hnot
  generalize n.disk.files.keys.filter _ = names at horphans
  suffices hall : ∀ n', Spares manifest n n' → (removeAll names).Attains faulty n'
      (Spares manifest n) (Spares manifest n) from hall n (Writes.refl _ n)
  induction names with
  | nil => exact fun n' hn' => hn'
  | cons name names ih =>
    intro n' hn'
    have hremoved : Spares manifest n (n'.removeFile name) := by
      refine Writes.trans hn' ⟨rfl, fun name' hmem => GoMap.get_delete_of_ne _ ?_⟩
      rintro rfl
      exact hmem (horphans _ mem_cons_self)
    have hrest := ih (forall_mem_cons.1 horphans).2
    rw [removeAll, Attains, wp_bind, wp_file]
    exact ⟨hn', hrest _ hremoved, fun hfaulty => ⟨⟨hfaulty, hn'⟩, hfaulty, hremoved⟩⟩

end Cleanup

/-! ### Opening -/

section Open

variable {env : Env} {faulty : Prop} {base : List Record} {live : Live} {next : ℕ}

lemma Spares.sameView {n n' : Node} (h : Spares manifest n n')
    (hman : n.disk.manifest = some manifest) : SameView n.disk n'.disk := by
  obtain ⟨hfiles, hget⟩ := h
  rw [hfiles]
  refine ⟨rfl, rfl, fun manifest' hman' => ?_⟩
  obtain rfl := Option.mem_unique hman hman'
  exact fun name hmem => hget name (not_not.2 hmem)

/-- The shard after the segments have been loaded. -/
structure Restored (env : Env) (base : List Record) (n n' : Node) : Prop where
  view : SameView n.disk n'.disk
  healthy : Healthy env n'.shard
  lookup : n'.shard.lookup = liveOf base
  baseLookup : n'.shard.baseLookup = liveOf base
  delta : n'.shard.checkpointDelta = ([], [])
  checkpointLSN : n'.checkpointLSN = n.disk.checkpoint

lemma lookup_installImmutable (sh : Shard) (segment : Segment) :
    (sh.installImmutable segment).lookup = (sh.installImmutable segment).baseLookup := by
  funext key
  rfl

lemma Loads.shard {loaded : Loaded} (h : Loads env loaded base)
    (hnodup : (base.map Record.key).Nodup) (hsound : ∀ record ∈ base, Sound env record) {sh : Shard}
    (hsh : sh = match loaded.base with
      | some segment => (Shard.new env.config).installImmutable segment
      | none => .new env.config) :
    Healthy env sh ∧ sh.lookup = liveOf base ∧ sh.baseLookup = liveOf base ∧
      sh.checkpointDelta = ([], []) := by
  obtain ⟨-, hbase⟩ := h
  subst hsh
  cases hseg : loaded.base with
  | some segment =>
    rw [hseg] at hbase
    obtain ⟨hheal, hlook⟩ := Healthy.installImmutable (show (Shard.new env.config).config = _
      from rfl) hbase.presents hbase.filters hbase.dimension hnodup hsound
    exact ⟨hheal, hlook, hlook, rfl⟩
  | none =>
    rw [hseg] at hbase
    obtain rfl : base = [] := hbase
    exact ⟨healthy_new env, rfl, rfl, rfl⟩

lemma attains_loadSegments {n : Node} (hman : match n.disk.manifest with
      | none => base = []
      | some manifest => Describes env n.disk.files manifest base)
    (hshard : n.shard = Shard.new env.config) (hckp : n.checkpointLSN = 0) :
    (loadSegments env).Attains faulty n (Restored env base n)
      (fun n' => SameView n.disk n'.disk) := by
  rw [loadSegments, Attains, wp_bind, wp_state, after_ok]
  cases hdisk : n.disk.manifest with
  | none =>
    rw [hdisk] at hman
    obtain rfl : base = [] := hman
    have hload : loadManifest n.disk = .ok none := loadManifest_eq_ok.2 ⟨hdisk, by simp [hdisk]⟩
    rw [hload]
    refine ⟨⟨rfl, rfl, fun _ _ _ _ => rfl⟩, ?_, ?_, ?_, ?_, ?_⟩
    · rw [hshard]
      exact healthy_new env
    · rw [hshard]
      rfl
    · rw [hshard]
      rfl
    · rw [hshard]
      rfl
    · rw [hckp, Disk.checkpoint, hdisk]
      rfl
  | some manifest =>
    rw [hdisk] at hman
    have hdesc : Describes env n.disk.files manifest base := hman
    have hload : loadManifest n.disk = .ok (some manifest) := loadManifest_eq_ok.2 ⟨hdisk, by
      intro m hm
      obtain rfl := Option.mem_unique hdisk hm
      exact hdesc.accepted⟩
    obtain ⟨loaded, hloaded, hloads⟩ := hdesc.loadBase_ok
    rw [hload]
    dsimp only
    rw [hloaded, wp_bind, wp_ofExcept, after_ok, wp_bind, wp_update,
      after_ok, hloads.1, restoreRouted, wp_bind, wp_pure, after_ok]
    set n₁ := n.setShard _ with hn₁
    have hsame : ∀ {n'}, Spares manifest n₁ n' → SameView n.disk n'.disk := fun hspares =>
      hspares.sameView hdisk
    refine ((attains_cleanupOrphans manifest n₁).mono (fun _ => id) fun _ => hsame).bind
      fun n' hspares => ?_
    have hshard' : n'.shard = match loaded.base with
        | some segment => (Shard.new env.config).installImmutable segment
        | none => .new env.config := by
      rw [hspares.1, hn₁]
      cases loaded.base with
      | none => exact hshard
      | some segment => exact congrArg (·.installImmutable segment) hshard
    obtain ⟨hheal, hlook, hbase, hdelta⟩ := hloads.shard hdesc.nodup hdesc.sound hshard'
    have hview := hsame hspares
    refine ⟨hview, hheal, hlook, hbase, hdelta, ?_⟩
    rw [Disk.checkpoint, hdisk]
    rfl

/-- The shard after it has been opened. -/
structure Opened (env : Env) (base : List Record) (live : Live) (next : ℕ) (n n' : Node) :
    Prop where
  view : SameView n.disk n'.disk
  coherent : Coherent env base n'
  lookup : n'.shard.lookup = live
  nextLSN : n'.nextLSN = next

lemma Restored.openLog {n m : Node} (h : Restored env base n m)
    (hdur : Durable env n.disk base live next) : (openLog env).Attains faulty m
      (Opened env base live next n) (fun n' => SameView n.disk n'.disk) := by
  have hdur' := hdur.congr h.view
  have hckp : m.checkpointLSN = m.disk.checkpoint := by
    rw [h.checkpointLSN, h.view.checkpoint]
  obtain ⟨recovered, hrecovered, hspec⟩ := @recover_ok env m.checkpointLSN m.disk.wal _
    hdur'.lsns ⟨0, m.shard, m.digests⟩ (.inl rfl) h.healthy (by
      rw [hckp]
      exact hdur'.sound)
  rw [Engine.openLog, Attains, wp_bind, wp_state, after_ok, hrecovered, wp_bind,
    wp_ofExcept, after_ok, wp_update]
  have hnext : (if recovered.lastLSN = 0 then m.checkpointLSN + 1 else recovered.lastLSN + 1) =
      next := by
    have hlast := hspec.lastLSN
    have hshort := hdur'.short
    have habove := hdur'.above
    have hcovers := hdur'.covers
    rw [hckp]
    by_cases hnil : m.disk.wal = []
    · rw [if_pos hnil] at hlast
      rw [hnil, length_nil] at hcovers
      rw [if_pos hlast]
      omega
    · rw [if_neg hnil] at hlast
      have hpos := length_pos_of_ne_nil hnil
      rw [if_neg (by omega)]
      omega
  have hlook : recovered.shard.lookup = live := by
    rw [hspec.leaves.lookup, h.lookup, hckp]
    exact hdur'.replayed
  refine ⟨h.view, ⟨hspec.leaves.healthy, ?_, ?_, hckp, ?_⟩, hlook, hnext⟩
  · change Durable env m.disk base recovered.shard.lookup _
    rw [hlook, hnext]
    exact hdur'
  · change recovered.shard.baseLookup = liveOf base
    rw [← h.baseLookup]
    funext key
    rw [Shard.baseLookup, hspec.leaves.immutable]
    rfl
  · intro hclean
    replace hclean : next = m.disk.checkpoint + 1 := hnext.symm.trans hclean
    change recovered.shard.checkpointDelta = ([], [])
    rw [hspec.idle fun record hmem => by
      have := hdur'.lsn_lt hmem
      omega]
    exact h.delta

/-- Files that stand for some records can be opened, and the shard shows these records.  Only a
failed removal of an orphan makes opening fail, and whatever happens the files stand for the
same records. -/
theorem Durable.attains_openShard {n : Node} (h : Durable env n.disk base live next) :
    (openShard env).Attains faulty n (Opened env base live next n)
      (fun n' => SameView n.disk n'.disk) := by
  rw [openShard, Attains, wp_bind, wp_update, after_ok]
  refine ((attains_loadSegments (n := n.restarted env) h.manifest rfl rfl).bind fun m hm =>
    hm.openLog h).mono (fun n' hopened => ?_) fun n' => id
  exact ⟨hopened.view, hopened.coherent, hopened.lookup, hopened.nextLSN⟩

end Open

end GideonDB.Engine
