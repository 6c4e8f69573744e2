/-
The records that a list of segments shows.

A segment is a layer: its records over those of the older segments, its tombstones hiding
some.  `materializeSegments` and `resolveMappedSegments` read a list of segments; the main
results say that both enumerate the records of the stacked layers, in the order in which a
shard lists its records.
-/
import GideonDB.Engine.Memory

namespace GideonDB.Engine

open Go GideonDB.Core Segment Store GoMap Record Layer List

/-! ### Listings of records -/

/-- The records, listed in the order of a shard. -/
structure Enumerates (live : Live) (records : List Record) : Prop where
  nodup : (records.map Record.key).Nodup
  lookup : ∀ key, (entriesOf records).lookup key = live key
  sorted : sortRecords records = records

variable {record : Record} {key : GoString}

namespace Enumerates

variable {live : Live} {records records' : List Record}

lemma mem (h : Enumerates live records) : record ∈ records ↔ live record.key = some record := by
  rw [← h.lookup, lookup_entriesOf_eq_some h.nodup, and_iff_left rfl]

lemma unique (h : Enumerates live records) (h' : Enumerates live records') : records = records' := by
  have hperm : records.Perm records' :=
    (perm_ext_iff_of_nodup (List.Nodup.of_map _ h.nodup) (List.Nodup.of_map _ h'.nodup)).2
      fun record => h.mem.trans h'.mem.symm
  rw [← h.sorted, ← h'.sorted]
  exact sortRecords_eq_of_perm hperm h.nodup

lemma filter_eq (h : Enumerates live records) {p : Record → Bool}
    (hp : ∀ record, p record → record.key = key) :
    records.filter p = (live key).toList.filter p := by
  rw [← h.lookup]
  have hnodup := h.nodup
  clear h
  induction records with
  | nil => rfl
  | cons record records ih =>
    obtain ⟨hnotMem, hnodup⟩ := nodup_cons.1 hnodup
    rw [entriesOf, map_cons, lookup_cons]
    by_cases hkey : key = record.key
    · have hnil : records.filter p = [] := by
        rw [filter_eq_nil_iff]
        intro other hmem hother
        exact hnotMem (mem_map.2 ⟨other, hmem, (hp other hother).trans hkey⟩)
      rw [filter_cons, hnil, beq_iff_eq.2 hkey]
      exact (@filter_cons _ record [] p).symm
    · have hnot : ¬ p record = true := fun hrec => hkey (hp record hrec).symm
      rw [filter_cons_of_neg hnot, ih hnodup, entriesOf, beq_eq_false_iff_ne.2 hkey]

end Enumerates

variable {live : Live}

lemma enumerates_sortRecords {records : List Record} (hnodup : (records.map Record.key).Nodup)
    (hlook : ∀ key, (entriesOf records).lookup key = live key) :
    Enumerates live (sortRecords records) := by
  have hperm := perm_sortRecords records
  have hnodup' : ((sortRecords records).map Record.key).Nodup := by
    rwa [(hperm.map Record.key).nodup_iff]
  refine ⟨hnodup', fun key => ?_, sortRecords_eq_of_perm hperm hnodup'⟩
  rw [← hlook]
  ext record
  rw [lookup_entriesOf_eq_some hnodup', lookup_entriesOf_eq_some hnodup, mem_sortRecords]

lemma enumerates_toList {V : Type} {m : GoMap GoString V} {f : V → Record}
    (hkey : ∀ key value, m.get key = some value → (f value).key = key)
    (hlive : ∀ key, (m.get key).map f = live key) :
    Enumerates live (sortRecords ((m.toList.map Prod.snd).map f)) := by
  have hents : entriesOf ((m.toList.map Prod.snd).map f) =
      m.toList.map fun entry => (entry.1, f entry.2) := by
    rw [entriesOf, map_map, map_map]
    exact map_congr_left fun entry hmem =>
      Prod.ext (hkey _ _ (mem_toList.1 hmem)) rfl
  refine enumerates_sortRecords ?_ fun key => ?_
  · rw [← map_fst_entriesOf, hents, map_map]
    exact m.map_fst_toList ▸ m.nodup_keys
  · rw [hents, lookup_map_snd fun _ => f, lookup_toList, hlive]

lemma Healthy.enumerates {env : Env} {sh : Shard} (h : Healthy env sh) :
    Enumerates sh.lookup sh.list := by
  refine ⟨h.nodup_list, h.lookup_entriesOf, ?_⟩
  rw [Shard.list]
  exact sortRecords_eq_of_perm (perm_sortRecords _) h.nodup_list

/-! ### Segments as layers -/

/-- What a segment says: its records and its tombstones. -/
structure SegmentData where
  records : List Record
  tombstones : List GoString

namespace SegmentData

/-- The segment as a layer over the older ones. -/
def layer (data : SegmentData) : Layer GoString Record :=
  ofLists (entriesOf data.records) data.tombstones

/-- What every segment written by the engine is. -/
structure Valid (env : Env) (data : SegmentData) : Prop where
  column : ∀ record ∈ data.records,
    env.codec (withoutVector record) = some (withoutVector record)
  nodup : (data.records.map Record.key).Nodup
  keys : checkKeys none data.tombstones = true
  utf8 : ∀ key ∈ data.tombstones, validUTF8 key = true
  apart : ∀ key ∈ data.tombstones, key ∉ data.records.map Record.key

variable {env : Env} {data : SegmentData} {key : GoString}

lemma Valid.nodup_entriesOf (h : data.Valid env) : ((entriesOf data.records).map Prod.fst).Nodup := by
  rw [map_fst_entriesOf]
  exact h.nodup

lemma Valid.notMem_entriesOf (h : data.Valid env) :
    ∀ key ∈ data.tombstones, key ∉ (entriesOf data.records).map Prod.fst := by
  rw [map_fst_entriesOf]
  exact h.apart

lemma Valid.of_layer (h : data.Valid env)
    (hlayer : data.layer key = some (some record)) : record ∈ data.records ∧ record.key = key := by
  rwa [layer, ofLists_eq_some_some, lookup_entriesOf_eq_some h.nodup] at hlayer

lemma mem_tombstones_of_layer (hlayer : data.layer key = some none) : key ∈ data.tombstones := by
  rw [layer, ofLists] at hlayer
  split at hlayer
  · cases hlayer
  · split at hlayer
    · rename_i hcont
      exact contains_iff_mem.1 hcont
    · cases hlayer

end SegmentData

/-- The segments as one layer. -/
def layerOf (datas : List SegmentData) : Layer GoString Record :=
  Layer.stack (datas.map SegmentData.layer)

/-- Their records. -/
def viewOf (datas : List SegmentData) : Live := (layerOf datas).onto fun _ => none

lemma column_of_layerOf {env : Env} {datas : List SegmentData} (h : ∀ data ∈ datas, data.Valid env)
    (hlayer : layerOf datas key = some (some record)) :
    env.codec (withoutVector record) = some (withoutVector record) ∧ record.key = key := by
  obtain ⟨_, layer, hlayers, hlayer, -⟩ := exists_of_stack hlayer
  obtain ⟨data, hmem, rfl⟩ := mem_map.1 (mem_of_getElem? hlayers)
  obtain ⟨hrec, hkey⟩ := (h data hmem).of_layer hlayer
  exact ⟨(h data hmem).column record hrec, hkey⟩

/-! ### Segments in files -/

/-- The files of a segment hold the data. -/
structure Holds (env : Env) (files : Files) (ref : SegmentRef) (data : SegmentData) : Prop where
  records : files.get ref.records =
    some (.records ref.maxLSN (data.records.map withoutVector))
  vectors : files.get ref.vectors =
    some (.vectors ref.maxLSN ref.dimension (data.records.map vector))
  tombstones : match ref.tombstones with
    | some name => files.get name = some (.tombstones ref.maxLSN data.tombstones)
    | none => data.tombstones = []
  recordCount : ref.recordCount = data.records.length
  dimension : ref.dimension = env.config.dimension
  valid : data.Valid env

lemma zipWith_vector (records : List Record) :
    List.zipWith (fun (record : Record) vector => { record with vector := vector })
      (records.map withoutVector) (records.map vector) = records := by
  rw [zipWith_map, zipWith_self]
  exact map_id _

namespace Holds

variable {env : Env} {files : Files} {ref : SegmentRef} {data : SegmentData}
  (h : Holds env files ref data)

include h

lemma readRecords :
    readRecords files ref.records = .ok (ref.maxLSN, data.records.map withoutVector) := by
  rw [Engine.readRecords, h.records]

lemma readVectors : readVectors files ref.vectors ref.dimension =
      .ok (ref.maxLSN, data.records.map vector) := by
  rw [Engine.readVectors, h.vectors]
  exact if_pos rfl

lemma readBundle :
    readBundle files ref.records ref.vectors ref.dimension ref.maxLSN ref.recordCount =
      .ok data.records := by
  rw [Engine.readBundle, h.readRecords, h.readVectors, h.recordCount]
  simp only [bind, Except.bind, length_map, ne_eq, not_true_eq_false, or_self, if_false]
  rw [zipWith_vector]

lemma readRecordColumn :
    readRecordColumn files ref.records ref.maxLSN ref.recordCount =
      .ok (data.records.map withoutVector) := by
  rw [Engine.readRecordColumn, h.readRecords, h.recordCount]
  simp [bind, Except.bind]

lemma openMappedVectors :
    openMappedVectors files ref.vectors ref.dimension ref.recordCount ref.maxLSN =
      .ok (data.records.map vector) := by
  rw [Engine.openMappedVectors, h.readVectors, h.recordCount]
  simp [bind, Except.bind]

lemma refTombstones : refTombstones files ref = .ok data.tombstones := by
  have htomb := h.tombstones
  rw [Engine.refTombstones]
  cases href : ref.tombstones with
  | none =>
    rw [href] at htomb
    exact congrArg _ htomb.symm
  | some name =>
    rw [href] at htomb
    dsimp only at htomb ⊢
    rw [readTombstones, htomb]
    simp [h.valid.keys]

end Holds

lemma exists_of_forall₂ {α β : Type} {R : α → β → Prop} {l : List α} {l' : List β}
    (h : List.Forall₂ R l l') {a : α} (ha : a ∈ l) : ∃ b ∈ l', R a b := by
  induction h with
  | nil => cases ha
  | cons hab _ ih =>
    rcases mem_cons.1 ha with rfl | ha
    · exact ⟨_, mem_cons_self, hab⟩
    · obtain ⟨b, hb, hab⟩ := ih ha
      exact ⟨b, mem_cons_of_mem _ hb, hab⟩

/-! ### Materializing -/

variable {keys : List GoString} {previous : Option GoString}

section Materialize

variable {env : Env} {files : Files} {refs : List SegmentRef} {datas : List SegmentData}

/-- The records kept and the keys deleted by the loop of `materializeSegments`. -/
lemma foldlM_materializeStep (h : List.Forall₂ (Holds env files) refs datas)
    (acc : GoMap GoString Record × GoMap GoString Unit) :
    ∃ acc', refs.foldlM (materializeStep files) acc = .ok acc' ∧
      ofMaps acc'.1 acc'.2 = (layerOf datas).comp (ofMaps acc.1 acc.2) ∧
      ((∀ key, acc.2.has key → acc.1.get key = none) →
        ∀ key, acc'.2.has key → acc'.1.get key = none) := by
  induction h generalizing acc with
  | nil => exact ⟨acc, rfl, by rw [layerOf, map_nil, stack_nil, empty_comp], id⟩
  | @cons ref data refs datas href _ ih =>
    have hstep : materializeStep files acc ref = .ok
        ((acc.1.setAll (entriesOf data.records)).deleteAll data.tombstones,
          (acc.2.deleteAll ((entriesOf data.records).map Prod.fst)).setAll
            (data.tombstones.map fun key => (key, ()))) := by
      rw [materializeStep, href.readBundle, href.refTombstones]
      rfl
    obtain ⟨acc', hacc', hlayer, hapart⟩ := ih _
    refine ⟨acc', by rw [foldlM_cons, hstep]; exact hacc', ?_, fun h =>
      hapart fun key hkey => get_eq_none_of_deleted h _ _ hkey⟩
    · rw [hlayer, ofMaps_write_delete _ _ href.valid.nodup_entriesOf
        href.valid.notMem_entriesOf, ← comp_assoc]
      congr 1
      change _ = Layer.stack (data.layer :: datas.map SegmentData.layer)
      rw [← singleton_append, stack_append, stack_singleton]
      rfl

lemma ne_nil_of_checkKeys (h : checkKeys previous keys) : ∀ key ∈ keys, key ≠ [] := by
  induction keys generalizing previous with
  | nil => simp
  | cons key keys ih =>
    simp only [checkKeys, Bool.and_eq_true, decide_eq_true_eq] at h
    exact forall_mem_cons.2 ⟨h.1.1, ih h.2⟩

lemma checkKeys_of_pairwise (hsort : keys.Pairwise StringLE) (hnodup : keys.Nodup)
    (hne : ∀ key ∈ keys, key ≠ [])
    (hprev : ∀ p ∈ previous, ∀ key ∈ keys, StringLE p key ∧ p ≠ key) : checkKeys previous keys := by
  induction keys generalizing previous with
  | nil => rfl
  | cons key keys ih =>
    obtain ⟨hle, hsort⟩ := pairwise_cons.1 hsort
    obtain ⟨hnotMem, hnodup⟩ := nodup_cons.1 hnodup
    have hrest : checkKeys (some key) keys := by
      refine ih hsort hnodup (forall_mem_cons.1 hne).2 fun p hp key' hmem => ?_
      obtain rfl := Option.mem_some.1 hp
      exact ⟨hle key' hmem, fun heq => hnotMem (heq ▸ hmem)⟩
    rw [checkKeys, hrest, Bool.and_true, Bool.and_eq_true, decide_eq_true_eq, Option.all_eq_true]
    refine ⟨hne key mem_cons_self, fun p hp => ?_⟩
    obtain ⟨hle, hneq⟩ := hprev p hp key mem_cons_self
    rw [Bool.not_eq_true', Bool.eq_false_iff]
    exact fun hge => hneq (leString_antisymm hle hge)

lemma checkKeys_sortStrings (hnodup : keys.Nodup)
    (hne : ∀ key ∈ keys, key ≠ []) : checkKeys none (sortStrings keys) := by
  refine checkKeys_of_pairwise (pairwise_sortStrings keys) ?_ (fun key hmem =>
    hne key (mem_sortStrings.1 hmem)) (by simp)
  exact (perm_insertionSort _ _).nodup_iff.2 hnodup

/-- `materializeSegments` gives one segment that does what the given ones do. -/
lemma materializeSegments_spec (h : List.Forall₂ (Holds env files) refs datas)
    (hvalid : ∀ data ∈ datas, data.Valid env) :
    ∃ data : SegmentData, materializeSegments files refs = .ok (data.records, data.tombstones) ∧
      data.Valid env ∧ data.layer = layerOf datas ∧ Enumerates (viewOf datas) data.records := by
  obtain ⟨⟨written, deleted⟩, hfold, hlayer, hapart⟩ := foldlM_materializeStep h (.empty, .empty)
  have hempty : ofMaps (GoMap.empty : GoMap GoString Record) .empty = fun _ => none := rfl
  rw [hempty, comp_empty] at hlayer
  replace hapart := hapart fun key hkey => rfl
  have hwrit : ∀ key record, written.get key = some record →
      env.codec (withoutVector record) = some (withoutVector record) ∧ record.key = key :=
    fun key record hget => column_of_layerOf hvalid (by rw [← hlayer]; exact ofMaps_eq_some_some.2 hget)
  have hdel : ∀ key, deleted.has key → ∃ data ∈ datas, key ∈ data.tombstones := by
    intro key hkey
    have hkey := (ofMaps_eq_some_none hapart).2 hkey
    rw [hlayer] at hkey
    obtain ⟨_, layer, hlayers, hkey, -⟩ := exists_of_stack hkey
    obtain ⟨data, hmem, rfl⟩ := mem_map.1 (mem_of_getElem? hlayers)
    exact ⟨data, hmem, SegmentData.mem_tombstones_of_layer hkey⟩
  have hview : ∀ key, written.get key = viewOf datas key := fun key => by
    rw [viewOf, ← hlayer, onto_ofMaps_none]
  have henum : Enumerates (viewOf datas) (sortRecords (written.toList.map Prod.snd)) := by
    have h := enumerates_toList (fun key record hget => (hwrit key record hget).2)
      fun key => Option.map_id'.trans (hview key)
    rwa [map_id'] at h
  have hmem : ∀ key, key ∈ sortStrings deleted.keys ↔ deleted.has key = true := fun key => by
    rw [mem_sortStrings, has_iff_mem_keys]
  refine ⟨⟨sortRecords (written.toList.map Prod.snd), sortStrings deleted.keys⟩, ?_, ⟨?_,
    henum.nodup, ?_, ?_, ?_⟩, ?_, henum⟩
  · rw [materializeSegments, hfold]
    rfl
  · intro record hrec
    obtain ⟨entry, hentry, rfl⟩ := mem_map.1 (mem_sortRecords.1 hrec)
    exact (hwrit _ _ (mem_toList.1 hentry)).1
  · refine checkKeys_sortStrings deleted.nodup_keys fun key hkey => ?_
    obtain ⟨data, hdata, hkey⟩ := hdel key (has_iff_mem_keys.2 hkey)
    exact ne_nil_of_checkKeys (hvalid data hdata).keys key hkey
  · intro key hkey
    obtain ⟨data, hdata, hkey⟩ := hdel key ((hmem key).1 hkey)
    exact (hvalid data hdata).utf8 key hkey
  · intro key hkey
    rw [← map_fst_entriesOf, ← lookup_eq_none, henum.lookup, ← hview]
    exact hapart key ((hmem key).1 hkey)
  · funext key
    have hcont : (sortStrings deleted.keys).contains key = deleted.has key := by
      rw [Bool.eq_iff_iff, contains_iff_mem, hmem]
    rw [← hlayer, SegmentData.layer, ofLists, ofMaps, henum.lookup, ← hview,
      hcont]

end Materialize

/-! ### Resolving -/

variable {segment : ℕ} {selected : Selected} {data : SegmentData}

section Resolve

variable {env : Env} {files : Files} {refs : List SegmentRef} {datas : List SegmentData}

/-- The record with its vector. -/
def Selected.full (datas : List SegmentData) (selected : Selected) : Record :=
  (datas[selected.segment]?.bind fun data => data.records[selected.ordinal]?).getD default

/-- What one segment selects. -/
def selectedLayer (data : SegmentData × ℕ) : Layer GoString Selected :=
  ofLists (selectedEntries data.2 (data.1.records.map withoutVector)) data.1.tombstones

lemma map_fst_selectedEntries (segment : ℕ) (items : List Record) :
    (selectedEntries segment items).map Prod.fst = items.map Record.key := by
  rw [selectedEntries, map_map]
  conv_rhs => rw [← zipIdx_map_fst 0 items, map_map]
  rfl

lemma map_key_withoutVector (records : List Record) :
    (records.map withoutVector).map Record.key = records.map Record.key := by
  rw [map_map]
  rfl

lemma mem_selectedEntries {items : List Record} : (key, selected) ∈ selectedEntries segment items ↔
      items[selected.ordinal]? = some selected.record ∧ selected.segment = segment ∧
        selected.record.key = key := by
  rw [selectedEntries, mem_map]
  constructor
  · rintro ⟨⟨record, ordinal⟩, hmem, heq⟩
    obtain ⟨rfl, rfl⟩ := Prod.mk.inj heq
    exact ⟨mk_mem_zipIdx_iff_getElem?.1 hmem, rfl, rfl⟩
  · rintro ⟨hget, rfl, rfl⟩
    exact ⟨(selected.record, selected.ordinal), mk_mem_zipIdx_iff_getElem?.2 hget, rfl⟩

/-- A selected record is a record of its segment, without its vector. -/
def Selected.Located (datas : List SegmentData) (selected : Selected) : Prop :=
  (datas[selected.segment]?.bind fun data => data.records[selected.ordinal]?) =
    some (selected.full datas) ∧ selected.record = withoutVector (selected.full datas)

/-- No newer segment says anything about the key of the record. -/
def Selected.Newest (datas : List SegmentData) (selected : Selected) : Prop :=
  ∀ j > selected.segment, ∀ newer, datas[j]? = some newer → newer.layer selected.record.key = none

lemma located_of_mem (hdata : datas[segment]? = some data)
    (hmem : (key, selected) ∈ selectedEntries segment (data.records.map withoutVector)) :
    selected.Located datas ∧ (key, selected.full datas) ∈ entriesOf data.records := by
  obtain ⟨hget, rfl, rfl⟩ := mem_selectedEntries.1 hmem
  rw [List.getElem?_map, Option.map_eq_some_iff] at hget
  obtain ⟨record, hrec, hsel⟩ := hget
  have hbind : (datas[selected.segment]?.bind fun data => data.records[selected.ordinal]?) =
      some record := by
    rw [hdata, Option.bind_some, hrec]
  have hfull : selected.full datas = record := by rw [Selected.full, hbind, Option.getD_some]
  refine ⟨⟨hfull ▸ hbind, hfull ▸ hsel.symm⟩, ?_⟩
  rw [hfull, ← hsel]
  exact mem_map.2 ⟨record, mem_of_getElem? hrec, rfl⟩

lemma mapValues_selectedLayer (hvalid : data.Valid env) (hdata : datas[segment]? = some data) :
    mapValues (Selected.full datas) (selectedLayer (data, segment)) = data.layer := by
  have hkeys : (selectedEntries segment (data.records.map withoutVector)).map Prod.fst =
      data.records.map Record.key := by
    rw [map_fst_selectedEntries, map_key_withoutVector]
  have hlook : ∀ key, ((selectedEntries segment (data.records.map withoutVector)).lookup key).map
      (Selected.full datas) = (entriesOf data.records).lookup key := by
    intro key
    cases hsel : (selectedEntries segment (data.records.map withoutVector)).lookup key with
    | none =>
      rw [lookup_eq_none, hkeys, ← map_fst_entriesOf, ← lookup_eq_none] at hsel
      rw [hsel]
      rfl
    | some selected =>
      have hmem := (located_of_mem hdata (mem_of_lookup hsel)).2
      exact ((lookup_eq_some hvalid.nodup_entriesOf).2 hmem).symm
  funext key
  rw [mapValues, selectedLayer, SegmentData.layer, ofLists, ofLists, ← hlook]
  cases (selectedEntries segment (data.records.map withoutVector)).lookup key with
  | some selected => rfl
  | none => cases data.tombstones.contains key <;> rfl

lemma Selected.Located.recordLE_iff {a b : Selected} (ha : a.Located datas) (hb : b.Located datas) :
    RecordLE a.record b.record ↔ RecordLE (a.full datas) (b.full datas) := by
  rw [ha.2, hb.2]
  exact Iff.rfl

section

variable (h : List.Forall₂ (Holds env files) refs datas)

include h

lemma foldlM_resolveStep (n : ℕ) (acc : GoMap GoString Selected) :
    ∃ acc', (refs.zipIdx n).foldlM (resolveStep files) acc = .ok acc' ∧
      acc'.get = (Layer.stack ((datas.zipIdx n).map selectedLayer)).onto acc.get := by
  induction h generalizing n acc with
  | nil => exact ⟨acc, rfl, rfl⟩
  | @cons ref data refs datas href _ ih =>
    have hstep : resolveStep files acc (ref, n) = .ok
        ((acc.setAll (selectedEntries n (data.records.map withoutVector))).deleteAll
          data.tombstones) := by
      rw [resolveStep, href.readRecordColumn, href.refTombstones]
      rfl
    obtain ⟨acc', hacc', hget⟩ := ih (n + 1) _
    refine ⟨acc', by rw [zipIdx_cons, foldlM_cons, hstep]; exact hacc', ?_⟩
    have hkeys : (selectedEntries n (data.records.map withoutVector)).map Prod.fst =
        data.records.map Record.key := by
      rw [map_fst_selectedEntries, map_key_withoutVector]
    rw [hget, get_write_delete acc (hkeys ▸ href.valid.nodup) (hkeys ▸ href.valid.apart),
      ← onto_comp, zipIdx_cons, map_cons, ← singleton_append,
      stack_append, stack_singleton]
    rfl

lemma openCompositeMappedVectors_spec (hrefs : refs ≠ []) {values : List Selected}
    (hvalues : ∀ value ∈ values, value.Located datas) :
    ∃ vectorAt, openCompositeMappedVectors files refs values = .ok vectorAt ∧
      VectorsAt vectorAt (values.map (Selected.full datas)) := by
  have hdim : ∀ ref ∈ refs, ref.dimension = env.config.dimension := by
    intro ref hmem
    obtain ⟨data, -, hholds⟩ := exists_of_forall₂ h hmem
    exact hholds.dimension
  have hsources : refs.mapM (fun ref => openMappedVectors files ref.vectors ref.dimension
      ref.recordCount ref.maxLSN) = .ok (datas.map fun data => data.records.map vector) := by
    clear hrefs hdim hvalues
    induction h with
    | nil => rfl
    | cons href _ ih =>
      rw [mapM_cons, href.openMappedVectors, ih]
      rfl
  set sources := datas.map fun data => data.records.map vector with hdatas
  have hvector : ∀ value ∈ values, vectorOf sources value = some (value.full datas).vector := by
    intro value hmem
    have hloc := (hvalues value hmem).1
    rw [vectorOf, hdatas, List.getElem?_map]
    cases hdata : datas[value.segment]? with
    | none =>
      rw [hdata] at hloc
      cases hloc
    | some data =>
      rw [hdata, Option.bind_some] at hloc
      rw [Option.map_some, Option.bind_some, List.getElem?_map, hloc, Option.map_some]
  have hsame : refs.any (fun ref => some ref.dimension ≠ refs.head?.map SegmentRef.dimension) =
      false := by
    cases refs with
    | nil => rfl
    | cons ref refs =>
      rw [any_eq_false]
      intro ref' hmem
      simp [hdim ref' hmem, hdim ref mem_cons_self]
  have hlocations : values.any (fun value => (vectorOf sources value).isNone) = false := by
    rw [any_eq_false]
    intro value hmem
    rw [hvector value hmem]
    simp
  refine ⟨fun position => (values[position]?.bind (vectorOf sources)).getD [], ?_,
    fun position record hget => ?_⟩
  · rw [openCompositeMappedVectors, if_neg hrefs, hsame, hsources]
    simp only [bind, Except.bind, hlocations, Bool.false_eq_true, if_false]
  · rw [List.getElem?_map, Option.map_eq_some_iff] at hget
    obtain ⟨value, hvalue, rfl⟩ := hget
    simp only [hvalue, Option.bind_some, hvector value (mem_of_getElem? hvalue),
      Option.getD_some]

/-- `resolveMappedSegments` lists the records that the segments show, without their vectors,
and the composite mapping has the vectors. -/
lemma resolveMappedSegments_spec (hvalid : ∀ data ∈ datas, data.Valid env) :
    ∃ values records, resolveMappedSegments files refs = .ok values ∧
      values.map Selected.record = records.map withoutVector ∧ Enumerates (viewOf datas) records ∧
      (∀ value ∈ values, value.Located datas ∧ value.Newest datas) ∧
      (refs ≠ [] → ∃ vectorAt, openCompositeMappedVectors files refs values = .ok vectorAt ∧
        VectorsAt vectorAt records) := by
  obtain ⟨selected, hfold, hget⟩ := foldlM_resolveStep h 0 .empty
  have hloc : ∀ key value, selected.get key = some value →
      (value.Located datas ∧ value.Newest datas) ∧ (value.full datas).key = key := by
    intro key value hvalue
    rw [hget, show (GoMap.empty : GoMap GoString Selected).get = fun _ => none from
      funext get_empty, onto_none_eq_some] at hvalue
    obtain ⟨segment, layer, hlayers, hvalue, hall⟩ := exists_of_stack hvalue
    simp only [List.getElem?_map, List.getElem?_zipIdx, Option.map_map, zero_add,
      Option.map_eq_some_iff] at hlayers hall
    obtain ⟨data, hdata, rfl⟩ := hlayers
    rw [Function.comp_apply, selectedLayer, ofLists_eq_some_some] at hvalue
    have hentry := mem_of_lookup hvalue
    obtain ⟨-, rfl, rfl⟩ := mem_selectedEntries.1 hentry
    have hloc := (located_of_mem hdata hentry).1
    refine ⟨⟨hloc, fun j hj newer hnewer => ?_⟩, by rw [hloc.2]; rfl⟩
    rw [← mapValues_selectedLayer (hvalid _ (mem_of_getElem? hnewer)) hnewer]
    exact congrArg (Option.map _) (hall j hj _ ⟨newer, hnewer, rfl⟩)
  have hview : ∀ key, (selected.get key).map (Selected.full datas) = viewOf datas key := by
    intro key
    have hlayers : (datas.zipIdx.map selectedLayer).map (mapValues (Selected.full datas)) =
        datas.map SegmentData.layer := by
      rw [map_map]
      conv_rhs => rw [← zipIdx_map_fst 0 datas, map_map]
      refine map_congr_left fun entry hmem => ?_
      have hdata : datas[entry.2]? = some entry.1 := mk_mem_zipIdx_iff_getElem?.1 hmem
      exact mapValues_selectedLayer (hvalid _ (mem_of_getElem? hdata)) hdata
    rw [viewOf, layerOf, ← hlayers, stack_mapValues, onto_mapValues, hget]
    rfl
  have hmem : ∀ value ∈ selected.toList.map Prod.snd,
      value.Located datas ∧ value.Newest datas := by
    intro value hvalue
    obtain ⟨entry, hentry, rfl⟩ := mem_map.1 hvalue
    exact (hloc _ _ (mem_toList.1 hentry)).1
  -- The values in the order of the listing stand for the records in that order.
  have hsort : ((selected.toList.map Prod.snd).insertionSort fun a b =>
      RecordLE a.record b.record).map (Selected.full datas) =
      sortRecords ((selected.toList.map Prod.snd).map (Selected.full datas)) :=
    map_insertionSort _ _ _ _ fun a ha b hb => (hmem a ha).1.recordLE_iff (hmem b hb).1
  set values := (selected.toList.map Prod.snd).insertionSort fun a b =>
    RecordLE a.record b.record with hvalues
  replace hmem : ∀ value ∈ values, value.Located datas ∧ value.Newest datas :=
    fun value hvalue => hmem value ((mem_insertionSort _).1 hvalue)
  refine ⟨values, values.map (Selected.full datas), ?_, ?_, ?_, hmem, fun hrefs => ?_⟩
  · rw [resolveMappedSegments, hfold]
    rfl
  · rw [map_map]
    exact map_congr_left fun value hvalue => (hmem value hvalue).1.2
  · rw [hsort]
    exact enumerates_toList (fun key value hget => (hloc key value hget).2) hview
  · exact openCompositeMappedVectors_spec h hrefs fun value hvalue => (hmem value hvalue).1

end

end Resolve

end GideonDB.Engine
