/-
The constructors of immutable segments.

`NewImmutable` upserts its records into a new segment.  The others place the records at the
ordinals 1, 2, … in the order given: a mapped segment and a DiskANN segment keep the vectors
outside the records, an HNSW segment loaded from a graph keeps them inside.  All but the
DiskANN segment then move the named vectors into the fields.  Each of them presents exactly
the records it was built from.
-/
import GideonDB.Segment.Spec

namespace GideonDB.Segment

open Go GideonDB.Core GoMap List

/-- The loop of `NewImmutable`. -/
def upsertAll (lib : Metadata.Library) : Segment → List Record → Except Error Segment
  | s, [] => .ok s
  | s, record :: records =>
    match s.upsert lib record with
    | (s, none) => upsertAll lib s records
    | (_, some err) => .error err

/-- `NewImmutable`.  A product-quantized index replaces the one built here under the same
ordinals, and is left out. -/
def newImmutable (lib : Metadata.Library) (config : CollectionConfig) (records : List Record)
    (metadataIndex : Option Metadata.Index) : Except Error Segment :=
  (upsertAll lib (new config) records).map fun s =>
    { s with metadata := metadataIndex.getD s.metadata, readOnly := true }

/-- The ordinals start at 1. -/
def numbered (records : List Record) : List (ℕ × Record) :=
  records.zipIdx.map fun entry => (entry.2 + 1, entry.1)

/-- The common part of the constructors that place the records in order. -/
def placed (lib : Metadata.Library) (config : CollectionConfig) (records : List Record)
    (metadataIndex : Option Metadata.Index) (vectorAt : Option (ℕ → FloatVector)) : Segment where
  index := ⟨config.dimension, false,
    GoMap.empty.setAll ((numbered records).map fun entry =>
      (entry.1, (fetchVector vectorAt entry.1 entry.2).vector))⟩
  nextID := records.length + 1
  records := GoMap.empty.setAll (numbered records)
  ordinals := GoMap.empty.setAll ((numbered records).map fun entry => (entry.2.key, entry.1))
  metadata := metadataIndex.getD ((numbered records).foldl (fun idx entry =>
    idx.upsert lib entry.1 entry.2.metadata) Metadata.Index.newIndex)
  readOnly := true
  vectorAt := vectorAt
  named := []

/-- A record whose named vectors have been moved to the fields. -/
def cleared (record : Record) : Record :=
  { record with vectors := fun _ => none, multiVectors := fun _ => none }

/-- The loop of `initNamed`. -/
def initRecords : List (ℕ × Record) → Segment → Except Error Segment
  | [], s => .ok s
  | (ordinal, record) :: rest, s =>
    match putNamed ordinal record s.named with
    | (named, none) => initRecords rest
        { s with named := named, records := s.records.set ordinal (cleared record) }
    | (_, some err) => .error err

/-- `initNamed`. -/
def initNamed (config : CollectionConfig) (s : Segment) : Except Error Segment :=
  if config.vectors.size = 0 then .ok s
  else initRecords s.records.toList { s with named := (new config).named }

/-- Without its vector. -/
def withoutVector (record : Record) : Record := { record with vector := [] }

/-- `NewMapped`. -/
def newMapped (lib : Metadata.Library) (config : CollectionConfig) (records : List Record)
    (vectorAt : ℕ → FloatVector) (metadataIndex : Option Metadata.Index) : Except Error Segment :=
  initNamed config (placed lib config (records.map withoutVector) metadataIndex (some vectorAt))

def newHNSWFromGraph (lib : Metadata.Library) (config : CollectionConfig) (records : List Record)
    (metadataIndex : Option Metadata.Index) : Except Error Segment :=
  initNamed config (placed lib config records metadataIndex none)

/-- `NewDiskANN`. -/
def newDiskANN (lib : Metadata.Library) (config : CollectionConfig) (records : List Record)
    (vectorAt : ℕ → FloatVector) (metadataIndex : Option Metadata.Index) : Segment :=
  placed lib config (records.map withoutVector) metadataIndex (some vectorAt)

/-! ### Numbered records -/

variable {records : List Record} {ordinal : ℕ} {record : Record}

lemma mem_numbered : (ordinal, record) ∈ numbered records ↔
      0 < ordinal ∧ records[ordinal - 1]? = some record := by
  rw [numbered, mem_map]
  constructor
  · rintro ⟨⟨record', position⟩, hmem, heq⟩
    obtain ⟨rfl, rfl⟩ := Prod.mk.inj heq
    exact ⟨Nat.succ_pos _, mk_mem_zipIdx_iff_getElem?.1 hmem⟩
  · rintro ⟨hpos, hget⟩
    exact ⟨(record, ordinal - 1), mk_mem_zipIdx_iff_getElem?.2 hget, by
      rw [Nat.sub_add_cancel hpos]⟩

lemma nodup_numbered (records : List Record) : ((numbered records).map Prod.fst).Nodup := by
  have hmap : (numbered records).map Prod.fst = (records.zipIdx.map Prod.snd).map (· + 1) := by
    rw [numbered, map_map, map_map]
    rfl
  rw [hmap, zipIdx_map_snd]
  exact List.Nodup.map (add_left_injective 1) (nodup_range' 1)

lemma map_snd_numbered (records : List Record) : (numbered records).map Prod.snd = records := by
  rw [numbered, map_map]
  exact zipIdx_map_fst 0 records

lemma nodup_keys_numbered (h : (records.map Record.key).Nodup) :
    (((numbered records).map fun entry => (entry.2.key, entry.1)).map Prod.fst).Nodup := by
  have hmap : ((numbered records).map fun entry => (entry.2.key, entry.1)).map Prod.fst =
      ((numbered records).map Prod.snd).map Record.key := by
    rw [map_map, map_map]
    rfl
  rwa [hmap, map_snd_numbered]

/-! ### Presenting records -/

/-- The segment gives back exactly the given records. -/
structure Presents (s : Segment) (records : List Record) : Prop where
  wellFormed : s.WellFormed
  lookup : ∀ key, s.lookup key = (entriesOf records).lookup key

section Placed

variable {lib : Metadata.Library} {config : CollectionConfig} {records : List Record}
  {metadataIndex : Option Metadata.Index} {vectorAt : Option (ℕ → FloatVector)}

lemma get_records_placed :
    (placed lib config records metadataIndex vectorAt).records.get ordinal = some record ↔
      (ordinal, record) ∈ numbered records :=
  get_setAll_empty (nodup_numbered records)

lemma wellFormed_placed (hnodup : (records.map Record.key).Nodup) :
    (placed lib config records metadataIndex vectorAt).WellFormed where
  record_of_ordinal {key ordinal} h := by
    have hentry := (get_setAll_empty (nodup_keys_numbered hnodup)).1 h
    obtain ⟨⟨ordinal', record⟩, hmem, heq⟩ := mem_map.1 hentry
    obtain ⟨rfl, rfl⟩ := Prod.mk.inj heq
    exact ⟨record, get_records_placed.2 hmem, rfl⟩
  ordinal_of_record {ordinal record} h := by
    refine (get_setAll_empty (nodup_keys_numbered hnodup)).2 ?_
    exact mem_map.2 ⟨(ordinal, record), get_records_placed.1 h, rfl⟩
  indexed ordinal := by
    have hnodup : ((((numbered records).map fun entry =>
        (entry.1, (fetchVector vectorAt entry.1 entry.2).vector)).map Prod.fst).Nodup) := by
      rw [map_map]
      exact nodup_numbered records
    change (GoMap.empty.setAll _).get ordinal = ((GoMap.empty.setAll _).get ordinal).map _
    rw [get_setAll _ hnodup, get_setAll _ (nodup_numbered records),
      get_empty, get_empty, Option.or_none, Option.or_none]
    exact lookup_map_snd (fun ordinal record =>
      (fetchVector vectorAt ordinal record).vector) _ _

end Placed

/-! ### Moving the named vectors -/

/-- What the loop of `initNamed` does to the fields if none fails. -/
def putEach (entries : List (ℕ × Record)) (named : NamedFields) : NamedFields :=
  entries.foldl (fun named entry => putAll entry.1 entry.2 named) named

variable {s : Segment}

section Named

variable {config : CollectionConfig} {named : NamedFields} {entries : List (ℕ × Record)}

lemma attachNamed_putEach_of_notMem (h : Declares config named)
    (hnot : ordinal ∉ entries.map Prod.fst) (record : Record) :
    attachNamed (putEach entries named) ordinal record = attachNamed named ordinal record := by
  induction entries generalizing named with
  | nil => rfl
  | cons entry entries ih =>
    rw [map_cons, mem_cons, not_or] at hnot
    refine (ih (h.putAll entry.2 entry.1) hnot.2).trans ?_
    exact attachNamed_putAll_of_ne h hnot.1 entry.2 record

lemma attachNamed_putEach (h : Declares config named)
    (hprep : ∀ entry ∈ entries, Prepared config entry.2) (hnodup : (entries.map Prod.fst).Nodup)
    (hmem : (ordinal, record) ∈ entries) :
    attachNamed (putEach entries named) ordinal (cleared record) = record := by
  induction entries generalizing named with
  | nil => cases hmem
  | cons entry entries ih =>
    obtain ⟨hnot, hnodup⟩ := nodup_cons.1 hnodup
    have hfirst := hprep entry mem_cons_self
    have hrest := (forall_mem_cons.1 hprep).2
    rcases mem_cons.1 hmem with rfl | hmem
    · refine (attachNamed_putEach_of_notMem (h.putAll record ordinal) hnot _).trans ?_
      exact h.attachNamed_putAll hfirst ordinal
    · exact ih (h.putAll entry.2 entry.1) hrest hnodup hmem

lemma initRecords_eq (h : Declares config s.named)
    (hprep : ∀ entry ∈ entries, Prepared config entry.2) :
    initRecords entries s = .ok { s with
      named := putEach entries s.named
      records := s.records.setAll (entries.map fun entry => (entry.1, cleared entry.2)) } := by
  induction entries generalizing s with
  | nil => rfl
  | cons entry entries ih =>
    obtain ⟨ordinal, record⟩ := entry
    have hfirst : Prepared config record := hprep _ mem_cons_self
    rw [initRecords, h.putNamed_eq hfirst ordinal]
    exact ih (h.putAll record ordinal) fun entry' hmem =>
      hprep entry' (mem_cons_of_mem _ hmem)

end Named

lemma attachNamed_fetchVector_cleared {named : NamedFields}
    (h : attachNamed named ordinal (cleared record) = record)
    (vectorAt : Option (ℕ → FloatVector)) :
    attachNamed named ordinal (fetchVector vectorAt ordinal (cleared record)) =
      fetchVector vectorAt ordinal record := by
  cases vectorAt with
  | none => exact h
  | some vectorAt =>
    have hvector : (cleared record).vector = record.vector := rfl
    simp only [fetchVector, hvector]
    split
    · exact congrArg (fun r : Record => { r with vector := vectorAt (ordinal - 1) }) h
    · exact h

lemma attachNamed_nil (ordinal : ℕ) (record : Record) : attachNamed [] ordinal record = record := rfl

/-- Moving the named vectors of prepared records into the fields changes no record. -/
lemma initNamed_spec {config : CollectionConfig} (h : s.WellFormed) (hnamed : s.named = [])
    (hprep : ∀ ordinal record, s.records.get ordinal = some record → Prepared config record) :
    ∃ s', initNamed config s = .ok s' ∧ s'.WellFormed ∧ ∀ key, s'.lookup key = s.lookup key := by
  rw [initNamed]
  split
  · exact ⟨s, rfl, h, fun _ => rfl⟩
  have hents : ∀ entry ∈ s.records.toList, Prepared config entry.2 := fun entry hmem =>
    hprep entry.1 entry.2 (mem_toList.1 hmem)
  have hnodup : (s.records.toList.map Prod.fst).Nodup := by
    rw [map_fst_toList]
    exact s.records.nodup_keys
  have hdeclares : Declares config (new config).named := Declares.new config
  have hget : ∀ ordinal, (s.records.setAll (s.records.toList.map fun entry =>
      (entry.1, cleared entry.2))).get ordinal = (s.records.get ordinal).map cleared :=
    get_setAll_toList s.records cleared
  refine ⟨_, initRecords_eq hdeclares hents, ⟨?_, ?_, ?_⟩, ?_⟩
  · intro key ordinal hord
    obtain ⟨record, hrec, hkey⟩ := h.record_of_ordinal hord
    exact ⟨cleared record, (hget ordinal).trans (by rw [hrec]; rfl), hkey⟩
  · intro ordinal record hrec
    obtain ⟨stored, hstored, rfl⟩ := Option.map_eq_some_iff.1 ((hget ordinal).symm.trans hrec)
    have hord := h.ordinal_of_record hstored
    exact hord
  · intro ordinal
    have hvector : ∀ record, (fetchVector s.vectorAt ordinal (cleared record)).vector =
        (fetchVector s.vectorAt ordinal record).vector := fun record => by
      rw [fetchVector.eq_def, fetchVector.eq_def]
      split
      · split <;> simp_all [cleared]
      · rfl
    change s.index.vectors.get ordinal = ((s.records.setAll _).get ordinal).map _
    rw [hget, h.indexed, Option.map_map]
    exact congrArg (Option.map · _) (funext fun record => (hvector record).symm)
  · intro key
    rw [lookup, lookup]
    cases hord : s.ordinals.get key with
    | none => rfl
    | some ordinal =>
      obtain ⟨record, hrec, -⟩ := h.record_of_ordinal hord
      have hback := attachNamed_putEach hdeclares hents hnodup (mem_toList.2 hrec)
      have hfetch := attachNamed_fetchVector_cleared hback s.vectorAt
      rw [Option.map_some, Option.map_some, GoMap.getD, GoMap.getD, hget, hrec, read, read,
        hnamed, attachNamed_nil]
      exact congrArg some hfetch

/-! ### What the constructors present -/

variable {vectorAt : ℕ → FloatVector}

section Presents

variable {lib : Metadata.Library} {config : CollectionConfig} {records : List Record}
  {metadataIndex : Option Metadata.Index}

/-- Records placed in some form `g`, of which the segment reads the records back. -/
lemma presents_placed {vectorAt : Option (ℕ → FloatVector)} (g : Record → Record)
    (hkey : ∀ record, (g record).key = record.key)
    (hread : ∀ ordinal record, (ordinal, record) ∈ numbered records →
      fetchVector vectorAt ordinal (g record) = record) (hnodup : (records.map Record.key).Nodup) :
    (placed lib config (records.map g) metadataIndex vectorAt).Presents records := by
  have hkeys : ((records.map g).map Record.key).Nodup := by
    rw [map_map]
    exact (map_congr_left fun record _ => hkey record) ▸ hnodup
  have hwf : (placed lib config (records.map g) metadataIndex vectorAt).WellFormed :=
    wellFormed_placed hkeys
  refine ⟨hwf, fun key => ?_⟩
  ext record
  rw [hwf.lookup_eq_some, lookup_entriesOf_eq_some hnodup]
  constructor
  · rintro ⟨ordinal, stored, hstored, rfl, rfl⟩
    obtain ⟨hpos, hget⟩ := mem_numbered.1 (get_records_placed.1 hstored)
    rw [List.getElem?_map, Option.map_eq_some_iff] at hget
    obtain ⟨record, hrec, rfl⟩ := hget
    have hback : (placed lib config (records.map g) metadataIndex vectorAt).read ordinal
        (g record) = record := hread ordinal record (mem_numbered.2 ⟨hpos, hrec⟩)
    rw [hback, hkey]
    exact ⟨mem_of_getElem? hrec, rfl⟩
  · rintro ⟨hmem, rfl⟩
    obtain ⟨position, hrec⟩ := mem_iff_getElem?.1 hmem
    have hnumbered : (position + 1, record) ∈ numbered records :=
      mem_numbered.2 ⟨Nat.succ_pos position, hrec⟩
    refine ⟨position + 1, g record, get_records_placed.2 (mem_numbered.2 ⟨Nat.succ_pos _, ?_⟩),
      hkey record, hread _ _ hnumbered⟩
    rw [List.getElem?_map, Nat.add_sub_cancel, hrec]
    rfl

/-- The vectors stored outside the records are theirs. -/
def VectorsAt (vectorAt : ℕ → FloatVector) (records : List Record) : Prop :=
  ∀ position record, records[position]? = some record → vectorAt position = record.vector

lemma fetchVector_withoutVector (h : VectorsAt vectorAt records)
    (hmem : (ordinal, record) ∈ numbered records) :
    fetchVector (some vectorAt) ordinal (withoutVector record) = record := by
  have hempty : (withoutVector record).vector = [] := rfl
  simp only [fetchVector, hempty, if_true]
  rw [h _ _ (mem_numbered.1 hmem).2]
  rfl

lemma presents_newDiskANN (h : VectorsAt vectorAt records)
    (hnodup : (records.map Record.key).Nodup) :
    (newDiskANN lib config records vectorAt metadataIndex).Presents records :=
  presents_placed withoutVector (fun _ => rfl) (fun _ _ => fetchVector_withoutVector h) hnodup

lemma Presents.initNamed {vectorAt : Option (ℕ → FloatVector)} {stored : List Record}
    (h : (placed lib config stored metadataIndex vectorAt).Presents records)
    (hprep : ∀ record ∈ stored, Prepared config record) :
    ∃ s, initNamed config (placed lib config stored metadataIndex vectorAt) = .ok s ∧
      s.Presents records := by
  have hstored : ∀ ordinal record,
      (placed lib config stored metadataIndex vectorAt).records.get ordinal = some record →
        Prepared config record := fun ordinal record hget =>
    hprep record (mem_of_getElem? (mem_numbered.1 (get_records_placed.1 hget)).2)
  obtain ⟨s, hs, hwf, hlook⟩ := initNamed_spec h.wellFormed rfl hstored
  exact ⟨s, hs, hwf, fun key => (hlook key).trans (h.lookup key)⟩

lemma presents_newMapped (h : VectorsAt vectorAt records) (hnodup : (records.map Record.key).Nodup)
    (hprep : ∀ record ∈ records, Prepared config record) :
    ∃ s, newMapped lib config records vectorAt metadataIndex = .ok s ∧ s.Presents records := by
  refine (presents_placed withoutVector (fun _ => rfl) (fun _ _ =>
    fetchVector_withoutVector h) hnodup).initNamed fun stored hstored => ?_
  obtain ⟨record, hmem, rfl⟩ := mem_map.1 hstored
  exact ⟨(hprep record hmem).vectors, (hprep record hmem).multiVectors⟩

lemma presents_newHNSWFromGraph (hnodup : (records.map Record.key).Nodup)
    (hprep : ∀ record ∈ records, Prepared config record) :
    ∃ s, newHNSWFromGraph lib config records metadataIndex = .ok s ∧ s.Presents records := by
  have hplaced : (placed lib config (records.map id) metadataIndex none).Presents records :=
    presents_placed id (fun _ => rfl) (fun _ _ _ => rfl) hnodup
  rw [map_id] at hplaced
  exact hplaced.initNamed hprep

lemma upsertAll_spec (h : s.Writable lib config)
    (hprep : ∀ record ∈ records, Prepared config record)
    (hfits : ∀ record ∈ records, record.id ≠ [] ∧ record.vector.length = config.dimension)
    (hnodup : (records.map Record.key).Nodup) :
    ∃ s', upsertAll lib s records = .ok s' ∧ s'.Writable lib config ∧
      ∀ key, s'.lookup key = ((entriesOf records).lookup key).or (s.lookup key) := by
  induction records generalizing s with
  | nil => exact ⟨s, rfl, h, fun key => rfl⟩
  | cons record records ih =>
    obtain ⟨hres, hleaves⟩ := h.upsert (hprep record mem_cons_self)
    have hnone := hres.2 (hfits record mem_cons_self)
    rcases heq : s.upsert lib record with ⟨s₁, err⟩
    rw [heq] at hnone hleaves
    obtain rfl : err = none := hnone
    obtain ⟨hnot, hnodup⟩ := nodup_cons.1 hnodup
    obtain ⟨s', hs', hwritable, hlook⟩ := ih hleaves.writable
      (forall_mem_cons.1 hprep).2
      (forall_mem_cons.1 hfits).2 hnodup
    refine ⟨s', by rw [upsertAll, heq]; exact hs', hwritable, fun key => ?_⟩
    have hents : entriesOf (record :: records) = (record.key, record) :: entriesOf records := rfl
    rw [hlook, hleaves.lookup, hents, lookup_cons]
    by_cases hkey : key = record.key
    · have hrest : (entriesOf records).lookup key = none := by
        rw [lookup_eq_none, map_fst_entriesOf, hkey]
        exact hnot
      simp [hkey, hkey ▸ hrest]
    · have hbeq : (key == record.key) = false := beq_false_of_ne hkey
      simp [hkey, hbeq]

lemma presents_newImmutable (hprep : ∀ record ∈ records, Prepared config record)
    (hfits : ∀ record ∈ records, record.id ≠ [] ∧ record.vector.length = config.dimension)
    (hnodup : (records.map Record.key).Nodup) :
    ∃ s, newImmutable lib config records metadataIndex = .ok s ∧ s.Presents records := by
  obtain ⟨s, hs, hwritable, hlook⟩ :=
    upsertAll_spec (writable_new lib config) hprep hfits hnodup
  refine ⟨{ s with metadata := metadataIndex.getD s.metadata, readOnly := true },
    by rw [newImmutable, hs]; rfl, { hwritable with }, fun key => ?_⟩
  have hsame := hlook key
  rw [lookup_new, Option.or_none] at hsame
  exact hsame

lemma dimension_initNamed {s' : Segment} (h : initNamed config s = .ok s') :
    s'.index.dimension = s.index.dimension := by
  have hrecs : ∀ (entries : List (ℕ × Record)) (s : Segment), initRecords entries s = .ok s' →
      s'.index.dimension = s.index.dimension := by
    intro entries
    induction entries with
    | nil => exact fun s h => by rw [← Except.ok.inj h]
    | cons entry entries ih =>
      intro s h
      rw [initRecords] at h
      split at h
      · have hrest := ih _ h
        exact hrest
      · cases h
  rw [initNamed] at h
  split at h
  · rw [Except.ok.inj h]
  · have hall := hrecs _ _ h
    exact hall

lemma dimension_newImmutable (h : newImmutable lib config records metadataIndex = .ok s)
    (hprep : ∀ record ∈ records, Prepared config record)
    (hfits : ∀ record ∈ records, record.id ≠ [] ∧ record.vector.length = config.dimension)
    (hnodup : (records.map Record.key).Nodup) : s.index.dimension = config.dimension := by
  obtain ⟨s₁, hs₁, hwritable, -⟩ := upsertAll_spec (writable_new lib config) hprep hfits hnodup
  rw [newImmutable, hs₁] at h
  rw [← Except.ok.inj h]
  exact hwritable.dimension

end Presents

end GideonDB.Segment
