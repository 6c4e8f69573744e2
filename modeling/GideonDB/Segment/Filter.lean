/-
Filtered searches: which records of a segment and of a shard a search looks at.

A search asks the filter index for the ordinals that a filter allows; the records of the
immutable segment that the active segment or a tombstone hides are excluded.  If every filter
index answers for the records of its segment, the records looked at are exactly those of the
namespace that the filter holds of.
-/
import GideonDB.Metadata.RoundTrip
import GideonDB.Segment.Build
import GideonDB.Shard.Refinement

namespace GideonDB

open Go GideonDB.Core Metadata.Index List

namespace Metadata.Index

/-- The index answers every filter as a scan of the records does. -/
def Answers (lib : Library) (records : Records) (idx : Index) : Prop :=
  ∀ (filter : Expr) (id : ℕ), (idx.evaluate lib filter).contains id =
    (records id).any fun metadata => filter.holds lib (scalar lib metadata)

variable {lib : Library}

lemma Holds.answers {records : Records} {idx : Index}
    (h : Holds lib (rowsOf lib records) idx) : Answers lib records idx := by
  intro filter id
  rw [h.contains_evaluate id, rowsOf, Option.any_map]

lemma RoundTrips.answers {records : List MetadataMap} (h : RoundTrips lib true records) :
    ∃ file loaded, marshalRecords lib records = some file ∧
      loadBinary lib (file.throughJSON lib) records.length = .ok loaded ∧
      Answers lib (ordinals records) loaded := by
  obtain ⟨file, loaded, hfile, hloaded, hevaluate⟩ := h
  refine ⟨file, loaded, hfile, hloaded, fun filter id => ?_⟩
  have hrun := (holds_run lib (numbered records)).answers filter id
  rw [recordsOf_numbered] at hrun
  rw [(hevaluate _ (recordsOf_numbered records) filter rfl).1 id, hrun]

end Metadata.Index

/-- The filter holds of the metadata of the record. -/
def Core.Record.satisfies (lib : Metadata.Library) (filter : Metadata.Expr) (record : Record) :
    Bool := filter.holds lib (scalar lib record.metadata)

variable {lib : Metadata.Library} {config : CollectionConfig} {s s' : Segment} {record : Record}
  {filter : Metadata.Expr} {ns : GoString}

namespace Segment

/-- The filter index of the segment answers for its records. -/
def Filters (lib : Metadata.Library) (s : Segment) : Prop :=
  s.metadata.Answers lib (metadataOf s.records)

lemma Writable.answers (h : s.Writable lib config) : s.Filters lib := h.filters.answers

/-! ### The constructors -/

section Constructors

variable {lib : Metadata.Library} {config : CollectionConfig} {records : List Record}
  {metadataIndex : Option Metadata.Index}

/-- The given filter index, if there is one, answers for the records in their order. -/
def IndexFor (lib : Metadata.Library) (records : List Record)
    (metadataIndex : Option Metadata.Index) : Prop :=
  ∀ idx ∈ metadataIndex, idx.Answers lib
    (Metadata.Index.ordinals (records.map Record.metadata))

lemma metadataOf_placed {vectorAt : Option (ℕ → FloatVector)} :
    metadataOf (placed lib config records metadataIndex vectorAt).records =
      Metadata.Index.ordinals (records.map Record.metadata) := by
  funext ordinal
  ext metadata
  rw [metadataOf, Option.map_eq_some_iff, Metadata.Index.ordinals, List.getElem?_map]
  simp only [get_records_placed, mem_numbered]
  rcases Nat.eq_zero_or_pos ordinal with rfl | hpos
  · simp
  · rw [if_neg hpos.ne', Option.map_eq_some_iff]
    simp [hpos]

lemma filters_placed (h : IndexFor lib records metadataIndex)
    (vectorAt : Option (ℕ → FloatVector)) :
    (placed lib config records metadataIndex vectorAt).Filters lib := by
  rw [Filters, metadataOf_placed]
  cases metadataIndex with
  | some idx => exact h idx rfl
  | none =>
    have hrun : (numbered records).foldl (fun idx entry =>
        idx.upsert lib entry.1 entry.2.metadata) newIndex =
        Metadata.Index.run lib (Metadata.Index.numbered (records.map Record.metadata)) := by
      rw [Metadata.Index.run, Metadata.Index.numbered, numbered, zipIdx_map, foldl_map,
        map_map, foldl_map]
      rfl
    have hholds := holds_run lib
      (Metadata.Index.numbered (records.map Record.metadata))
    rw [recordsOf_numbered] at hholds
    rw [← hrun] at hholds
    exact hholds.answers

lemma filters_initRecords {entries : List (ℕ × Record)}
    (hents : ∀ entry ∈ entries, metadataOf s.records entry.1 = some entry.2.metadata)
    (h : initRecords entries s = .ok s') (hs : s.Filters lib) : s'.Filters lib := by
  induction entries generalizing s with
  | nil =>
    cases h
    exact hs
  | cons entry entries ih =>
    obtain ⟨ordinal, record⟩ := entry
    rw [initRecords] at h
    split at h
    · rename_i named hput
      have hsame : metadataOf (s.records.set ordinal (cleared record)) = metadataOf s.records := by
        funext ordinal'
        rw [metadataOf, GoMap.get_set]
        split_ifs with heq
        · rw [heq]
          exact (hents (ordinal, record) mem_cons_self).symm
        · rfl
      refine ih (fun entry hmem => ?_) h ?_
      · rw [hsame]
        exact hents entry (mem_cons_of_mem _ hmem)
      · rw [Filters, hsame]
        exact hs
    · cases h

lemma filters_initNamed (h : initNamed config s = .ok s') (hs : s.Filters lib) :
    s'.Filters lib := by
  rw [initNamed] at h
  split at h
  · cases h
    exact hs
  · refine filters_initRecords (fun entry hmem => ?_) h hs
    rw [metadataOf, GoMap.mem_toList.1 hmem]
    rfl

lemma IndexFor.withoutVector (h : IndexFor lib records metadataIndex) :
    IndexFor lib (records.map withoutVector) metadataIndex := by
  rw [IndexFor, map_map]
  exact h

lemma filters_newMapped {vectorAt : ℕ → FloatVector}
    (h : newMapped lib config records vectorAt metadataIndex = .ok s)
    (hidx : IndexFor lib records metadataIndex) : s.Filters lib :=
  filters_initNamed h (filters_placed hidx.withoutVector _)

lemma filters_newHNSWFromGraph (h : newHNSWFromGraph lib config records metadataIndex = .ok s)
    (hidx : IndexFor lib records metadataIndex) : s.Filters lib :=
  filters_initNamed h (filters_placed hidx _)

lemma filters_newDiskANN (vectorAt : ℕ → FloatVector) (hidx : IndexFor lib records metadataIndex) :
    (newDiskANN lib config records vectorAt metadataIndex).Filters lib :=
  filters_placed hidx.withoutVector _

lemma upsert_fresh (h : s.upsert lib record = (s', none))
    (hfresh : s.ordinals.get record.key = none) : s'.nextID = s.nextID + 1 ∧
      metadataOf s'.records = Metadata.Index.Update.apply (metadataOf s.records)
        (.upsert s.nextID record.metadata) ∧ s'.ordinals = s.ordinals.set record.key s.nextID := by
  have hassign : s.assignOrdinal record.key = (s.nextID, { s with nextID := s.nextID + 1 }) := by
    rw [assignOrdinal, hfresh]
  rw [upsert, hassign] at h
  split at h
  · cases h
  split at h
  · cases h
  dsimp only at h
  split at h
  · cases h
  split at h
  · cases h
  · obtain ⟨rfl, -⟩ := Prod.mk.inj h
    exact ⟨rfl, metadataOf_set _ _ _, rfl⟩

/-- `NewImmutable` gives the records the ordinals 1, 2, … as the other constructors do. -/
lemma metadataOf_upsertAll {s s' : Segment} {before : List Record}
    (hnext : s.nextID = before.length + 1)
    (hmeta : metadataOf s.records = Metadata.Index.ordinals (before.map Record.metadata))
    (hfresh : ∀ record ∈ records, s.ordinals.get record.key = none)
    (hnodup : (records.map Record.key).Nodup) (h : upsertAll lib s records = .ok s') :
    metadataOf s'.records = Metadata.Index.ordinals ((before ++ records).map Record.metadata) := by
  induction records generalizing s before with
  | nil =>
    cases h
    rw [append_nil, hmeta]
  | cons record records ih =>
    rw [upsertAll] at h
    split at h
    · rename_i s₁ hupsert
      obtain ⟨hnext₁, hmeta₁, hordinals₁⟩ :=
        upsert_fresh hupsert (hfresh record mem_cons_self)
      obtain ⟨hnot, hnodup⟩ := nodup_cons.1 hnodup
      have hstep := @ih s₁ (before ++ [record]) (by simp [hnext₁, hnext]) ?_ ?_ hnodup h
      · rwa [append_assoc, singleton_append] at hstep
      · rw [hmeta₁, hmeta, hnext, map_append, map_singleton,
          ordinals_append, length_map]
        rfl
      · intro record' hmem
        have hne : record'.key ≠ record.key := fun heq =>
          hnot (heq ▸ mem_map_of_mem hmem)
        rw [hordinals₁, GoMap.get_set_of_ne _ _ hne]
        exact hfresh record' (mem_cons_of_mem _ hmem)
    · cases h

lemma filters_newImmutable (h : newImmutable lib config records metadataIndex = .ok s)
    (hprep : ∀ record ∈ records, Prepared config record)
    (hfits : ∀ record ∈ records, record.id ≠ [] ∧ record.vector.length = config.dimension)
    (hnodup : (records.map Record.key).Nodup) (hidx : IndexFor lib records metadataIndex) :
    s.Filters lib := by
  obtain ⟨s₁, hs₁, hwritable, -⟩ := upsertAll_spec (writable_new lib config) hprep hfits hnodup
  have hmeta := @metadataOf_upsertAll lib records _ _ [] rfl
    (by funext ordinal; simp [Metadata.Index.ordinals]; rfl)
    (fun record _ => rfl) hnodup hs₁
  rw [newImmutable, hs₁] at h
  cases h
  cases metadataIndex with
  | none => exact hwritable.answers
  | some idx =>
    rw [Filters]
    change idx.Answers lib (metadataOf s₁.records)
    rw [hmeta]
    exact hidx idx rfl

end Constructors

/-! ### Searches -/

/-- The closure `allow` of `SearchFilteredWithOptions`. -/
def allow (lib : Metadata.Library) (s : Segment) (filter : Metadata.Expr) (ns : GoString)
    (excluded : GoString → Bool) (ordinal : ℕ) : Bool :=
  (s.metadata.evaluate lib filter).contains ordinal &&
    (s.records.get ordinal).any fun record => record.ns = ns && !excluded record.key

/-- What a filter selects. -/
def matching (lib : Metadata.Library) (s : Segment) (filter : Metadata.Expr) (ns : GoString)
    (excluded : GoString → Bool) : List Record :=
  (s.records.toList.filter fun entry => s.allow lib filter ns excluded entry.1).map fun entry =>
    s.read entry.1 entry.2

@[simp] lemma metadata_read (s : Segment) (ordinal : ℕ) (record : Record) :
    (s.read ordinal record).metadata = record.metadata := by
  rw [read, fetchVector.eq_def]
  split
  · split <;> rfl
  · rfl

@[simp] lemma ns_read (s : Segment) (ordinal : ℕ) (record : Record) :
    (s.read ordinal record).ns = record.ns := by
  rw [read, fetchVector.eq_def]
  split
  · split <;> rfl
  · rfl

lemma mem_matching (h : s.WellFormed) (hfilt : s.Filters lib) {excluded : GoString → Bool} :
    record ∈ s.matching lib filter ns excluded ↔
      s.lookup record.key = some record ∧ record.ns = ns ∧ excluded record.key = false ∧
        record.satisfies lib filter = true := by
  rw [matching, mem_map, h.lookup_eq_some]
  constructor
  · rintro ⟨⟨ordinal, stored⟩, hmem, rfl⟩
    obtain ⟨hmem, hallow⟩ := mem_filter.1 hmem
    have hstored := GoMap.mem_toList.1 hmem
    rw [allow, hfilt, metadataOf, hstored] at hallow
    simp only [Option.map_some, Option.any_some, Bool.and_eq_true, decide_eq_true_eq,
      Bool.not_eq_true'] at hallow
    rw [key_read, ns_read, Record.satisfies, metadata_read]
    exact ⟨⟨ordinal, stored, hstored, rfl, rfl⟩, hallow.2.1, hallow.2.2, hallow.1⟩
  · rintro ⟨⟨ordinal, stored, hstored, -, rfl⟩, hns, hexcl, hholds⟩
    rw [key_read] at hexcl
    rw [ns_read] at hns
    rw [Record.satisfies, metadata_read] at hholds
    refine ⟨(ordinal, stored), mem_filter.2 ⟨GoMap.mem_toList.2 hstored, ?_⟩, rfl⟩
    rw [allow, hfilt, metadataOf, hstored]
    simp [hns, hexcl, hholds]

lemma nodup_matching (h : s.WellFormed) (lib : Metadata.Library) (filter : Metadata.Expr)
    (ns : GoString) (excluded : GoString → Bool) :
    ((s.matching lib filter ns excluded).map Record.key).Nodup := by
  rw [matching, map_map]
  have hkeys : (Record.key ∘ fun entry : ℕ × Record => s.read entry.1 entry.2) =
      fun entry => entry.2.key := funext fun entry => key_read _ _ _
  rw [hkeys]
  exact (List.filter_sublist.map _).nodup h.nodup_keys

end Segment

variable {m : GoMap GoString Record}

namespace Shard

/-- The records that `SearchFilteredWithEF` may return. -/
def matching (lib : Metadata.Library) (sh : Shard) (filter : Metadata.Expr) (ns : GoString) :
    List Record :=
  sh.active.matching lib filter ns (fun _ => false) ++
    match sh.immutable with
    | some base => base.matching lib filter ns fun key =>
      sh.active.ordinals.has key || sh.tombstones.has key
    | none => []

/-- A filtered search looks at the records of the namespace that the filter holds of. -/
theorem mem_matching {sh : Shard} (h : sh.Tracks lib config m)
    (hfilt : ∀ base ∈ sh.immutable, base.Filters lib) : record ∈ sh.matching lib filter ns ↔
      sh.lookup record.key = some record ∧ record.ns = ns ∧ record.satisfies lib filter = true := by
  have hhas : sh.active.ordinals.has record.key = (sh.active.lookup record.key).isSome := by
    rw [GoMap.has, Segment.lookup, Option.isSome_map]
  have hactive : record ∈ sh.active.matching lib filter ns (fun _ => false) ↔
      sh.active.lookup record.key = some record ∧ record.ns = ns ∧
        record.satisfies lib filter = true := by
    rw [Segment.mem_matching h.active.toWellFormed h.active.answers]
    simp
  rw [matching, mem_append, hactive, lookup_eq, Option.or_eq_some_iff, baseLookup]
  cases himm : sh.immutable with
  | none => simp
  | some base =>
    rw [Segment.mem_matching (h.base base himm) (hfilt base himm), hhas]
    simp only [Option.bind_some, Bool.or_eq_false_iff]
    cases sh.active.lookup record.key with
    | some stored => simp
    | none => cases sh.tombstones.has record.key <;> simp

lemma nodup_matching {sh : Shard} (h : sh.Tracks lib config m)
    (hfilt : ∀ base ∈ sh.immutable, base.Filters lib) (filter : Metadata.Expr) (ns : GoString) :
    ((sh.matching lib filter ns).map Record.key).Nodup := by
  rw [matching, map_append]
  have hactive := Segment.nodup_matching h.active.toWellFormed lib filter ns fun _ => false
  cases himm : sh.immutable with
  | none => simpa using hactive
  | some base =>
    have hwf := h.base base himm
    refine hactive.append (Segment.nodup_matching hwf lib filter ns _) ?_
    -- a key of the active segment is excluded from the immutable one
    intro key hkey hkey'
    obtain ⟨record, hmem, rfl⟩ := mem_map.1 hkey
    obtain ⟨record', hmem', heq⟩ := mem_map.1 hkey'
    have hlook := ((Segment.mem_matching h.active.toWellFormed h.active.answers).1 hmem).1
    have hexcl := ((Segment.mem_matching hwf (hfilt base himm)).1 hmem').2.2.1
    rw [heq, Bool.or_eq_false_iff, GoMap.has] at hexcl
    rw [Segment.lookup, Option.map_eq_some_iff] at hlook
    obtain ⟨ordinal, hord, -⟩ := hlook
    rw [hord] at hexcl
    cases hexcl.1

end Shard

end GideonDB
