/-
A shard refines a map from keys to records.

A run of a shard is paired with a map that takes the upserts and deletions that succeed.
Every read of the shard then is the read of the map, provided that the records written are
as `PrepareNamedVectors` leaves them.  Without that provision it fails: `Segment.Upsert`
stores the vectors of a named field before the index of the field rejects them.
-/
import GideonDB.Shard.Shard

namespace GideonDB.Shard

open Go GideonDB.Core Segment Store GoMap List

/-! ### Runs -/

/-- The states of a shard, each with the map that took the same upserts and deletions, over
runs whose upserts satisfy `accepted`. -/
inductive Reachable (lib : Metadata.Library) (config : CollectionConfig)
    (accepted : Record → Prop) : Shard → GoMap GoString Record → Prop
  | new : Reachable lib config accepted (new config) .empty
  | upsert {sh m} (h : Reachable lib config accepted sh m) (record : Record)
      (haccd : accepted record) :
      Reachable lib config accepted (sh.upsert lib record).1
        (if (sh.upsert lib record).2 = none then m.set record.key record else m)
  | delete {sh m} (h : Reachable lib config accepted sh m) (ns id : GoString) :
      Reachable lib config accepted (sh.delete lib ns id).1
        (if (sh.delete lib ns id).2 = none then m.delete (recordKey ns id) else m)
  /-- The new base holds exactly the records of the shard. -/
  | installImmutable {sh m} (h : Reachable lib config accepted sh m) (base : Segment)
      (hbase : base.WellFormed) (hlist : base.list = sh.list) :
      Reachable lib config accepted (sh.installImmutable base) m

/-- What a shard shows is what a map holds, and it takes every prepared record with an id and
a vector of the declared dimension. -/
structure RefinesMap (lib : Metadata.Library) (sh : Shard) (m : GoMap GoString Record) : Prop where
  upsert : ∀ record, Prepared sh.config record → ((sh.upsert lib record).2 = none ↔
    record.id ≠ [] ∧ record.vector.length = sh.config.dimension)
  get : ∀ ns id, sh.get ns id = found (m.get (recordKey ns id))
  list : sh.list = sortRecords (m.toList.map Prod.snd)
  delete : ∀ ns id, (sh.delete lib ns id).2 =
    if m.has (recordKey ns id) then none else some .notFound
  len : sh.len = m.size
  overlay : ∀ key, (Layer.overlay sh.baseMap sh.checkpointDelta.2
    (entriesOf sh.checkpointDelta.1)).get key = m.get key

/-! ### The invariant -/

/-- What the base has. -/
def baseLookup (sh : Shard) (key : GoString) : Option Record :=
  sh.immutable.bind fun base => base.lookup key

/-- The active segment and the tombstones, as a layer over the immutable segment. -/
def layer (sh : Shard) : Layer GoString Record := fun key =>
  match sh.active.lookup key with
  | some record => some (some record)
  | none => if sh.tombstones.has key then some none else none

/-- What the shard has. -/
def lookup (sh : Shard) (key : GoString) : Option Record := sh.layer.onto sh.baseLookup key

/-- The shard holds the records of the map. -/
structure Tracks (lib : Metadata.Library) (config : CollectionConfig) (sh : Shard)
    (m : GoMap GoString Record) : Prop where
  config_eq : sh.config = config
  active : sh.active.Writable lib config
  base : ∀ base, sh.immutable = some base → base.WellFormed
  lookup : ∀ key, sh.lookup key = m.get key
  count : sh.count = m.size

lemma lookup_eq (sh : Shard) (key : GoString) : sh.lookup key =
    (sh.active.lookup key).or (if sh.tombstones.has key then none else sh.baseLookup key) := by
  rw [lookup, Layer.onto, layer]
  cases sh.active.lookup key with
  | some record => rfl
  | none => cases sh.tombstones.has key <;> rfl

lemma get_eq (sh : Shard) (ns id : GoString) :
    sh.get ns id = found (sh.lookup (recordKey ns id)) := by
  rw [get, Segment.get_eq, lookup_eq, baseLookup]
  cases hactive : sh.active.lookup (recordKey ns id) with
  | some record => rfl
  | none =>
    rw [Option.none_or]
    cases sh.immutable with
    | none => cases sh.tombstones.has (recordKey ns id) <;> rfl
    | some base =>
      simp only [found, Segment.get_eq, Option.bind_some]
      cases sh.tombstones.has (recordKey ns id) <;> rfl

lemma existed_eq (sh : Shard) (ns id : GoString) :
    sh.existed ns id = (sh.lookup (recordKey ns id)).isSome := by
  rw [existed, Segment.has_eq, lookup_eq, baseLookup, Option.isSome_or]
  cases sh.immutable with
  | none => cases sh.tombstones.has (recordKey ns id) <;> rfl
  | some base =>
    simp only [Segment.has_eq, Option.bind_some]
    cases sh.tombstones.has (recordKey ns id) <;> rfl

lemma immutableExists_eq (sh : Shard) (ns id : GoString) :
    sh.immutableExists ns id = .ok (sh.baseLookup (recordKey ns id)).isSome := by
  rw [immutableExists, baseLookup]
  cases sh.immutable with
  | none => rfl
  | some base =>
    simp only [Segment.get_eq, Option.bind_some]
    cases base.lookup (recordKey ns id) <;> rfl

lemma ofLists_eq_layer {sh : Shard} (h : sh.active.WellFormed) {tombstones : List GoString}
    (htombstones : ∀ key, key ∈ tombstones ↔ sh.tombstones.has key) :
    Layer.ofLists (entriesOf sh.active.list) tombstones = sh.layer := by
  funext key
  have hcont : tombstones.contains key = sh.tombstones.has key := by
    rw [Bool.eq_iff_iff, contains_iff_mem, htombstones]
  rw [Layer.ofLists, layer, h.lookup_entriesOf, hcont]
  cases sh.active.lookup key <;> rfl

variable {lib : Metadata.Library} {config : CollectionConfig} {sh : Shard}
  {m : GoMap GoString Record}

namespace Tracks

section

variable (h : Tracks lib config sh m)

include h

lemma get_baseMap (key : GoString) : sh.baseMap.get key = sh.baseLookup key := by
  rw [baseMap, baseLookup]
  cases hbase : sh.immutable with
  | none => rfl
  | some base =>
    have hwf := h.base base hbase
    rw [get_setAll _ hwf.nodup_entriesOf, hwf.lookup_entriesOf, get_empty,
      Option.or_none]
    rfl

/-- Overlaying the records of the active segment and the tombstones, in whatever order they
are listed, gives the records of the shard. -/
lemma get_overlay {tombstones : List GoString}
    (htombstones : ∀ key, key ∈ tombstones ↔ sh.tombstones.has key) (key : GoString) :
    (Layer.overlay sh.baseMap tombstones (entriesOf sh.active.list)).get key = m.get key := by
  have hwf := h.active.toWellFormed
  rw [Layer.get_overlay _ _ hwf.nodup_entriesOf, ofLists_eq_layer hwf htombstones, ← h.lookup,
    Shard.lookup, funext h.get_baseMap]

lemma key_of_get {key : GoString} {record : Record} (hget : m.get key = some record) :
    record.key = key := by
  rw [← h.lookup, lookup_eq, Option.or_eq_some_iff] at hget
  rcases hget with hget | ⟨-, hget⟩
  · exact h.active.key_of_lookup hget
  · split at hget
    · cases hget
    · obtain ⟨base, hbase, hget⟩ := Option.bind_eq_some_iff.1 hget
      exact (h.base base hbase).key_of_lookup hget

lemma map_key_toList : (m.toList.map Prod.snd).map Record.key = m.keys := by
  rw [← map_fst_toList, map_map]
  exact map_congr_left fun entry hmem => h.key_of_get (mem_toList.1 hmem)

lemma list_eq : sh.list = sortRecords (m.toList.map Prod.snd) := by
  have hperm := (perm_toList_of_get (h.get_overlay fun key =>
    GoMap.has_iff_mem_keys.symm)).map Prod.snd
  refine sortRecords_eq_of_perm hperm ?_
  rw [(hperm.map Record.key).nodup_iff, h.map_key_toList]
  exact m.nodup_keys

lemma has_eq (key : GoString) : m.has key = (sh.lookup key).isSome := by
  rw [GoMap.has, h.lookup]

end

/-! ### The steps -/

section

variable (h : Tracks lib config sh m)

include h

/-- Removing a record: the active segment has none under the key, and a tombstone hides that
of the immutable segment. -/
lemma bury {key : GoString} (hhas : m.has key) {active : Segment}
    (hleaves : Writable.Leaves lib config active fun key' =>
      if key' = key then none else sh.active.lookup key') :
    Tracks lib config (Shard.bury { sh with active := active } key (sh.baseLookup key).isSome)
      (m.delete key) where
  config_eq := h.config_eq
  active := hleaves.writable
  base := h.base
  lookup key' := by
    have hold := h.lookup key'
    rw [lookup_eq] at hold ⊢
    change (active.lookup key').or (if (if (sh.baseLookup key).isSome
      then sh.tombstones.set key () else sh.tombstones).has key' = true then none
      else sh.baseLookup key') = _
    rw [hleaves.lookup, get_delete]
    by_cases hkey : key' = key
    · subst hkey
      cases hbase : sh.baseLookup key' with
      | none => simp
      | some record => simp [GoMap.has]
    · rw [if_neg hkey, if_neg hkey, ← hold]
      congr 2
      split
      · rw [has_set, decide_eq_false hkey, Bool.false_or]
      · rfl
  count := by
    have hpos : 0 < m.size := by
      rw [← length_keys]
      exact length_pos_of_mem (has_iff_mem_keys.1 hhas)
    change sh.count - 1 = _
    rw [h.count, size_delete, if_pos hhas]
    omega

/-- `Delete` finds nothing, or it takes the record out of the active segment and buries that of
the immutable segment. -/
lemma delete_cases (ns id : GoString) :
    (m.has (recordKey ns id) = false ∧ sh.delete lib ns id = (sh, some .notFound)) ∨
    (m.has (recordKey ns id) ∧ ∃ active,
      sh.delete lib ns id = (Shard.bury { sh with active := active } (recordKey ns id)
        (sh.baseLookup (recordKey ns id)).isSome, none) ∧
      Writable.Leaves lib config active fun key =>
        if key = recordKey ns id then none else sh.active.lookup key) := by
  obtain ⟨hdelete, hleaves⟩ := h.active.delete ns id
  have hhas := h.has_eq (recordKey ns id)
  rw [lookup_eq] at hhas
  rw [Shard.delete, immutableExists_eq, Segment.get_eq]
  cases hactive : sh.active.lookup (recordKey ns id) with
  | some record =>
    rw [hactive, Option.some_or, Option.isSome_some] at hhas
    rw [hactive, Option.isSome_some, if_pos rfl] at hdelete
    rcases hres : sh.active.delete lib ns id with ⟨active, err⟩
    rw [hres] at hdelete hleaves
    obtain rfl : err = none := hdelete
    exact .inr ⟨hhas, active, rfl, hleaves⟩
  | none =>
    rw [hactive, Option.none_or] at hhas
    simp only [found]
    split
    · rename_i hmissing
      refine .inl ⟨?_, rfl⟩
      rw [hhas]
      rcases Bool.or_eq_true_iff.1 hmissing with hbase | htomb
      · rw [Bool.not_eq_true', Option.isSome_eq_false_iff, Option.isNone_iff_eq_none] at hbase
        rw [hbase, ite_self]
        rfl
      · rw [if_pos htomb]
        rfl
    · rename_i hpres
      rw [Bool.or_eq_true_iff, not_or, Bool.not_eq_true', Bool.not_eq_false] at hpres
      refine .inr ⟨by rw [hhas, if_neg hpres.2, hpres.1], sh.active, rfl, h.active,
        fun key => ?_⟩
      split_ifs with hkey
      · rw [hkey, hactive]
      · rfl

lemma delete (ns id : GoString) :
    (sh.delete lib ns id).2 = (if m.has (recordKey ns id) then none else some .notFound) ∧
    Tracks lib config (sh.delete lib ns id).1
      (if (sh.delete lib ns id).2 = none then m.delete (recordKey ns id) else m) := by
  rcases h.delete_cases ns id with ⟨hhas, heq⟩ | ⟨hhas, active, heq, hleaves⟩
  · rw [hhas, heq]
    exact ⟨rfl, h⟩
  · rw [hhas, heq]
    exact ⟨rfl, h.bury hhas hleaves⟩

lemma upsert {record : Record} (hprep : Prepared config record) :
    Tracks lib config (sh.upsert lib record).1
      (if (sh.upsert lib record).2 = none then m.set record.key record else m) := by
  obtain ⟨-, hleaves⟩ := h.active.upsert hprep
  have hexisted := existed_eq sh record.ns record.id
  rw [Shard.upsert]
  rcases hres : sh.active.upsert lib record with ⟨active, err⟩
  rw [hres] at hleaves
  cases err with
  | some err =>
    refine { h with active := hleaves.writable, lookup := fun key => ?_ }
    have hlook := hleaves.lookup key
    simp only [reduceCtorEq, false_and, if_false] at hlook
    change Shard.lookup { sh with active := active } key = m.get key
    rw [← h.lookup, lookup_eq, lookup_eq, hlook]
    rfl
  | none =>
    refine ⟨h.config_eq, hleaves.writable, h.base, fun key => ?_, ?_⟩
    · have hlook := hleaves.lookup key
      have hold := h.lookup key
      simp only [true_and] at hlook
      rw [lookup_eq] at hold ⊢
      change (active.lookup key).or (if (sh.tombstones.delete record.key).has key = true then none
        else sh.baseLookup key) = (m.set record.key record).get key
      rw [hlook, get_set]
      by_cases hkey : key = record.key
      · rw [if_pos hkey, if_pos hkey, Option.some_or]
      · rw [if_neg hkey, if_neg hkey, ← hold, has_delete, decide_eq_true hkey,
          Bool.true_and]
    · change (if sh.existed record.ns record.id = true then sh.count else sh.count + 1) =
        ((m.set record.key record).size : ℤ)
      rw [hexisted, ← h.has_eq, size_set, h.count]
      change (if m.has record.key = true then _ else _) = _
      split <;> simp

lemma mem_list {record : Record} : record ∈ sh.list ↔ m.get record.key = some record := by
  rw [h.list_eq, mem_sortRecords, mem_map]
  constructor
  · rintro ⟨⟨key, record'⟩, hmem, rfl⟩
    have hget := mem_toList.1 hmem
    rwa [h.key_of_get hget]
  · exact fun hget => ⟨(record.key, record), mem_toList.2 hget, rfl⟩

lemma installImmutable {base : Segment} (hbase : base.WellFormed) (hlist : base.list = sh.list) :
    Tracks lib config (sh.installImmutable base) m where
  config_eq := h.config_eq
  active := by
    change Writable lib config (Segment.new sh.config)
    rw [h.config_eq]
    exact writable_new lib config
  base base' heq := by
    cases heq
    exact hbase
  lookup key := by
    rw [lookup_eq]
    change base.lookup key = m.get key
    ext record
    constructor
    · intro hlook
      obtain rfl := hbase.key_of_lookup hlook
      rwa [← h.mem_list, ← hlist, hbase.mem_list]
    · intro hget
      obtain rfl := h.key_of_get hget
      rwa [← hbase.mem_list, hlist, h.mem_list]
  count := by
    change (base.len : ℤ) = m.size
    rw [hbase.len_eq, hlist, h.list_eq, (perm_sortRecords _).length_eq, length_map,
      length_toList]

lemma refinesMap : RefinesMap lib sh m where
  upsert record hprep := by
    rw [h.config_eq] at hprep ⊢
    rw [← (h.active.upsert hprep).1, Shard.upsert]
    rcases sh.active.upsert lib record with ⟨active, _ | err⟩ <;> rfl
  get ns id := by rw [get_eq, h.lookup]
  list := h.list_eq
  delete ns id := (h.delete ns id).1
  len := h.count
  overlay key := by
    refine h.get_overlay (fun key => ?_) key
    rw [checkpointDelta, sortStrings, mem_insertionSort]
    exact GoMap.has_iff_mem_keys.symm

end

end Tracks

lemma tracks_new (lib : Metadata.Library) (config : CollectionConfig) :
    Tracks lib config (new config) .empty where
  config_eq := rfl
  active := writable_new lib config
  base base h := by cases h
  lookup key := rfl
  count := rfl

lemma tracks_installImmutable (hconf : sh.config = config) {base : Segment}
    (hbase : base.WellFormed) :
    Tracks lib config (sh.installImmutable base) (GoMap.empty.setAll (entriesOf base.list)) where
  config_eq := hconf
  active := by
    change Writable lib config (Segment.new sh.config)
    rw [hconf]
    exact writable_new lib config
  base base' heq := by
    cases heq
    exact hbase
  lookup key := by
    rw [lookup_eq]
    change base.lookup key = _
    rw [get_setAll _ hbase.nodup_entriesOf, hbase.lookup_entriesOf, get_empty,
      Option.or_none]
  count := by
    change (base.len : ℤ) = _
    rw [hbase.len_eq, size_setAll_empty hbase.nodup_entriesOf, entriesOf, length_map]

lemma Reachable.tracks (h : Reachable lib config (Prepared config) sh m) :
    Tracks lib config sh m := by
  induction h with
  | new => exact tracks_new lib config
  | upsert _ record hprep ih => exact ih.upsert hprep
  | delete _ ns id ih => exact (ih.delete ns id).2
  | installImmutable _ base hbase hlist ih => exact ih.installImmutable hbase hlist

/-- A shard whose upserts are prepared refines the map of its records. -/
theorem refinesMap_of_reachable (h : Reachable lib config (Prepared config) sh m) :
    RefinesMap lib sh m := h.tracks.refinesMap

/-! ### A rejected upsert that shows -/

/-- A library that prints no numbers. -/
def plainLibrary : Metadata.Library := .sample fun _ => []

/-- One named field `a`, of dimension one and with an HNSW index. -/
def namedConfig : CollectionConfig :=
  ⟨1, .flat, false, GoMap.empty.set (bytes "a") ⟨1, .hnsw, .float32, false⟩⟩

def namedRecord (vector : FloatVector) : Record :=
  { (default : Record) with
    id := bytes "r"
    vector := [0]
    vectors := fun name => if name = bytes "a" then some vector else none }

lemma prepared_namedRecord : Prepared namedConfig (namedRecord [0]) where
  vectors name vector h := by
    change (if name = bytes "a" then some [0] else none) = some vector at h
    split at h
    · rename_i hname
      cases h
      rw [hname]
      exact ⟨⟨1, .hnsw, .float32, false⟩, get_set_self _ _ _, rfl, rfl, rfl⟩
    · cases h
  multiVectors name list h := by cases h

def namedShard : Shard := ((new namedConfig).upsert plainLibrary (namedRecord [0])).1

/-- The theorem for a record that is written, becomes a record of the immutable segment, and is
deleted. -/
theorem refinesMap_after_delete :
    RefinesMap plainLibrary
      ((namedShard.installImmutable namedShard.active).delete plainLibrary [] (bytes "r")).1
      ((GoMap.empty.set (namedRecord [0]).key (namedRecord [0])).delete
        (recordKey [] (bytes "r"))) := by
  have hupsert : Reachable plainLibrary namedConfig (Prepared namedConfig) namedShard _ :=
    Reachable.new.upsert (namedRecord [0]) prepared_namedRecord
  have hbase := hupsert.installImmutable namedShard.active hupsert.tracks.active.toWellFormed
    (by with_unfolding_all rfl)
  have h := refinesMap_of_reachable (hbase.delete [] (bytes "r"))
  rwa [if_pos (by decide +kernel), if_pos (by decide +kernel)] at h

/-- The second upsert gives the field `a` a vector of length two.  It fails, the map keeps the
first record, and the shard shows the vector of the rejected one. -/
theorem rejected_vector_shows : ∃ sh m,
    Reachable plainLibrary namedConfig (fun _ => True) sh m ∧ ¬ RefinesMap plainLibrary sh m := by
  refine ⟨_, _, (Reachable.new.upsert (namedRecord [0]) trivial).upsert (namedRecord [0, 0])
    trivial, fun h => ?_⟩
  have hget := congrArg (fun result => match result with
    | .ok record => record.vectors (bytes "a")
    | .error _ => none) (h.get [] (bytes "r"))
  revert hget
  decide +kernel

end GideonDB.Shard
