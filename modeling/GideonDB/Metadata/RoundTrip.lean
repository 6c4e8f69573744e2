/-
Persisted indexes round-trip, and when they do not.

The index that the reader installs is that of the rows in the file
(`PersistedIndex.holds_index`), and the file of an index of records has their rows after
the trip through JSON.  A filter cannot tell a value that survives the trip from what it
becomes (`Test.holds_throughJSON`), so the two indexes answer every filter alike.  In the
other direction, the reader's checks and two filters on each value, `$exists` and `$eq`,
show that every value has survived.
-/
import GideonDB.Metadata.Persistence
import Mathlib.Order.Interval.Finset.Nat

namespace GideonDB.Metadata

open GideonDB.Go GoMap OrdinalSet PersistedField Index Posting GideonDB.Metadata.Expr
open List hiding mem_keys notMem_keys

/-! ### The index of a file -/

variable {id : ℕ} {value : Value} {x : Float64}

namespace PersistedField

variable {lib : Library} {recordCount : ℕ} {field : PersistedField}

/-- The numbers are in order.  The reader does not check it. -/
def Ordered (field : PersistedField) : Prop :=
  field.numbers.Pairwise fun x y => x.value.key ≤ y.value.key

lemma WellFormed.column_eq_some (h : field.WellFormed lib recordCount) :
    field.column id = some value ↔ (id, value) ∈ field.values := get_setAll_empty h.nodup

lemma WellFormed.exists_posting (h : field.WellFormed lib recordCount)
    (hvalue : (id, value) ∈ field.values) :
    ∃ p ∈ field.postings, id ∈ p.2 ∧ lib.canonical value = p.1 := by
  have hsub : field.postings.flatMap Prod.snd ⊆ field.values.map Prod.fst := by
    intro id hid
    obtain ⟨p, hp, hid⟩ := mem_flatMap.1 hid
    obtain ⟨value, hmem, -⟩ := h.postings p hp id hid
    exact mem_map.2 ⟨_, hmem, rfl⟩
  -- as many distinct ordinals in the postings as there are values: all of them
  have hperm := (subperm_of_subset h.ids hsub).perm_of_length_le (by
    rw [length_map, h.covered])
  obtain ⟨p, hp, hid⟩ := mem_flatMap.1 (hperm.mem_iff.2 (mem_map.2 ⟨_, hvalue, rfl⟩))
  obtain ⟨value', hmem, heq⟩ := h.postings p hp id hid
  have hsame : value' = value := Option.some.inj
    ((h.column_eq_some.2 hmem).symm.trans (h.column_eq_some.2 hvalue))
  exact ⟨p, hp, hid, hsame ▸ heq⟩

lemma keys_postingMap (field : PersistedField) :
    (field.postings.map fun p => (p.1, p.2.foldl Posting.add Posting.new)).map Prod.fst =
      field.postings.map Prod.fst := by
  simp [Function.comp_def]

section

variable (h : field.WellFormed lib recordCount)

include h

lemma WellFormed.postingMap (key : GoString) :
    (field.postingMap.getD key .new).Valid ∧ ∀ id, (field.postingMap.getD key .new).mem id =
        (field.column id).any (lib.canonical · == key) := by
  have hmem : ∀ id, (field.column id).any (lib.canonical · == key) = true ↔
      ∃ p ∈ field.postings, p.1 = key ∧ id ∈ p.2 := by
    intro id
    simp only [Option.any_eq_true, h.column_eq_some, beq_iff_eq]
    constructor
    · rintro ⟨value, hvalue, rfl⟩
      obtain ⟨p, hp, hid, heq⟩ := h.exists_posting hvalue
      exact ⟨p, hp, heq.symm, hid⟩
    · rintro ⟨p, hp, rfl, hid⟩
      exact h.postings p hp id hid
  by_cases hkey : key ∈ field.postings.map Prod.fst
  · obtain ⟨p, hp, rfl⟩ := mem_map.1 hkey
    have hentry : (p.1, p.2.foldl Posting.add .new) ∈
        field.postings.map fun p => (p.1, p.2.foldl Posting.add .new) :=
      mem_map.2 ⟨p, hp, rfl⟩
    have hget : field.postingMap.getD p.1 .new = p.2.foldl Posting.add .new := by
      rw [GoMap.getD, PersistedField.postingMap, get_setAll_of_mem _ (by
        rw [keys_postingMap]; exact h.keys) hentry, Option.getD_some]
    obtain ⟨hvalid, hadd⟩ := foldl_add_spec valid_new p.2
    refine ⟨by rwa [hget], fun id => ?_⟩
    rw [hget, hadd, mem_new, Bool.or_false, Bool.eq_iff_iff, decide_eq_true_iff, hmem]
    constructor
    · exact fun hid => ⟨p, hp, rfl, hid⟩
    · rintro ⟨q, hq, heq, hid⟩
      rwa [inj_on_of_nodup_map h.keys hp hq heq.symm]
  · have hget : field.postingMap.getD key .new = .new := by
      rw [GoMap.getD, PersistedField.postingMap, get_setAll_of_notMem _ (by
        rwa [keys_postingMap]), get_empty, Option.getD_none]
    refine ⟨by rw [hget]; exact valid_new, fun id => ?_⟩
    rw [hget, mem_new, eq_comm, ← Bool.not_eq_true, hmem]
    rintro ⟨p, hp, rfl, -⟩
    exact hkey (mem_map_of_mem hp)

lemma WellFormed.key_of_mem {e : NumericEntry} (he : e ∈ field.numbers) :
    ((field.column e.id).bind lib.number).map Float64.key = some e.value.key := by
  obtain ⟨value, x, hmem, hx, heq⟩ := h.numbers e he
  rw [h.column_eq_some.2 hmem, Option.bind_some, hx, Option.map_some]
  simpa [Float64.eq] using heq

lemma WellFormed.exists_number (hx : (field.column id).bind lib.number = some x) :
    ∃ y : Float64, y.key = x.key ∧ ⟨y, id⟩ ∈ field.numbers := by
  obtain ⟨value, hvalue, hnum⟩ := Option.bind_eq_some_iff.1 hx
  have hsub : field.numbers.map NumericEntry.id ⊆
      (field.values.filter fun e => (lib.number e.2).isSome).map Prod.fst := by
    intro id hid
    obtain ⟨e, he, rfl⟩ := mem_map.1 hid
    obtain ⟨value, y, hmem, hy, -⟩ := h.numbers e he
    exact mem_map.2 ⟨_, mem_filter.2 ⟨hmem, by simp [hy]⟩, rfl⟩
  have hperm := (subperm_of_subset h.numberIDs hsub).perm_of_length_le (by
    rw [length_map, length_map, h.numberCount])
  obtain ⟨e, he, rfl⟩ := mem_map.1 (hperm.mem_iff.2 (mem_map.2
    ⟨_, mem_filter.2 ⟨h.column_eq_some.1 hvalue, by simp [hnum]⟩, rfl⟩))
  have hkey := h.key_of_mem he
  rw [hx, Option.map_some, Option.some.injEq] at hkey
  exact ⟨e.value, hkey.symm, he⟩

lemma WellFormed.indexes (hord : field.Ordered) :
    (field.numericField recordCount).Indexes fun id =>
      ((field.column id).bind lib.number).map Float64.key where
  current := fun id => by
    have hnodup : ((field.numbers.map fun e => (e.id, e.value)).map Prod.fst).Nodup := by
      simpa [Function.comp_def] using h.numberIDs
    refine Option.ext fun key => ?_
    rw [Option.map_eq_some_iff, Option.map_eq_some_iff]
    simp only [numericField, get_setAll_empty hnodup, mem_map]
    constructor
    · rintro ⟨y, ⟨e, he, heq⟩, rfl⟩
      obtain ⟨rfl, rfl⟩ := Prod.mk.inj heq
      exact Option.map_eq_some_iff.1 (h.key_of_mem he)
    · rintro ⟨x, hx, rfl⟩
      obtain ⟨y, hkey, hy⟩ := h.exists_number hx
      exact ⟨y, ⟨_, hy, rfl⟩, hkey⟩
  sorted := hord
  base := fun e he _ => h.key_of_mem he
  covered := fun id key hkey => by
    obtain ⟨x, hx, rfl⟩ := Option.map_eq_some_iff.1 hkey
    obtain ⟨y, hkey, hy⟩ := h.exists_number hx
    exact ⟨y, hkey, .inl ⟨hy, contains_newSet recordCount id⟩⟩

lemma WellFormed.holdsField (hord : field.Ordered) {idx : Index}
    (hvalues : idx.values.get field.name = some (GoMap.empty.setAll field.values))
    (hposts : idx.postings.get field.name = some field.postingMap)
    (hpres : idx.present.get field.name =
      some ((field.values.map Prod.fst).foldl OrdinalSet.add (newSet recordCount)))
    (hnumeric : idx.numeric.get field.name =
      if field.numbers = [] then none else some (field.numericField recordCount)) :
    Index.HoldsField lib field.column idx field.name where
  values := fun id => by simp [GoMap.getD, hvalues, column]
  valid := fun key => by
    simp only [GoMap.getD, hposts, Option.getD_some]
    exact (h.postingMap key).1
  postings := fun key id => by
    simp only [GoMap.getD, hposts, Option.getD_some]
    exact (h.postingMap key).2 id
  counted := by
    simp only [GoMap.getD, hpres, Option.getD_some]
    exact (counted_newSet recordCount).foldl_add _
  present := fun id => by
    simp only [GoMap.getD, hpres, Option.getD_some]
    rw [contains_foldl_add, contains_newSet, Bool.or_false]
    have hhas := has_setAll (GoMap.empty : GoMap ℕ Value) field.values id
    rw [has_empty, Bool.or_false] at hhas
    exact hhas.symm
  numeric := by
    by_cases hempty : field.numbers = []
    · have hnone : ∀ id, (field.column id).bind lib.number = none := fun id => by
        rw [Option.eq_none_iff_forall_ne_some]
        intro x hx
        obtain ⟨y, -, hy⟩ := h.exists_number hx
        rw [hempty] at hy
        cases hy
      simp only [GoMap.getD, hnumeric, hempty, if_true, Option.getD_none, hnone, Option.map_none]
      exact NumericField.indexes_new
    · simp only [GoMap.getD, hnumeric, hempty, if_false, Option.getD_some]
      exact h.indexes hord

end

end PersistedField

variable {fields : List PersistedField}

namespace PersistedIndex

variable {lib : Library} {recordCount : ℕ} {file : PersistedIndex}

/-- The values of a file. -/
def rows (recordCount : ℕ) (file : PersistedIndex) : Index.Rows := fun id =>
  if 0 < id ∧ id ≤ recordCount then
    some fun name => (file.fields.find? (·.name = name)).bind (·.column id)
  else none

lemma foldl_install_of_notMem (recordCount : ℕ) {name : GoString} (idx : Index)
    (hname : name ∉ fields.map PersistedField.name) :
    (fields.foldl (install recordCount) idx).values.get name = idx.values.get name ∧
    (fields.foldl (install recordCount) idx).postings.get name = idx.postings.get name ∧
    (fields.foldl (install recordCount) idx).present.get name = idx.present.get name ∧
    (fields.foldl (install recordCount) idx).numeric.get name = idx.numeric.get name := by
  induction fields generalizing idx with
  | nil => exact ⟨rfl, rfl, rfl, rfl⟩
  | cons field fields ih =>
    rw [map_cons, mem_cons, not_or] at hname
    obtain ⟨hvalues, hposts, hpres, hnumeric⟩ := ih (idx.install recordCount field) hname.2
    refine ⟨hvalues.trans ?_, hposts.trans ?_, hpres.trans ?_, hnumeric.trans ?_⟩
    · exact get_set_of_ne _ _ hname.1
    · exact get_set_of_ne _ _ hname.1
    · exact get_set_of_ne _ _ hname.1
    · rw [install]
      split
      · rfl
      · exact get_set_of_ne _ _ hname.1

lemma foldl_install_of_mem (recordCount : ℕ) {field : PersistedField} (idx : Index)
    (hnames : (fields.map PersistedField.name).Nodup) (hfield : field ∈ fields)
    (hfree : idx.numeric.get field.name = none) :
    (fields.foldl (install recordCount) idx).values.get field.name =
      some (GoMap.empty.setAll field.values) ∧
    (fields.foldl (install recordCount) idx).postings.get field.name = some field.postingMap ∧
    (fields.foldl (install recordCount) idx).present.get field.name =
      some ((field.values.map Prod.fst).foldl OrdinalSet.add (newSet recordCount)) ∧
    (fields.foldl (install recordCount) idx).numeric.get field.name =
      if field.numbers = [] then none else some (field.numericField recordCount) := by
  induction fields generalizing idx with
  | nil => cases hfield
  | cons f fields ih =>
    obtain ⟨hnotMem, hnames⟩ := nodup_cons.1 hnames
    rw [foldl_cons]
    rcases mem_cons.1 hfield with rfl | hfield
    · obtain ⟨hvalues, hposts, hpres, hnumeric⟩ := foldl_install_of_notMem
        recordCount (idx.install recordCount field) hnotMem
      rw [hvalues, hposts, hpres, hnumeric]
      refine ⟨get_set_self .., get_set_self .., get_set_self .., ?_⟩
      rw [install]
      split
      · exact hfree
      · exact get_set_self ..
    · refine ih _ hnames hfield ?_
      have hne : field.name ≠ f.name := fun heq =>
        hnotMem (heq ▸ mem_map_of_mem hfield)
      rw [install]
      split
      · exact hfree
      · rw [get_set_of_ne _ _ hne, hfree]

lemma universeSet_foldl_install (fields : List PersistedField) (idx : Index) :
    (fields.foldl (install recordCount) idx).universeSet = idx.universeSet := by
  induction fields generalizing idx with
  | nil => rfl
  | cons field fields ih => rw [foldl_cons, ih]; rfl

lemma WellFormed.columnOf_rows {field : PersistedField} (h : file.WellFormed lib recordCount)
    (hmem : field ∈ file.fields) : columnOf (file.rows recordCount) field.name = field.column := by
  have hfind : file.fields.find? (·.name = field.name) = some field := by
    cases hfound : file.fields.find? (·.name = field.name) with
    | none => simpa using find?_eq_none.1 hfound field hmem
    | some found =>
      rw [inj_on_of_nodup_map h.names (mem_of_find?_eq_some hfound) hmem
        (by simpa using find?_some hfound)]
  funext id
  rw [columnOf, rows]
  split_ifs with hid
  · simp [hfind]
  · rw [Option.bind_none, eq_comm, Option.eq_none_iff_forall_ne_some]
    exact fun value hvalue => hid
      ((h.fields field hmem).range _ ((h.fields field hmem).column_eq_some.1 hvalue))

/-- The reader's index is that of the rows in the file. -/
theorem holds_index (h : file.WellFormed lib recordCount)
    (hord : ∀ field ∈ file.fields, field.Ordered) :
    (file.index recordCount).Holds lib (file.rows recordCount) where
  counted := by
    rw [index, universeSet_foldl_install]
    exact (counted_newSet 0).foldl_add _
  universeSet := fun id => by
    rw [index, universeSet_foldl_install, universal, contains_foldl_add,
      contains_newSet, Bool.or_false, rows]
    have hmem : id ∈ (List.range recordCount).map (· + 1) ↔ 0 < id ∧ id ≤ recordCount := by
      simp only [mem_map, mem_range]
      constructor
      · rintro ⟨i, hi, rfl⟩
        omega
      · rintro ⟨hpos, hle⟩
        exact ⟨id - 1, by omega, by omega⟩
    by_cases hid : 0 < id ∧ id ≤ recordCount <;> simp [hmem, hid]
  field := fun name => by
    cases hfind : file.fields.find? (·.name = name) with
    | some field =>
      have hmem := mem_of_find?_eq_some hfind
      obtain rfl : field.name = name := by simpa using find?_some hfind
      obtain ⟨hvalues, hposts, hpres, hnumeric⟩ := foldl_install_of_mem
        recordCount (.universal recordCount) h.names hmem
        (get_empty _)
      rw [h.columnOf_rows hmem]
      exact (h.fields field hmem).holdsField (hord field hmem) hvalues hposts hpres hnumeric
    | none =>
      have hname : name ∉ file.fields.map PersistedField.name := by
        intro hmem
        obtain ⟨field, hfield, rfl⟩ := mem_map.1 hmem
        simpa using find?_eq_none.1 hfind field hfield
      obtain ⟨hvalues, hposts, hpres, hnumeric⟩ := foldl_install_of_notMem
        recordCount (.universal recordCount) hname
      have hcol : columnOf (file.rows recordCount) name = fun _ => none := by
        funext id
        rw [columnOf, rows]
        split <;> simp [hfind]
      rw [hcol]
      exact (holdsField_newIndex lib name).congr hvalues hposts hpres hnumeric

end PersistedIndex

/-! ### The file of an index -/

variable {p : GoString × List ℕ}

namespace Index

variable {lib : Library} {idx : Index} {column : Column} {field : GoString} {recordCount : ℕ}

lemma HoldsField.mem_values (h : HoldsField lib column idx field) :
    (id, value) ∈ (idx.marshalField recordCount field).values ↔ column id = some value := by
  simp only [marshalField, mem_map, (perm_insertionSort _ _).mem_iff, mem_keys,
    h.values]
  constructor
  · rintro ⟨id', ⟨value', hvalue⟩, heq⟩
    obtain ⟨rfl, rfl⟩ := Prod.mk.inj heq
    rw [GoMap.getD, h.values, hvalue, Option.getD_some]
  · intro hvalue
    exact ⟨id, ⟨value, hvalue⟩, by rw [GoMap.getD, h.values, hvalue, Option.getD_some]⟩

lemma nodup_values (idx : Index) (recordCount : ℕ) (field : GoString) :
    ((idx.marshalField recordCount field).values.map Prod.fst).Nodup := by
  simp only [marshalField, map_map, Function.comp_def, List.map_id']
  exact (perm_insertionSort _ _).nodup_iff.2 (nodup_keys _)

lemma mem_postings : p ∈ (idx.marshalField recordCount field).postings ↔
      (idx.postings.getD field .empty).has p.1 ∧
        p.2 = (((idx.postings.getD field .empty).getD p.1 .new).set recordCount).setIDs := by
  simp only [marshalField, mem_map, mem_sortStrings, has_eq_decide, decide_eq_true_iff]
  constructor
  · rintro ⟨key, hkey, rfl⟩
    exact ⟨hkey, rfl⟩
  · rintro ⟨hkey, heq⟩
    exact ⟨p.1, hkey, by rw [← heq]⟩

lemma nodup_postings (idx : Index) (recordCount : ℕ) (field : GoString) :
    ((idx.marshalField recordCount field).postings.map Prod.fst).Nodup := by
  simp only [marshalField, map_map, Function.comp_def, List.map_id']
  exact (perm_insertionSort _ _).nodup_iff.2 (nodup_keys _)

section

variable (h : HoldsField lib column idx field)

include h

lemma HoldsField.mem_ids (hp : p ∈ (idx.marshalField recordCount field).postings) :
    id ∈ p.2 ↔ ∃ value, column id = some value ∧ lib.canonical value = p.1 := by
  rw [(mem_postings.1 hp).2, mem_setIDs, (set_spec (h.valid p.1) _).2,
    h.postings, Option.any_eq_true]
  simp

lemma HoldsField.exists_posting (recordCount : ℕ) (hvalue : column id = some value) :
    ∃ p ∈ (idx.marshalField recordCount field).postings, p.1 = lib.canonical value := by
  refine ⟨(lib.canonical value, (((idx.postings.getD field .empty).getD (lib.canonical value)
    .new).set recordCount).setIDs), mem_postings.2 ⟨?_, rfl⟩, rfl⟩
  have hmem := h.postings (lib.canonical value) id
  rw [hvalue, GoMap.getD] at hmem
  rw [GoMap.has]
  cases hget : (idx.postings.getD field .empty).get (lib.canonical value) with
  | none => simp [hget] at hmem
  | some p => rfl

lemma HoldsField.nodup_ids :
    ((idx.marshalField recordCount field).postings.flatMap Prod.snd).Nodup := by
  refine nodup_flatMap.2 ⟨fun p hp => ?_, ?_⟩
  · rw [(mem_postings.1 hp).2]
    exact nodup_setIDs _
  · -- an ordinal has one value, and so one key
    refine (pairwise_map.1 (nodup_postings idx recordCount field)).imp_of_mem
      fun {p q} hp hq hne id hid hid' => ?_
    obtain ⟨value, hvalue, heq⟩ := (h.mem_ids hp).1 hid
    obtain ⟨value', hvalue', heq'⟩ := (h.mem_ids hq).1 hid'
    rw [hvalue] at hvalue'
    rw [Option.some.inj hvalue'] at heq
    exact hne (heq.symm.trans heq')

lemma HoldsField.perm_ids :
    ((idx.marshalField recordCount field).postings.flatMap Prod.snd).Perm
      ((idx.marshalField recordCount field).values.map Prod.fst) := by
  refine (perm_ext_iff_of_nodup h.nodup_ids (nodup_values ..)).2 fun id => ?_
  rw [mem_flatMap, mem_map]
  constructor
  · rintro ⟨p, hp, hid⟩
    obtain ⟨value, hvalue, -⟩ := (h.mem_ids hp).1 hid
    exact ⟨(id, value), h.mem_values.2 hvalue, rfl⟩
  · rintro ⟨⟨id', value⟩, hmem, rfl⟩
    have hvalue := h.mem_values.1 hmem
    obtain ⟨p, hp, hkey⟩ := h.exists_posting recordCount hvalue
    exact ⟨p, hp, (h.mem_ids hp).2 ⟨value, hvalue, hkey.symm⟩⟩

end

lemma HoldsField.mem_numbers (idx : Index) {e : NumericEntry} :
    e ∈ (idx.marshalField recordCount field).numbers ↔
      (idx.numeric.getD field .new).current.get e.id = some e.value := by
  simp only [marshalField, GoMap.getD]
  cases idx.numeric.get field with
  | none => simp [NumericField.new]
  | some numeric =>
    simp only [Option.getD_some, (perm_insertionSort _ _).mem_iff, mem_map,
      ← mem_toList]
    constructor
    · rintro ⟨⟨id, value⟩, hmem, rfl⟩
      exact hmem
    · exact fun hmem => ⟨_, hmem, rfl⟩

lemma HoldsField.number_of_mem (h : HoldsField lib column idx field) {e : NumericEntry}
    (he : e ∈ (idx.marshalField recordCount field).numbers) :
    ∃ value x, column e.id = some value ∧ lib.number value = some x ∧ x.key = e.value.key := by
  have hkey := h.numeric.current e.id
  rw [(mem_numbers idx).1 he, Option.map_some, eq_comm, Option.map_eq_some_iff] at hkey
  obtain ⟨x, hx, hkey⟩ := hkey
  obtain ⟨value, hvalue, hx⟩ := Option.bind_eq_some_iff.1 hx
  exact ⟨value, x, hvalue, hx, hkey⟩

lemma ordered_marshalField (idx : Index) (recordCount : ℕ) (field : GoString) :
    (idx.marshalField recordCount field).Ordered := by
  rw [Ordered, marshalField]
  cases idx.numeric.get field with
  | none => exact List.Pairwise.nil
  | some numeric => exact (pairwise_insertionSort _ _).imp NumericEntry.LE.key_le

lemma nodup_numbers (idx : Index) (recordCount : ℕ) (field : GoString) :
    ((idx.marshalField recordCount field).numbers.map NumericEntry.id).Nodup := by
  rw [marshalField]
  cases idx.numeric.get field with
  | none => exact nodup_nil
  | some numeric =>
    refine ((perm_insertionSort _ _).map _).nodup_iff.2 ?_
    have hmap : (numeric.current.toList.map fun e => (⟨e.2, e.1⟩ : NumericEntry)).map
        NumericEntry.id = numeric.current.keys := by
      rw [map_map, ← map_fst_toList]
      rfl
    exact hmap ▸ nodup_keys _

end Index

/-! ### What survives JSON -/

/-- The entry of a metadata map is the same after the trip through JSON, as far as the
index is concerned. -/
structure Survives (lib : Library) (field : GoString) (value : Value) : Prop where
  named : field ≠ []
  name : validUTF8 field = true
  text : validUTF8 (lib.canonical value) = true
  canonical : lib.canonical (value.throughJSON lib) = lib.canonical value

section Survives

variable {lib : Library} {field : GoString} {value : Value}

lemma throughJSON_of_number (h : lib.number value = some x) :
    value.throughJSON lib = .float64 x.bits := by
  simp only [Value.throughJSON, h]

lemma throughJSON_of_number_none (h : lib.number value = none) :
    value.throughJSON lib = value ∨ ∃ s, value = .string s ∧
      value.throughJSON lib = .string (coerceUTF8 s) := by
  cases value with
  | string s => exact .inr ⟨s, rfl, by simp [Value.throughJSON, Library.number]⟩
  | _ => exact .inl (by simp only [Value.throughJSON, h])

lemma number_throughJSON (lib : Library) (value : Value) :
    lib.number (value.throughJSON lib) = lib.number value := by
  cases hnum : lib.number value with
  | some x =>
    rw [throughJSON_of_number hnum]
    simp [Library.number, Float64.ofBits, x.finite]
  | none =>
    rcases throughJSON_of_number_none hnum with heq | ⟨s, rfl, heq⟩
    · rw [heq, hnum]
    · rw [heq]
      rfl

lemma isScalar_throughJSON (h : lib.isScalar value) : lib.isScalar (value.throughJSON lib) := by
  cases hnum : lib.number value with
  | some x =>
    rw [throughJSON_of_number hnum]
    simp [Library.isScalar, Library.number, Float64.ofBits, x.finite]
  | none =>
    rcases throughJSON_of_number_none hnum with heq | ⟨s, rfl, heq⟩
    · rwa [heq]
    · rw [heq]
      rfl

lemma Survives.throughJSON_eq (h : Survives lib field value) (hnum : lib.number value = none) :
    value.throughJSON lib = value := by
  rcases throughJSON_of_number_none hnum with heq | ⟨s, rfl, heq⟩
  · exact heq
  · have hcanon := h.canonical
    rw [heq, Library.canonical, Library.canonical] at hcanon
    rw [heq, append_cancel_left hcanon]

/-- No test tells a value from what it becomes. -/
lemma Test.holds_throughJSON (h : Survives lib field value) (test : Test) :
    test.holds lib (some (value.throughJSON lib)) = test.holds lib (some value) := by
  cases hnum : lib.number value with
  | none => rw [h.throughJSON_eq hnum]
  | some x =>
    have hcompare : ∀ target, lib.compare (value.throughJSON lib) target =
        lib.compare value target := by
      intro target
      simp only [Library.compare, number_throughJSON, hnum]
    cases test with
    | opText text =>
      rw [throughJSON_of_number hnum]
      cases value <;> simp_all [Test.holds, Library.number]
    | opExists wanted => rfl
    | _ => simp [Test.holds, h.canonical, hcompare]

end Survives

/-- Two rows that no test tells apart, and whose numbers are the same. -/
structure SameFor (lib : Library) (row row' : Index.Row) : Prop where
  test : ∀ field (test : Test), test.holds lib (row field) = test.holds lib (row' field)
  number : ∀ field, (row field).bind lib.number = (row' field).bind lib.number

variable {lib : Library} {row row' : Index.Row}

lemma GeoRadius.holds_congr (h : SameFor lib row row')
    (radius : GeoRadius) : radius.holds lib row = radius.holds lib row' := by
  have hpres := h.test radius.lonField (.opExists true)
  simp only [Test.holds, beq_true] at hpres
  have hlon : (lib.geoLongitudes radius).holds lib (row radius.lonField) =
      (lib.geoLongitudes radius).holds lib (row' radius.lonField) := by
    cases lib.geoLongitudes radius <;> simp [Longitudes.holds, h.number, hpres]
  rw [GeoRadius.holds, GeoRadius.holds, GeoRadius.near, GeoRadius.near, hlon, h.number, h.number]

mutual

/-- A filter reads the fields of a row through tests and as numbers only. -/
lemma Expr.holds_congr (h : SameFor lib row row') :
    ∀ expr : Expr, expr.holds lib row = expr.holds lib row'
  | .nil => rfl
  | .predicate field test => h.test field test
  | .and children => by rw [Expr.holds, Expr.holds, holdsAll_congr h children]
  | .or children => by rw [Expr.holds, Expr.holds, holdsAny_congr h children]
  | .not child => by rw [Expr.holds, Expr.holds, holds_congr h child]
  | .geo radius => by rw [Expr.holds, Expr.holds, radius.holds_congr h]

lemma Expr.holdsAll_congr (h : SameFor lib row row') :
    ∀ children : List Expr, holdsAll lib row children = holdsAll lib row' children
  | [] => rfl
  | child :: children => by
      rw [holdsAll, holdsAll, holds_congr h child, holdsAll_congr h children]

lemma Expr.holdsAny_congr (h : SameFor lib row row') :
    ∀ children : List Expr, holdsAny lib row children = holdsAny lib row' children
  | [] => rfl
  | child :: children => by
      rw [holdsAny, holdsAny, holds_congr h child, holdsAny_congr h children]

end

/-! ### A new index -/

namespace Index

/-- Every field and every posting of the index has a member: nothing has been deleted. -/
structure Occupied (idx : Index) : Prop where
  values : ∀ field, idx.values.has field = true →
    ∃ id value, (idx.values.getD field .empty).get id = some value
  valid : ∀ field key, ((idx.postings.getD field .empty).getD key .new).Valid
  postings : ∀ field key, (idx.postings.getD field .empty).has key = true →
    ∃ id, ((idx.postings.getD field .empty).getD key .new).mem id = true

variable {lib : Library} {idx : Index} {id : ℕ}

lemma occupied_newIndex : newIndex.Occupied where
  values := by simp [newIndex]
  valid := fun _ _ => by simpa [newIndex] using valid_new
  postings := by simp [newIndex]

lemma Occupied.upsertField (h : idx.Occupied) (lib : Library) (id : ℕ) (field : GoString)
    (value : Value) : (idx.upsertField lib id field value).Occupied := by
  rw [Index.upsertField]
  split
  · exact h
  obtain ⟨hvalid, hmem⟩ := add_spec (h.valid field (lib.canonical value)) id
  refine ⟨fun field' hhas => ?_, fun field' key => ?_, fun field' key hhas => ?_⟩
  · simp only [getD_set]
    split_ifs with hne
    · exact ⟨id, value, get_set_self ..⟩
    · exact h.values field' (by simpa [has_set, hne] using hhas)
  · simp only [getD_set]
    split
    · rw [getD_set]
      split
      · exact hvalid
      · exact h.valid field key
    · exact h.valid field' key
  · by_cases hfield : field' = field
    · subst hfield
      simp only [getD_set_self] at hhas ⊢
      rw [getD_set]
      split_ifs with hne
      · exact ⟨id, by simp [hmem]⟩
      · exact h.postings field' key (by simpa [has_set, hne] using hhas)
    · simp only [getD_set, if_neg hfield] at hhas ⊢
      exact h.postings field' key hhas

lemma delete_of_free (hfree : ∀ field, (idx.values.getD field .empty).get id = none) :
    idx.delete lib id = { idx with universeSet := idx.universeSet.remove id } := by
  rw [delete]
  refine foldl_fixed' (fun field => ?_) _
  rw [deleteField]
  simp only [hfree]

lemma Occupied.upsert (h : idx.Occupied)
    (hfree : ∀ field, (idx.values.getD field .empty).get id = none) (metadata : MetadataMap) :
    (idx.upsert lib id metadata).Occupied := by
  rw [Index.upsert, delete_of_free hfree]
  have hstart : ({ idx with universeSet := (idx.universeSet.remove id).add id } : Index).Occupied :=
    { h with }
  simp only
  generalize { idx with universeSet := (idx.universeSet.remove id).add id } = start at hstart
  generalize metadata.toList = entries
  induction entries generalizing start with
  | nil => exact hstart
  | cons e entries ih => exact ih _ (hstart.upsertField lib id e.1 e.2)

/-- The records by their ordinals, counted from 1. -/
def ordinals (records : List MetadataMap) : Records := fun id =>
  if id = 0 then none else records[id - 1]?

lemma ordinals_append (records : List MetadataMap) (metadata : MetadataMap) :
    ordinals (records ++ [metadata]) = fun id =>
      if id = records.length + 1 then some metadata else ordinals records id := by
  funext id
  simp only [ordinals]
  rcases Nat.eq_zero_or_pos id with rfl | hpos
  · simp
  rw [if_neg hpos.ne', if_neg hpos.ne', getElem?_append]
  split
  · rw [if_neg (by omega)]
  · split_ifs with heq
    · simp [heq]
    · rw [getElem?_eq_none (by simp; omega), getElem?_eq_none (by omega)]

lemma numbered_append (records : List MetadataMap) (metadata : MetadataMap) :
    numbered (records ++ [metadata]) =
      numbered records ++ [.upsert (records.length + 1) metadata] := by
  simp [numbered, zipIdx_append]

@[simp] lemma recordsOf_numbered (records : List MetadataMap) :
    recordsOf (numbered records) = ordinals records := by
  induction records using reverseRecOn with
  | nil =>
    funext id
    simp [recordsOf, numbered, ordinals]
  | append_singleton records metadata ih =>
    rw [numbered_append, ordinals_append, recordsOf, foldl_append, ← recordsOf, ih]
    rfl

lemma occupied_run_numbered (lib : Library) (records : List MetadataMap) :
    (run lib (numbered records)).Occupied := by
  induction records using reverseRecOn with
  | nil => exact occupied_newIndex
  | append_singleton records metadata ih =>
    rw [numbered_append, run, foldl_append, ← run]
    refine ih.upsert (fun field => ?_) metadata
    rw [((holds_run lib (numbered records)).field field).values, columnOf, rowsOf,
      recordsOf_numbered, ordinals, if_neg (by omega), getElem?_eq_none (by simp)]
    rfl

end Index

/-! ### Round trips -/

variable {field : GoString} {records : List MetadataMap} {metadata : MetadataMap}

namespace Index

variable {lib : Library} {rows : Rows} {idx : Index} {recordCount : ℕ}

/-- The rows are those of `recordCount` records, and of scalars. -/
structure Rows.Numbered (lib : Library) (recordCount : ℕ) (rows : Rows) : Prop where
  live : ∀ id, (rows id).isSome = true ↔ 0 < id ∧ id ≤ recordCount
  scalar : ∀ {field id value}, columnOf rows field id = some value → lib.isScalar value = true

lemma numbered_rowsOf (lib : Library) (records : List MetadataMap) :
    Rows.Numbered lib records.length (rowsOf lib (ordinals records)) where
  live := fun id => by
    rw [rowsOf, Option.isSome_map, ordinals]
    split
    · simp [*]
    · rw [isSome_getElem?]
      omega
  scalar := fun {field id value} hvalue => by
    simp only [columnOf, rowsOf, Option.bind_map, Option.bind_eq_some_iff, Function.comp_apply,
      scalar, Option.filter_eq_some_iff] at hvalue
    obtain ⟨metadata, -, -, hscal⟩ := hvalue
    exact hscal

lemma Rows.Numbered.range (h : rows.Numbered lib recordCount)
    (hvalue : columnOf rows field id = some value) : 0 < id ∧ id ≤ recordCount := by
  obtain ⟨row, hrow, -⟩ := Option.bind_eq_some_iff.1 hvalue
  exact (h.live id).1 (by rw [hrow]; rfl)

lemma Holds.mem_values_throughJSON (h : Holds lib rows idx) :
    (id, value) ∈ ((idx.marshalField recordCount field).throughJSON lib).values ↔
      ∃ stored, columnOf rows field id = some stored ∧ value = stored.throughJSON lib := by
  simp only [throughJSON, mem_map]
  constructor
  · rintro ⟨⟨id', stored⟩, hmem, heq⟩
    obtain ⟨rfl, rfl⟩ := Prod.mk.inj heq
    exact ⟨stored, (h.field field).mem_values.1 hmem, rfl⟩
  · rintro ⟨stored, hstored, rfl⟩
    exact ⟨(id, stored), (h.field field).mem_values.2 hstored, rfl⟩

/-- The values of a field that the index has all survive JSON. -/
def FieldSurvives (lib : Library) (rows : Rows) (field : GoString) : Prop :=
  ∀ id value, columnOf rows field id = some value → Survives lib field value

section Field

variable {field : GoString}

section

variable (h : Holds lib rows idx) (hocc : idx.Occupied)

include h hocc

lemma Holds.survives_name (hfield : idx.values.has field) (hsurv : FieldSurvives lib rows field) :
    field ≠ [] ∧ coerceUTF8 field = field := by
  obtain ⟨id, value, hvalue⟩ := hocc.values field hfield
  rw [(h.field field).values] at hvalue
  exact ⟨(hsurv id value hvalue).named, coerceUTF8_eq_self (hsurv id value hvalue).name⟩

lemma Holds.survives_key (hsurv : FieldSurvives lib rows field)
    (hp : p ∈ (idx.marshalField recordCount field).postings) :
    coerceUTF8 p.1 = p.1 ∧ ∃ value, lib.canonical value = p.1 := by
  obtain ⟨id, hid⟩ := hocc.postings field p.1 (mem_postings.1 hp).1
  rw [(h.field field).postings, Option.any_eq_true] at hid
  obtain ⟨value, hvalue, heq⟩ := hid
  rw [beq_iff_eq] at heq
  exact ⟨heq ▸ coerceUTF8_eq_self (hsurv id value hvalue).text, value, heq⟩

lemma Holds.postings_throughJSON (hsurv : FieldSurvives lib rows field) :
    ((idx.marshalField recordCount field).throughJSON lib).postings =
      (idx.marshalField recordCount field).postings := by
  rw [throughJSON]
  conv_rhs => rw [← List.map_id (idx.marshalField recordCount field).postings]
  exact map_congr_left fun p hp =>
    Prod.ext (h.survives_key hocc hsurv hp).1 rfl

end

lemma canonical_ne_nil (lib : Library) (value : Value) : lib.canonical value ≠ [] := by
  have hbytes : ∀ s t : GoString, s ≠ [] → s ++ t ≠ [] := fun s t hs heq =>
    hs (append_eq_nil_iff.1 heq).1
  cases value with
  | nil => exact show bytes "n:" ≠ [] by decide +kernel
  | jsonNumber text =>
    rw [Library.canonical]
    split <;> exact hbytes _ _ (by decide +kernel)
  | _ => exact hbytes _ _ (by decide +kernel)

lemma Holds.wellFormed_throughJSON (h : Holds lib rows idx) (hocc : idx.Occupied)
    (hrows : rows.Numbered lib recordCount) (hfield : idx.values.has field)
    (hsurv : FieldSurvives lib rows field) :
    ((idx.marshalField recordCount field).throughJSON lib).WellFormed lib recordCount where
  name := by
    obtain ⟨hne, hname⟩ := h.survives_name hocc hfield hsurv
    exact fun heq => hne (hname.symm.trans heq)
  range := fun e he => by
    obtain ⟨stored, hstored, -⟩ := h.mem_values_throughJSON.1 he
    exact hrows.range hstored
  scalar := fun e he => by
    obtain ⟨stored, hstored, heq⟩ := h.mem_values_throughJSON.1 he
    rw [heq]
    exact isScalar_throughJSON (hrows.scalar hstored)
  nodup := by
    simpa [throughJSON, Function.comp_def] using nodup_values idx recordCount field
  key := by
    rw [h.postings_throughJSON hocc hsurv]
    intro p hp
    obtain ⟨-, value, heq⟩ := h.survives_key hocc hsurv hp
    exact heq ▸ canonical_ne_nil lib value
  keys := by
    rw [h.postings_throughJSON hocc hsurv]
    exact nodup_postings idx recordCount field
  postings := by
    rw [h.postings_throughJSON hocc hsurv]
    intro p hp id hid
    obtain ⟨value, hvalue, heq⟩ := ((h.field field).mem_ids hp).1 hid
    exact ⟨_, h.mem_values_throughJSON.2 ⟨value, hvalue, rfl⟩,
      (hsurv id value hvalue).canonical.trans heq⟩
  ids := by
    rw [h.postings_throughJSON hocc hsurv]
    exact (h.field field).nodup_ids
  covered := by
    rw [h.postings_throughJSON hocc hsurv, throughJSON, length_map,
      ← length_map (f := Prod.fst)]
    exact (h.field field).perm_ids.length_eq
  numbers := fun e he => by
    obtain ⟨value, x, hvalue, hnum, hkey⟩ := (h.field field).number_of_mem
      (show e ∈ (idx.marshalField recordCount field).numbers from he)
    exact ⟨_, x, h.mem_values_throughJSON.2 ⟨value, hvalue, rfl⟩,
      (number_throughJSON lib value).trans hnum, by simp [Float64.eq, hkey]⟩
  numberIDs := nodup_numbers idx recordCount field
  numberCount := by
    rw [← length_map (f := Prod.fst), ← length_map (f := NumericEntry.id)]
    refine ((perm_ext_iff_of_nodup ?_
      (nodup_numbers idx recordCount field)).2 fun id => ?_).length_eq
    · refine (filter_sublist.map Prod.fst).nodup ?_
      simpa [throughJSON, Function.comp_def] using nodup_values idx recordCount field
    · simp only [mem_map, mem_filter]
      constructor
      · rintro ⟨⟨id', value⟩, ⟨hmem, hnum⟩, rfl⟩
        obtain ⟨stored, hstored, rfl⟩ := h.mem_values_throughJSON.1 hmem
        simp only [number_throughJSON] at hnum
        obtain ⟨x, hx⟩ := Option.isSome_iff_exists.1 hnum
        obtain ⟨y, hy, -⟩ := Option.map_eq_some_iff.1
          (((h.field field).numeric.current id').trans (by simp [hstored, hx]; rfl))
        exact ⟨⟨y, id'⟩, (HoldsField.mem_numbers idx).2 hy, rfl⟩
      · rintro ⟨e, he, rfl⟩
        obtain ⟨value, x, hvalue, hnum, -⟩ := (h.field field).number_of_mem he
        exact ⟨(e.id, _), ⟨h.mem_values_throughJSON.2 ⟨value, hvalue, rfl⟩, by
          simp [number_throughJSON, hnum]⟩, rfl⟩

lemma Holds.column_throughJSON (h : Holds lib rows idx) (field : GoString) (id : ℕ) :
    ((idx.marshalField recordCount field).throughJSON lib).column id =
      (columnOf rows field id).map (·.throughJSON lib) := by
  refine Option.ext fun value => ?_
  have hnodup : (((idx.marshalField recordCount field).throughJSON lib).values.map
      Prod.fst).Nodup := by
    simpa [throughJSON, Function.comp_def] using nodup_values idx recordCount field
  rw [column, get_setAll_empty hnodup, h.mem_values_throughJSON,
    Option.map_eq_some_iff]
  simp only [eq_comm (a := value)]

end Field

/-- The decoded file. -/
def decoded (lib : Library) (idx : Index) (recordCount : ℕ) : PersistedIndex :=
  ⟨1, recordCount, (sortStrings idx.values.keys).map fun field =>
    (idx.marshalField recordCount field).throughJSON lib⟩

lemma ordered_decoded (idx : Index) (recordCount : ℕ) :
    ∀ stored ∈ (idx.decoded lib recordCount).fields, stored.Ordered := by
  intro stored hstored
  obtain ⟨field, -, rfl⟩ := mem_map.1 hstored
  exact ordered_marshalField idx recordCount field

section

variable (h : Holds lib rows idx) (hocc : idx.Occupied) (hrows : rows.Numbered lib recordCount)
  (hsurv : ∀ field, FieldSurvives lib rows field)

include h hocc hrows hsurv

lemma Holds.wellFormed_decoded : (idx.decoded lib recordCount).WellFormed lib recordCount := by
  have hhas : ∀ field ∈ sortStrings idx.values.keys, idx.values.has field := by
    intro field hfield
    exact has_iff_mem_keys.2 (mem_sortStrings.1 hfield)
  refine ⟨rfl, rfl, ?_, fun stored hstored => ?_⟩
  · have hnames : (idx.decoded lib recordCount).fields.map PersistedField.name =
        sortStrings idx.values.keys := by
      rw [decoded, map_map]
      conv_rhs => rw [← List.map_id (sortStrings idx.values.keys)]
      exact map_congr_left fun field hfield =>
        (h.survives_name hocc (hhas field hfield) (hsurv field)).2
    rw [hnames]
    exact (perm_insertionSort _ _).nodup_iff.2 (nodup_keys _)
  · obtain ⟨field, hfield, rfl⟩ := mem_map.1 hstored
    exact h.wellFormed_throughJSON hocc hrows (hhas field hfield) (hsurv field)

lemma Holds.rows_decoded (id : ℕ) : (idx.decoded lib recordCount).rows recordCount id =
      (rows id).map fun row field => (row field).map (·.throughJSON lib) := by
  rw [PersistedIndex.rows]
  split_ifs with hid
  · obtain ⟨row, hrow⟩ := Option.isSome_iff_exists.1 ((hrows.live id).2 hid)
    have hcol : ∀ name, columnOf rows name id = row name := fun name => by
      rw [columnOf, hrow, Option.bind_some]
    rw [hrow, Option.map_some, Option.some.injEq]
    funext name
    have hwell := h.wellFormed_decoded hocc hrows hsurv
    cases hfind : (idx.decoded lib recordCount).fields.find? (·.name = name) with
    | some stored =>
      obtain ⟨field, hfield, rfl⟩ := mem_map.1 (mem_of_find?_eq_some hfind)
      have hfield := has_iff_mem_keys.2 (mem_sortStrings.1 hfield)
      have hname := find?_some hfind
      have hname : coerceUTF8 field = name := of_decide_eq_true hname
      rw [(h.survives_name hocc hfield (hsurv field)).2] at hname
      subst hname
      rw [Option.bind_some, h.column_throughJSON, hcol]
    | none =>
      cases hvalue : row name with
      | none => rfl
      | some value =>
        -- a field with a value is in the file under its name
        have hget := (h.field name).values id
        rw [hcol, hvalue] at hget
        have hmem : name ∈ sortStrings idx.values.keys := mem_sortStrings.2 (by
          by_contra hnot
          rw [GoMap.getD, notMem_keys.1 hnot] at hget
          simp at hget)
        have hnone := find?_eq_none.1 hfind _ (mem_map.2 ⟨name, hmem, rfl⟩)
        have hname := (hsurv name id value ((hcol name).trans hvalue)).name
        exact absurd (decide_eq_true (coerceUTF8_eq_self hname)) hnone
  · rw [← hrows.live, Bool.not_eq_true, Option.isSome_eq_false_iff, Option.isNone_iff_eq_none]
      at hid
    rw [hid, Option.map_none]

lemma Holds.evaluate_decoded (expr : Expr) (id : ℕ) :
    (((idx.decoded lib recordCount).index recordCount).evaluate lib expr).contains id =
      (rows id).any (expr.holds lib ·) := by
  have hwell := h.wellFormed_decoded hocc hrows hsurv
  have hloaded := PersistedIndex.holds_index hwell (ordered_decoded _ _)
  rw [hloaded.contains_evaluate id, h.rows_decoded hocc hrows hsurv]
  cases hrow : rows id with
  | none => rfl
  | some row =>
    rw [Option.map_some, Option.any_some, Option.any_some]
    refine holds_congr ⟨fun field test => ?_, fun field => ?_⟩ expr
    · cases hvalue : row field with
      | none => rfl
      | some value =>
        have hcol : columnOf rows field id = some value := by
          rw [columnOf, hrow, Option.bind_some, hvalue]
        exact Test.holds_throughJSON (hsurv field id value hcol) test
    · cases row field with
      | none => rfl
      | some value => exact number_throughJSON lib value

end

/-- Writing the records and reading them back succeeds, and gives an index that answers
every filter without a geo part, with `geo` every filter at all, as any index does that has
the same records at the same ordinals. -/
def RoundTrips (lib : Library) (geo : Bool) (records : List MetadataMap) : Prop :=
  ∃ file loaded, marshalRecords lib records = some file ∧
    loadBinary lib (file.throughJSON lib) records.length = .ok loaded ∧
    ∀ updates, recordsOf updates = ordinals records → ∀ expr : Expr, (geo || expr.nonGeo) = true →
      (∀ id, (loaded.evaluate lib expr).contains id =
        ((run lib updates).evaluate lib expr).contains id) ∧
      (loaded.evaluate lib expr).len = ((run lib updates).evaluate lib expr).len

lemma marshalRecords_eq (lib : Library) (records : List MetadataMap) :
    ∃ file, marshalRecords lib records = some file ∧
      file.throughJSON lib = (run lib (numbered records)).decoded lib records.length := by
  have h := holds_run lib (numbered records)
  have hlen : (run lib (numbered records)).universeSet.len = records.length := by
    have hset : {id | (run lib (numbered records)).universeSet.contains id = true} =
        ((Finset.Icc 1 records.length : Finset ℕ) : Set ℕ) := by
      ext id
      rw [Finset.coe_Icc, Set.mem_Icc]
      change (run lib (numbered records)).universeSet.contains id = true ↔ _
      rw [h.universeSet, recordsOf_numbered, (numbered_rowsOf lib records).live]
      omega
    rw [h.counted.len_eq_ncard, hset, Set.ncard_coe_finset, Nat.card_Icc, Nat.add_sub_cancel]
  refine ⟨_, by rw [marshalRecords, marshalBinary, if_neg (not_ne_iff.2 hlen)], ?_⟩
  rw [PersistedIndex.throughJSON, decoded, map_map]
  rfl

lemma columnOf_ordinals : columnOf (rowsOf lib (ordinals records)) field id = some value ↔
      ∃ metadata, ordinals records id = some metadata ∧ metadata.get field = some value ∧
        lib.isScalar value := by
  simp [columnOf, rowsOf, Option.bind_map, Option.bind_eq_some_iff, scalar,
    Option.filter_eq_some_iff]

lemma mem_iff_ordinals : metadata ∈ records ↔ ∃ id, ordinals records id = some metadata := by
  rw [mem_iff_getElem?]
  constructor
  · rintro ⟨i, hi⟩
    exact ⟨i + 1, by rwa [ordinals, if_neg (Nat.succ_ne_zero i)]⟩
  · rintro ⟨id, hid⟩
    rw [ordinals] at hid
    split at hid
    · cases hid
    · exact ⟨_, hid⟩

/-- A file that is accepted has the name and the posting of every value. -/
lemma Holds.canonical_of_wellFormed (h : Holds lib rows idx)
    (hwell : (idx.decoded lib recordCount).WellFormed lib recordCount)
    (hvalue : columnOf rows field id = some value) : field ≠ [] ∧
      lib.canonical (value.throughJSON lib) = coerceUTF8 (lib.canonical value) := by
  have hmem : field ∈ sortStrings idx.values.keys := mem_sortStrings.2 (by
    by_contra hnot
    have hget := (h.field field).values id
    rw [hvalue, GoMap.getD, notMem_keys.1 hnot] at hget
    simp at hget)
  have hfield := hwell.fields _ (mem_map.2 ⟨field, hmem, rfl⟩)
  refine ⟨fun hempty => hfield.name (by rw [hempty]; rfl), ?_⟩
  obtain ⟨p, hp, hkey⟩ := (h.field field).exists_posting recordCount hvalue
  have hid := ((h.field field).mem_ids hp).2 ⟨value, hvalue, hkey.symm⟩
  obtain ⟨decodedValue, hdec, hcanon⟩ :=
    hfield.postings (coerceUTF8 p.1, p.2) (mem_map.2 ⟨p, hp, rfl⟩) id hid
  obtain ⟨stored, hstored, rfl⟩ := h.mem_values_throughJSON.1 hdec
  obtain rfl := Option.mem_unique hvalue hstored
  exact hcanon.trans (congrArg coerceUTF8 hkey)

/-- What the reader's index finds under a name and a key went through JSON under them. -/
lemma validUTF8_of_contains (hwell : (idx.decoded lib recordCount).WellFormed lib recordCount)
    (hexists : (((idx.decoded lib recordCount).index recordCount).evaluate lib
      (.predicate field (.opExists true))).contains id)
    (heq : (((idx.decoded lib recordCount).index recordCount).evaluate lib
      (.predicate field (.opEq value))).contains id) :
    validUTF8 field ∧ validUTF8 (lib.canonical value) := by
  by_cases hname : field ∈ (idx.decoded lib recordCount).fields.map PersistedField.name
  · obtain ⟨stored, hstored, rfl⟩ := mem_map.1 hname
    obtain ⟨name, -, rfl⟩ := mem_map.1 hstored
    refine ⟨validUTF8_coerceUTF8 name, ?_⟩
    have hwellField := hwell.fields _ hstored
    have hposts := (PersistedIndex.foldl_install_of_mem recordCount
      (universal recordCount) hwell.names hstored (get_empty _)).2.1
    have hget : ((idx.decoded lib recordCount).index recordCount).postings.getD
        ((idx.marshalField recordCount name).throughJSON lib).name .empty =
        ((idx.marshalField recordCount name).throughJSON lib).postingMap := by
      rw [PersistedIndex.index, GoMap.getD, hposts, Option.getD_some]
    rw [evaluate, predicate, postingSet, hget, (set_spec (hwellField.postingMap _).1 _).2,
      (hwellField.postingMap _).2, Option.any_eq_true] at heq
    obtain ⟨other, hother, hcanon⟩ := heq
    obtain ⟨p, hp, -, hkey⟩ := hwellField.exists_posting (hwellField.column_eq_some.1 hother)
    obtain ⟨q, -, rfl⟩ := mem_map.1 hp
    rw [← beq_iff_eq.1 hcanon, hkey]
    exact validUTF8_coerceUTF8 q.1
  · have hpres := (PersistedIndex.foldl_install_of_notMem recordCount
      (universal recordCount) hname).2.2.1
    rw [evaluate, predicate, if_pos rfl, GoMap.getD, PersistedIndex.index, hpres] at hexists
    simp [universal, newIndex] at hexists

lemma RoundTrips.survives {geo : Bool} (htrip : RoundTrips lib geo records) (hmem : metadata ∈ records)
    (hget : metadata.get field = some value) (hscal : lib.isScalar value) :
    Survives lib field value := by
  obtain ⟨file, hfile, hdec⟩ := marshalRecords_eq lib records
  have h := holds_run lib (numbered records)
  rw [recordsOf_numbered] at h
  obtain ⟨file', loaded, hfile', hload, hevaluate⟩ := htrip
  obtain rfl := Option.mem_unique hfile hfile'
  rw [hdec] at hload
  obtain ⟨hwell, rfl⟩ := loadBinary_eq_ok.1 hload
  obtain ⟨id, hid⟩ := mem_iff_ordinals.1 hmem
  have hvalue := columnOf_ordinals.2 ⟨metadata, hid, hget, hscal⟩
  obtain ⟨hnamed, hcanon⟩ := h.canonical_of_wellFormed hwell hvalue
  -- in memory the value is found, so it is found in the file
  have hfind : ∀ test : Test, test.holds lib (some value) = true →
      ((((run lib (numbered records)).decoded lib records.length).index
        records.length).evaluate lib (.predicate field test)).contains id = true := by
    intro test htest
    rw [(hevaluate _ (recordsOf_numbered records) _ (Bool.or_true _)).1 id, h.contains_evaluate id]
    obtain ⟨row, hrow, hfield⟩ := Option.bind_eq_some_iff.1 hvalue
    simpa [hrow, Expr.holds, hfield] using htest
  obtain ⟨hname, htext⟩ := validUTF8_of_contains hwell (hfind (.opExists true) rfl)
    (hfind (.opEq value) (by simp [Test.holds]))
  exact ⟨hnamed, hname, htext, hcanon.trans (coerceUTF8_eq_self htext)⟩

lemma roundTrips_of_survives (geo : Bool) {records : List MetadataMap}
    (hsurv : ∀ metadata ∈ records, ∀ field value,
      metadata.get field = some value → lib.isScalar value → Survives lib field value) :
    RoundTrips lib geo records := by
  obtain ⟨file, hfile, hdec⟩ := marshalRecords_eq lib records
  have h := holds_run lib (numbered records)
  rw [recordsOf_numbered] at h
  have hrows := numbered_rowsOf lib records
  have hocc := occupied_run_numbered lib records
  have hall : ∀ field, FieldSurvives lib (rowsOf lib (ordinals records)) field := by
    intro field id value hvalue
    obtain ⟨metadata, hid, hget, hscal⟩ := columnOf_ordinals.1 hvalue
    exact hsurv metadata (mem_iff_ordinals.2 ⟨id, hid⟩) field value hget hscal
  have hwell := h.wellFormed_decoded hocc hrows hall
  have hloaded := PersistedIndex.holds_index hwell (ordered_decoded _ _)
  refine ⟨file, _, hfile, loadBinary_eq_ok.2 ⟨by rwa [hdec], rfl⟩,
    fun updates hupdates expr _ => ?_⟩
  rw [hdec]
  have hrun := holds_run lib updates
  rw [hupdates] at hrun
  have hcont : ∀ id, ((((run lib (numbered records)).decoded lib records.length).index
      records.length).evaluate lib expr).contains id =
      ((run lib updates).evaluate lib expr).contains id := fun id => by
    rw [h.evaluate_decoded hocc hrows hall, hrun.contains_evaluate id]
  refine ⟨hcont, ?_⟩
  rw [(hloaded.counted_evaluate expr).len_eq_ncard, (hrun.counted_evaluate expr).len_eq_ncard]
  simp only [hcont]

/-- Persisted filter indexes round-trip exactly if every field of the records has a name in
UTF-8 and every value survives JSON with its canonical text. -/
theorem roundTrips_iff (lib : Library) (geo : Bool) (records : List MetadataMap) :
    RoundTrips lib geo records ↔ ∀ metadata ∈ records, ∀ field value,
      metadata.get field = some value → lib.isScalar value = true → Survives lib field value :=
  ⟨fun h _ hmem _ _ hget hscal => h.survives hmem hget hscal, roundTrips_of_survives geo⟩

/-- A record with a field without a name cannot be read back, whatever the library does. -/
theorem empty_field_unreadable : ∃ metadata : GoMap GoString Value,
    metadata = GoMap.empty.set [] (.bool true) ∧
      ∀ (lib : Library) (geo : Bool), ¬ RoundTrips lib geo [metadata] := by
  refine ⟨_, rfl, fun lib geo h => ?_⟩
  exact (h.survives mem_cons_self (get_set_self ..) rfl).named rfl

end Index

end GideonDB.Metadata
