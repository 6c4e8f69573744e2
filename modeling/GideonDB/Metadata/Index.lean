/-
The metadata index (`Index` of `metadata/filter.go`) and its two updates.

The index keeps four maps by field: the values, the postings by canonical text, the bitmap
of the ordinals that have the field, and the numeric index.  `Holds` says that they are
those of given records; `Upsert` and `Delete` change the records one ordinal at a time
(`Holds.upsert`, `Holds.delete`), hence every run of updates keeps the index in step with
the records it leaves (`holds_run`).
-/
import GideonDB.Metadata.Numeric
import GideonDB.Metadata.Posting

namespace GideonDB.Metadata

open Go GoMap OrdinalSet

/-- Values by field. -/
abbrev MetadataMap := GoMap GoString Value

/-- `Index`. -/
structure Index where
  /-- The ordinals that are live. -/
  universeSet : OrdinalSet
  /-- The value of an ordinal, by field. -/
  values : GoMap GoString (GoMap ℕ Value)
  /-- The ordinals that have a value, by field and canonical text. -/
  postings : GoMap GoString (GoMap GoString Posting)
  present : GoMap GoString OrdinalSet
  numeric : GoMap GoString NumericField

namespace Index

/-- `NewIndex`. -/
def newIndex : Index := ⟨newSet 0, .empty, .empty, .empty, .empty⟩

/-- What `Upsert` does with one field of the metadata. -/
def upsertField (lib : Library) (idx : Index) (id : ℕ) (field : GoString) (value : Value) : Index :=
  if !lib.isScalar value then idx
  else
    let key := lib.canonical value
    let ofField := idx.postings.getD field .empty
    { idx with
      values := idx.values.set field ((idx.values.getD field .empty).set id value)
      postings := idx.postings.set field (ofField.set key ((ofField.getD key .new).add id))
      present := idx.present.set field ((idx.present.getD field (newSet id)).add id)
      numeric :=
        match lib.number value with
        | some number =>
          idx.numeric.set field ((idx.numeric.getD field .new).insert ⟨number, id⟩)
        | none => idx.numeric }

/-- What `Delete` does with one field of the index. -/
def deleteField (lib : Library) (idx : Index) (id : ℕ) (field : GoString) : Index :=
  match (idx.values.getD field .empty).get id with
  | none => idx
  | some value =>
    { idx with
      values := idx.values.modify field (·.delete id)
      postings := idx.postings.modify field (·.modify (lib.canonical value) (·.remove id))
      present := idx.present.modify field (·.remove id)
      numeric :=
        match lib.number value with
        | some number => idx.numeric.modify field (·.delete number id)
        | none => idx.numeric }

/-- `Delete`. -/
def delete (lib : Library) (idx : Index) (id : ℕ) : Index :=
  idx.values.keys.foldl (fun idx field => idx.deleteField lib id field)
    { idx with universeSet := idx.universeSet.remove id }

/-- `Upsert`. -/
def upsert (lib : Library) (idx : Index) (id : ℕ) (metadata : MetadataMap) : Index :=
  let deleted := idx.delete lib id
  metadata.toList.foldl (fun idx (field, value) => idx.upsertField lib id field value)
    { deleted with universeSet := deleted.universeSet.add id }

/-! ### What the index holds -/

/-- A field's values by ordinal. -/
abbrev Column := ℕ → Option Value

/-- The four maps at one field are those of its column. -/
structure HoldsField (lib : Library) (column : Column) (idx : Index) (field : GoString) :
    Prop where
  values : ∀ id, (idx.values.getD field .empty).get id = column id
  valid : ∀ key, ((idx.postings.getD field .empty).getD key .new).Valid
  postings : ∀ key id, ((idx.postings.getD field .empty).getD key .new).mem id =
    (column id).any (lib.canonical · == key)
  counted : (idx.present.getD field (newSet 0)).Counted
  present : ∀ id, (idx.present.getD field (newSet 0)).contains id = (column id).isSome
  numeric : (idx.numeric.getD field .new).Indexes fun id =>
    ((column id).bind lib.number).map Float64.key

variable {lib : Library} {column : Column} {idx : Index} {field field' : GoString} {id : ℕ}

lemma holdsField_newIndex (lib : Library) (field : GoString) :
    HoldsField lib (fun _ => none) newIndex field where
  values := by simp [newIndex]
  valid := by simpa [newIndex] using Posting.valid_new
  postings := by simp [newIndex]
  counted := by simp [newIndex]
  present := by simp [newIndex]
  numeric := by simpa [newIndex] using NumericField.indexes_new

section

variable (h : HoldsField lib column idx field)

include h

lemma HoldsField.congr {idx' : Index} (hvalues : idx'.values.get field = idx.values.get field)
    (hposts : idx'.postings.get field = idx.postings.get field)
    (hpres : idx'.present.get field = idx.present.get field)
    (hnumeric : idx'.numeric.get field = idx.numeric.get field) :
    HoldsField lib column idx' field := by
  constructor <;> simp only [GoMap.getD, hvalues, hposts, hpres, hnumeric]
  exacts [h.values, h.valid, h.postings, h.counted, h.present, h.numeric]

lemma HoldsField.upsertField_of_ne (hne : field ≠ field') (value : Value) :
    HoldsField lib column (idx.upsertField lib id field' value) field := by
  rw [upsertField]
  split
  · exact h
  · refine h.congr ?_ ?_ ?_ ?_
    · exact get_set_of_ne _ _ hne
    · exact get_set_of_ne _ _ hne
    · exact get_set_of_ne _ _ hne
    · cases lib.number value with
      | none => rfl
      | some number => exact get_set_of_ne _ _ hne

lemma HoldsField.deleteField_of_ne (hne : field ≠ field') :
    HoldsField lib column (idx.deleteField lib id field') field := by
  rw [deleteField]
  split
  · exact h
  · rename_i value _
    refine h.congr ?_ ?_ ?_ ?_
    · simp [get_modify, hne]
    · simp [get_modify, hne]
    · simp [get_modify, hne]
    · cases lib.number value with
      | none => rfl
      | some number => simp [get_modify, hne]

lemma HoldsField.present_getD (maxID : ℕ) :
    (idx.present.getD field (newSet maxID)).Counted ∧
      ∀ id, (idx.present.getD field (newSet maxID)).contains id = (column id).isSome := by
  have hcntd := h.counted
  have hpres := h.present
  cases hget : idx.present.get field with
  | none =>
    simp only [GoMap.getD, hget, Option.getD_none, contains_newSet] at hpres ⊢
    exact ⟨counted_newSet maxID, hpres⟩
  | some set =>
    simp only [GoMap.getD, hget, Option.getD_some] at hcntd hpres ⊢
    exact ⟨hcntd, hpres⟩

lemma HoldsField.upsertField (hfree : column id = none) {value : Value}
    (hscal : lib.isScalar value) :
    HoldsField lib (fun id' => if id' = id then some value else column id')
      (idx.upsertField lib id field value) field := by
  rw [Index.upsertField, if_neg (by simp [hscal])]
  obtain ⟨hcntd, hpres⟩ := h.present_getD id
  obtain ⟨hvalid, hmem⟩ := Posting.add_spec (h.valid (lib.canonical value)) id
  refine ⟨fun id' => ?_, fun key => ?_, fun key id' => ?_, ?_, fun id' => ?_, ?_⟩
  · rw [getD_set_self, get_set, h.values]
  · simp only [getD_set_self, getD_set]
    split
    · exact hvalid
    · exact h.valid key
  · simp only [getD_set_self, getD_set]
    split
    · rename_i hkey
      rw [hmem, h.postings, hkey]
      by_cases heq : id' = id <;> simp [heq]
    · rename_i hkey
      rw [h.postings]
      by_cases heq : id' = id
      · simpa [heq, hfree] using Ne.symm hkey
      · simp [heq]
  · simpa only [getD_set_self] using hcntd.add id
  · simp only [getD_set_self, contains_add, hpres]
    by_cases heq : id' = id <;> simp [heq]
  · cases hnum : lib.number value with
    | none =>
      convert h.numeric using 2 with id'
      by_cases heq : id' = id <;> simp [heq, hfree, hnum]
    | some number =>
      simp only [getD_set_self]
      convert h.numeric.insert ⟨number, id⟩ (by simp [hfree]) using 2 with id'
      by_cases heq : id' = id <;> simp [heq, hnum]

lemma HoldsField.deleteField (id : ℕ) :
    HoldsField lib (fun id' => if id' = id then none else column id')
      (idx.deleteField lib id field) field := by
  rw [Index.deleteField, h.values]
  cases hvalue : column id with
  | none =>
    convert h using 2 with id'
    by_cases heq : id' = id <;> simp [heq, hvalue]
  | some value =>
    have hempty : (GoMap.empty : GoMap GoString Posting).modify (lib.canonical value)
      (·.remove id) = .empty := rfl
    simp only
    refine ⟨fun id' => ?_, fun key => ?_, fun key id' => ?_, ?_, fun id' => ?_, ?_⟩
    · rw [getD_modify _ _ _ _ rfl, if_pos rfl, get_delete, h.values]
    · rw [getD_modify _ _ _ _ hempty, if_pos rfl,
        getD_modify _ _ (Posting.remove · id) _ rfl]
      split
      · exact (Posting.remove_spec (h.valid _) id).1
      · exact h.valid key
    · rw [getD_modify _ _ _ _ hempty, if_pos rfl,
        getD_modify _ _ (Posting.remove · id) _ rfl]
      split
      · rename_i hkey
        rw [(Posting.remove_spec (h.valid _) id).2, h.postings, hkey]
        by_cases heq : id' = id <;> simp [heq]
      · rename_i hkey
        rw [h.postings]
        by_cases heq : id' = id
        · simpa [heq, hvalue] using Ne.symm hkey
        · simp [heq]
    · rw [getD_modify _ _ _ _ (remove_newSet 0 id), if_pos rfl]
      exact h.counted.remove id
    · rw [getD_modify _ _ _ _ (remove_newSet 0 id), if_pos rfl,
        contains_remove, h.present]
      by_cases heq : id' = id <;> simp [heq]
    · cases hnum : lib.number value with
      | none =>
        convert h.numeric using 2 with id'
        by_cases heq : id' = id <;> simp [heq, hvalue, hnum]
      | some number =>
        simp only
        rw [getD_modify _ _ (NumericField.delete · number id) _ rfl, if_pos rfl]
        convert h.numeric.delete number id (by simp [hvalue, hnum])
          using 2 with id'
        by_cases heq : id' = id <;> simp [heq]

end

/-! ### Records -/

/-- A record's values by field. -/
abbrev Row := GoString → Option Value

/-- The rows of the live ordinals. -/
abbrev Rows := ℕ → Option Row

/-- The values of a metadata map that the index takes. -/
def scalar (lib : Library) (metadata : MetadataMap) : Row := fun field =>
  (metadata.get field).filter (lib.isScalar ·)

/-- The values of a field. -/
def columnOf (rows : Rows) (field : GoString) : Column := fun id => (rows id).bind (· field)

/-- The index is that of the rows. -/
structure Holds (lib : Library) (rows : Rows) (idx : Index) : Prop where
  counted : idx.universeSet.Counted
  universeSet : ∀ id, idx.universeSet.contains id = (rows id).isSome
  field : ∀ field, HoldsField lib (columnOf rows field) idx field

variable {rows : Rows}

lemma holds_newIndex (lib : Library) : Holds lib (fun _ => none) newIndex where
  counted := counted_newSet 0
  universeSet := contains_newSet 0
  field := holdsField_newIndex lib

lemma HoldsField.set_universeSet (h : HoldsField lib column idx field) (universeSet : OrdinalSet) :
    HoldsField lib column { idx with universeSet := universeSet } field :=
  h.congr rfl rfl rfl rfl

@[simp] lemma universeSet_deleteField (idx : Index) (id : ℕ) (field : GoString) :
    (idx.deleteField lib id field).universeSet = idx.universeSet := by
  rw [Index.deleteField]
  split <;> rfl

@[simp] lemma universeSet_upsertField (idx : Index) (id : ℕ) (field : GoString) (value : Value) :
    (idx.upsertField lib id field value).universeSet = idx.universeSet := by
  rw [Index.upsertField]
  split <;> rfl

lemma universeSet_foldl_deleteField (fields : List GoString) (idx : Index) (id : ℕ) :
    (fields.foldl (fun idx field => idx.deleteField lib id field) idx).universeSet = idx.universeSet := by
  induction fields generalizing idx with
  | nil => rfl
  | cons f fields ih => rw [List.foldl_cons, ih, universeSet_deleteField]

lemma universeSet_foldl_upsertField (entries : List (GoString × Value)) (idx : Index) (id : ℕ) :
    (entries.foldl (fun idx (entry : GoString × Value) =>
      idx.upsertField lib id entry.1 entry.2) idx).universeSet = idx.universeSet := by
  induction entries generalizing idx with
  | nil => rfl
  | cons e entries ih => rw [List.foldl_cons, ih, universeSet_upsertField]

lemma HoldsField.foldl_deleteField (h : HoldsField lib column idx field) (id : ℕ)
    (fields : List GoString) :
    HoldsField lib (fun id' => if field ∈ fields ∧ id' = id then none else column id')
      (fields.foldl (fun idx field => idx.deleteField lib id field) idx) field := by
  induction fields generalizing idx column with
  | nil => simpa using h
  | cons f fields ih =>
    rw [List.foldl_cons]
    by_cases hf : field = f
    · subst hf
      convert ih (h.deleteField id) using 2 with id'
      by_cases heq : id' = id <;> simp [heq]
    · convert ih (h.deleteField_of_ne hf) using 2 with id'
      simp [hf]

lemma HoldsField.foldl_upsertField_of_notMem {entries : List (GoString × Value)}
    (hnot : field ∉ entries.map Prod.fst) (h : HoldsField lib column idx field) :
    HoldsField lib column (entries.foldl (fun idx (entry : GoString × Value) =>
      idx.upsertField lib id entry.1 entry.2) idx) field := by
  induction entries generalizing idx with
  | nil => exact h
  | cons e entries ih =>
    rw [List.map_cons, List.mem_cons, not_or] at hnot
    exact ih hnot.2 (h.upsertField_of_ne hnot.1 e.2)

lemma HoldsField.foldl_upsertField (h : HoldsField lib column idx field) (id : ℕ)
    (entries : List (GoString × Value)) (hnodup : (entries.map Prod.fst).Nodup)
    (hfree : column id = none) (value? : Option Value) (hvalue : ∀ value, value? = some value ↔
      (field, value) ∈ entries ∧ lib.isScalar value) :
    HoldsField lib (fun id' => if id' = id then value? else column id')
      (entries.foldl (fun idx (entry : GoString × Value) =>
        idx.upsertField lib id entry.1 entry.2) idx) field := by
  -- what the column is if the field's entry is not taken
  have hskip : value? = none → (fun id' => if id' = id then value? else column id') = column := by
    rintro rfl
    funext id'
    by_cases heq : id' = id <;> simp [heq, hfree]
  induction entries generalizing idx with
  | nil =>
    rw [hskip (Option.eq_none_iff_forall_ne_some.2 fun value heq => by
      simpa using (hvalue value).1 heq)]
    exact h
  | cons e entries ih =>
    obtain ⟨f, v⟩ := e
    obtain ⟨hnot, hnodup⟩ := List.nodup_cons.1 hnodup
    rw [List.foldl_cons]
    by_cases hf : field = f
    · subst hf
      refine foldl_upsertField_of_notMem hnot ?_
      have hrest : ∀ value, (field, value) ∉ entries := fun value hmem =>
        hnot (List.mem_map.2 ⟨_, hmem, rfl⟩)
      cases hscal : lib.isScalar v with
      | true =>
        rw [(hvalue v).2 ⟨List.mem_cons_self, hscal⟩]
        exact h.upsertField hfree hscal
      | false =>
        rw [hskip (Option.eq_none_iff_forall_ne_some.2 fun value heq => ?_),
          Index.upsertField, if_pos (by simp [hscal])]
        · exact h
        · obtain ⟨hmem, hvalueScalar⟩ := (hvalue value).1 heq
          rcases List.mem_cons.1 hmem with heq | hmem
          · rw [← (Prod.mk.inj heq).2, hvalueScalar] at hscal
            cases hscal
          · exact hrest value hmem
    · refine ih (h.upsertField_of_ne hf v) hnodup fun value => ?_
      rw [hvalue, List.mem_cons]
      simp [hf]

lemma Holds.delete (h : Holds lib rows idx) (id : ℕ) :
    Holds lib (fun id' => if id' = id then none else rows id') (idx.delete lib id) where
  counted := by
    rw [Index.delete, universeSet_foldl_deleteField]
    exact h.counted.remove id
  universeSet := fun id' => by
    rw [Index.delete, universeSet_foldl_deleteField, contains_remove, h.universeSet]
    by_cases heq : id' = id <;> simp [heq]
  field := fun field => by
    have hfold := ((h.field field).set_universeSet
      (idx.universeSet.remove id)).foldl_deleteField id idx.values.keys
    rw [Index.delete]
    convert hfold using 1
    funext id'
    by_cases heq : id' = id
    · -- a field the index does not have has no values
      by_cases hfield : field ∈ idx.values.keys
      · simp [columnOf, heq, hfield]
      · have hnone := (h.field field).values id
        rw [GoMap.getD, notMem_keys.1 hfield] at hnone
        simpa [heq, hfield, columnOf] using hnone
    · simp [columnOf, heq]

lemma Holds.upsert (h : Holds lib rows idx) (id : ℕ) (metadata : MetadataMap) :
    Holds lib (fun id' => if id' = id then some (scalar lib metadata) else rows id')
      (idx.upsert lib id metadata) where
  counted := by
    rw [Index.upsert, universeSet_foldl_upsertField]
    exact (h.delete id).counted.add id
  universeSet := fun id' => by
    rw [Index.upsert, universeSet_foldl_upsertField, contains_add,
      (h.delete id).universeSet]
    by_cases heq : id' = id <;> simp [heq]
  field := fun field => by
    have hdel := ((h.delete id).field field).set_universeSet
      ((idx.delete lib id).universeSet.add id)
    have hfold := hdel.foldl_upsertField id metadata.toList
      (by rw [map_fst_toList]; exact metadata.nodup_keys) (by simp [columnOf])
      (scalar lib metadata field) fun value => by
        rw [scalar, Option.filter_eq_some_iff, mem_toList]
    rw [Index.upsert]
    convert hfold using 1
    funext id'
    by_cases heq : id' = id <;> simp [columnOf, heq]

/-! ### Runs -/

/-- The writes. -/
inductive Update
  | upsert (id : ℕ) (metadata : MetadataMap)
  | delete (id : ℕ)

/-- Applies one write. -/
def apply (lib : Library) (idx : Index) : Update → Index
  | .upsert id metadata => idx.upsert lib id metadata
  | .delete id => idx.delete lib id

/-- Metadata by ordinal. -/
abbrev Records := ℕ → Option MetadataMap

/-- Applies one write. -/
def Update.apply (records : Records) : Update → Records
  | .upsert id metadata => fun id' => if id' = id then some metadata else records id'
  | .delete id => fun id' => if id' = id then none else records id'

/-- The index it leaves. -/
def run (lib : Library) (updates : List Update) : Index :=
  updates.foldl (apply lib) newIndex

/-- The records it leaves. -/
def recordsOf (updates : List Update) : Records :=
  updates.foldl Update.apply fun _ => none

/-- Their scalar values. -/
def rowsOf (lib : Library) (records : Records) : Rows := fun id => (records id).map (scalar lib)

variable {records : Records}

lemma Holds.apply (h : Holds lib (rowsOf lib records) idx) (update : Update) :
    Holds lib (rowsOf lib (update.apply records)) (idx.apply lib update) := by
  cases update with
  | upsert id metadata =>
    rw [Index.apply]
    convert h.upsert id metadata using 1
    funext id'
    by_cases heq : id' = id <;> simp [rowsOf, Update.apply, heq]
  | delete id =>
    rw [Index.apply]
    convert h.delete id using 1
    funext id'
    by_cases heq : id' = id <;> simp [rowsOf, Update.apply, heq]

lemma Holds.foldl (records : Records) (h : Holds lib (rowsOf lib records) idx)
    (updates : List Update) : Holds lib (rowsOf lib (updates.foldl Update.apply records))
      (updates.foldl (Index.apply lib) idx) := by
  induction updates generalizing records idx with
  | nil => exact h
  | cons update updates ih => exact ih _ (h.apply update)

/-- Every run of updates keeps the index that of its records. -/
theorem holds_run (lib : Library) (updates : List Update) :
    Holds lib (rowsOf lib (recordsOf updates)) (run lib updates) :=
  Holds.foldl (fun _ => none) (holds_newIndex lib) updates

end Index

end GideonDB.Metadata
