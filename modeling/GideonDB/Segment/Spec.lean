/-
What a segment stores, as a partial map from keys to records.

`lookup` reads the record of a key with all its vectors.  A segment is well formed if its
ordinals and its records are two sides of one bijection and its index holds exactly the
ordinals in use; in a writable one the fields are moreover those of the declaration.  For a
prepared record a write then changes `lookup` at the key of the record and nowhere else.
-/
import GideonDB.Segment.Segment

namespace GideonDB.Segment

open Go GideonDB.Core GoMap List

/-! ### One named field -/

/-- The index of a field takes vectors of the declared dimension. -/
def NamedField.Fits (f : NamedField) : Prop :=
  ∀ idx, f.index = some idx → idx.dimension = f.config.dimension

variable {vector : Option FloatVector} {list : Option (List FloatVector)}

namespace NamedField

variable {f : NamedField} {ordinal : ℕ}

lemma fits_new (config : VectorField) : (new config).Fits := by
  intro idx h
  rw [new] at h
  split at h
  · cases h
    rfl
  · cases h

@[simp] lemma config_remove (f : NamedField) (ordinal : ℕ) :
    (f.remove ordinal).config = f.config := by
  rw [remove]
  split <;> rfl

lemma get_remove (f : NamedField) (ordinal ordinal' : ℕ) : (f.remove ordinal).dense.get ordinal' =
      (if ordinal' = ordinal then none else f.dense.get ordinal') ∧
    (f.remove ordinal).multi.get ordinal' =
      if ordinal' = ordinal then none else f.multi.get ordinal' := by
  rw [remove]
  split
  · rename_i h
    simp only [GoMap.has, Bool.and_eq_true, Bool.not_eq_true', Option.isSome_eq_false_iff,
      Option.isNone_iff_eq_none] at h
    by_cases heq : ordinal' = ordinal
    · simp [heq, h]
    · simp [heq]
  · exact ⟨get_delete _ _ _, get_delete _ _ _⟩

lemma vector_remove (f : NamedField) (ordinal ordinal' : ℕ) : (f.remove ordinal).vector ordinal' =
      if ordinal' = ordinal then none else f.vector ordinal' := by
  rw [vector, (f.get_remove ordinal ordinal').1, config_remove]
  split <;> rfl

lemma multiVector_remove (f : NamedField) (ordinal ordinal' : ℕ) :
    (f.remove ordinal).multiVector ordinal' =
      if ordinal' = ordinal then none else f.multiVector ordinal' := by
  rw [multiVector, (f.get_remove ordinal ordinal').2, config_remove]
  split <;> rfl

lemma Fits.remove (h : f.Fits) (ordinal : ℕ) : (f.remove ordinal).Fits := by
  intro idx hidx
  rw [config_remove]
  rw [NamedField.remove] at hidx
  split at hidx
  · exact h idx hidx
  · obtain ⟨old, hold, rfl⟩ := Option.map_eq_some_iff.1 hidx
    rw [← h old hold, VectorIndex.delete]
    split
    · rfl
    · split <;> rfl

/-- The vectors of a record that a field takes: of its kind and of its dimension. -/
structure Takes (config : VectorField) (vector : Option FloatVector)
    (list : Option (List FloatVector)) : Prop where
  dense : config.multiVector = false → ∀ v, vector = some v → v.length = config.dimension
  multi : config.multiVector = true → ∀ l, list = some l →
    (l.headD []).length = config.dimension

/-- What `put` leaves of a field under an ordinal. -/
structure Stored (f : NamedField) (ordinal : ℕ) (vector : Option FloatVector)
    (list : Option (List FloatVector)) (f' : NamedField) : Prop where
  config : f'.config = f.config
  fits : f'.Fits
  vector : ∀ ordinal', f'.vector ordinal' =
    if ordinal' = ordinal then
      if f.config.multiVector then none else vector.map (roundToDatatype f.config.datatype)
    else f.vector ordinal'
  multi : ∀ ordinal', f'.multiVector ordinal' =
    if ordinal' = ordinal then
      if f.config.multiVector then list.map (map (roundToDatatype f.config.datatype))
      else none
    else f.multiVector ordinal'

lemma Stored.indexVector {f' : NamedField} (h : Stored f ordinal vector list f') (v : FloatVector) :
    (v.length = f.config.dimension → (f'.indexVector ordinal v).2 = none) ∧
      Stored f ordinal vector list (f'.indexVector ordinal v).1 := by
  rw [NamedField.indexVector]
  cases hindex : f'.index with
  | none => exact ⟨fun _ => rfl, h⟩
  | some idx =>
    refine ⟨fun hlength => ?_, { h with fits := fun idx' hidx' => ?_ }⟩
    · have hdim : v.length = idx.dimension := by rw [hlength, h.fits idx hindex, h.config]
      simp [VectorIndex.upsert, hdim]
    · cases hidx'
      refine Eq.trans ?_ (h.fits idx hindex)
      dsimp only [VectorIndex.upsert]
      split <;> rfl

lemma Stored.remove (hfits : f.Fits) (hvector : f.config.multiVector = false → vector = none)
    (hlist : f.config.multiVector → list = none) :
    Stored f ordinal vector list (f.remove ordinal) where
  config := config_remove f ordinal
  fits := hfits.remove ordinal
  vector ordinal' := by
    rw [vector_remove]
    cases hkind : f.config.multiVector with
    | false => simp [hvector hkind]
    | true => rfl
  multi ordinal' := by
    rw [multiVector_remove]
    cases hkind : f.config.multiVector with
    | false => rfl
    | true => simp [hlist hkind]

lemma Stored.setMulti (hfits : f.Fits) (hkind : f.config.multiVector)
    (vector : Option FloatVector) (l : List FloatVector) :
    Stored f ordinal vector (some l) ((f.remove ordinal).setMulti ordinal l) where
  config := config_remove f ordinal
  fits := hfits.remove ordinal
  vector ordinal' := by
    rw [if_pos hkind]
    exact vector_remove f ordinal ordinal'
  multi ordinal' := by
    rw [multiVector, NamedField.setMulti, get_set, (f.get_remove ordinal ordinal').2, config_remove,
      if_pos hkind]
    split
    · simp only [Option.map_some, map_map, Function.comp_def, decode_encodeVector]
    · rfl

lemma Stored.setDense (hfits : f.Fits) (hkind : f.config.multiVector = false)
    (v : FloatVector) (list : Option (List FloatVector)) :
    Stored f ordinal (some v) list ((f.remove ordinal).setDense ordinal v) where
  config := config_remove f ordinal
  fits := hfits.remove ordinal
  vector ordinal' := by
    rw [NamedField.vector, NamedField.setDense, get_set, (f.get_remove ordinal ordinal').1,
      config_remove, hkind, if_neg Bool.false_ne_true]
    split
    · simp only [Option.map_some, decode_encodeVector]
    · rfl
  multi ordinal' := by
    rw [hkind, if_neg Bool.false_ne_true]
    exact multiVector_remove f ordinal ordinal'

/-- What a field stores does not depend on whether its index takes the vector. -/
lemma put_spec (hfits : f.Fits) (ordinal : ℕ) (vector : Option FloatVector)
    (list : Option (List FloatVector)) :
    (Takes f.config vector list → (f.put ordinal vector list).2 = none) ∧
      Stored f ordinal vector list (f.put ordinal vector list).1 := by
  rw [put.eq_def]
  cases hkind : f.config.multiVector with
  | true =>
    simp only [config_remove, hkind, if_true]
    cases list with
    | none => exact ⟨fun _ => rfl, Stored.remove hfits (by simp [hkind]) fun _ => rfl⟩
    | some l =>
      have hstored := (@Stored.setMulti f ordinal hfits hkind vector l).indexVector (l.headD [])
      exact ⟨fun h => hstored.1 (h.multi hkind l rfl), hstored.2⟩
  | false =>
    simp only [config_remove, hkind, Bool.false_eq_true, if_false]
    cases vector with
    | none => exact ⟨fun _ => rfl, Stored.remove hfits (fun _ => rfl) (by simp [hkind])⟩
    | some v =>
      have hstored := (@Stored.setDense f ordinal hfits hkind v list).indexVector v
      exact ⟨fun h => hstored.1 (h.dense hkind v rfl), hstored.2⟩

end NamedField

/-! ### The fields of a segment -/

/-- The fields are those that a collection declares. -/
structure Declares (config : CollectionConfig) (named : NamedFields) : Prop where
  declared : named.map (fun field => (field.1, field.2.config)) = config.vectors.toList
  fits : ∀ field ∈ named, field.2.Fits

/-- The vectors of a record that have the name of the field are put into it. -/
abbrev putField (ordinal : ℕ) (record : Record) (field : GoString × NamedField) :=
  field.2.put ordinal (record.vectors field.1) (record.multiVectors field.1)

/-- What `putNamed` leaves if no field fails. -/
def putAll (ordinal : ℕ) (record : Record) (named : NamedFields) : NamedFields :=
  named.map fun field =>
    (field.1, (field.2.put ordinal (record.vectors field.1) (record.multiVectors field.1)).1)

variable {field : GoString × NamedField}

namespace Declares

variable {config : CollectionConfig} {named : NamedFields} {record : Record} {ordinal : ℕ}

lemma new (config : CollectionConfig) : Declares config (Segment.new config).named where
  declared := by
    rw [Segment.new, map_map]
    exact map_id _
  fits field hmem := by
    obtain ⟨declared, -, rfl⟩ := mem_map.1 hmem
    exact NamedField.fits_new _

section

variable (h : Declares config named)

include h

lemma vectorField_of_mem (hmem : field ∈ named) :
    config.vectorField field.1 = some field.2.config := by
  refine mem_toList.1 ?_
  rw [← h.declared]
  exact mem_map_of_mem hmem

lemma lookup_of_vectorField {name : GoString} {field : VectorField}
    (hfield : config.vectorField name = some field) :
    ∃ f, named.lookup name = some f ∧ f.config = field := by
  rw [CollectionConfig.vectorField, ← lookup_toList, ← h.declared] at hfield
  have hlook := lookup_map_snd (fun _ f => NamedField.config f) named name
  exact Option.map_eq_some_iff.1 (hlook.symm.trans hfield)

lemma stored (record : Record) (ordinal : ℕ) (hmem : field ∈ named) :
    NamedField.Stored field.2 ordinal (record.vectors field.1) (record.multiVectors field.1)
      (putField ordinal record field).1 :=
  (NamedField.put_spec (h.fits field hmem) _ _ _).2

section

variable (hprep : Prepared config record)

include hprep

lemma takes (hmem : field ∈ named) :
    NamedField.Takes field.2.config (record.vectors field.1) (record.multiVectors field.1)  where
  dense _ v hv := by
    obtain ⟨declared, hdeclared, -, hlength, -⟩ := hprep.vectors field.1 v hv
    obtain rfl := Option.mem_unique (h.vectorField_of_mem hmem) hdeclared
    exact hlength
  multi _ l hl := by
    obtain ⟨declared, hdeclared, -, hne, hall⟩ := hprep.multiVectors field.1 l hl
    obtain rfl := Option.mem_unique (h.vectorField_of_mem hmem) hdeclared
    obtain ⟨v, rest, rfl⟩ := exists_cons_of_ne_nil hne
    exact (hall v mem_cons_self).1

lemma putNamed_eq (ordinal : ℕ) :
    putNamed ordinal record named = (putAll ordinal record named, none) := by
  have hput : ∀ field ∈ named, (putField ordinal record field).2 = none := fun field hmem =>
    (NamedField.put_spec (h.fits field hmem) _ _ _).1 (h.takes hprep hmem)
  clear h
  induction named with
  | nil => rfl
  | cons field named ih =>
    obtain ⟨name, f⟩ := field
    have hfirst := hput (name, f) mem_cons_self
    have hrest := ih (forall_mem_cons.1 hput).2
    rw [putNamed]
    split
    · rename_i heq
      rw [putField, heq] at hfirst
      cases hfirst
    · rename_i heq
      rw [hrest, putAll, putAll, map_cons, heq]

lemma attachNamed_putAll (ordinal : ℕ) :
    attachNamed (putAll ordinal record named) ordinal
      { record with vectors := fun _ => none, multiVectors := fun _ => none } = record := by
  have hlook : ∀ name, (putAll ordinal record named).lookup name =
      (named.lookup name).map fun f => (putField ordinal record (name, f)).1 :=
    lookup_map_snd (fun name f => (putField ordinal record (name, f)).1) named
  have hstored : ∀ name f, named.lookup name = some f →
      NamedField.Stored f ordinal (record.vectors name) (record.multiVectors name)
        (putField ordinal record (name, f)).1 :=
    fun name f hf => h.stored record ordinal (mem_of_lookup hf)
  have hvecs : ∀ name, ((putAll ordinal record named).lookup name).bind (·.vector ordinal) =
      record.vectors name := by
    intro name
    rw [hlook]
    cases hv : record.vectors name with
    | none =>
      cases hf : named.lookup name with
      | none => rfl
      | some f =>
        have hs := (hstored name f hf).vector ordinal
        rw [hv] at hs
        simpa using hs
    | some v =>
      obtain ⟨field, hfield, hkind, -, hround⟩ := hprep.vectors name v hv
      obtain ⟨f, hf, rfl⟩ := h.lookup_of_vectorField hfield
      have hs := (hstored name f hf).vector ordinal
      rw [hv, hkind, Option.map_some, hround] at hs
      simpa [hf] using hs
  have hmulti : ∀ name, ((putAll ordinal record named).lookup name).bind
      (·.multiVector ordinal) = record.multiVectors name := by
    intro name
    rw [hlook]
    cases hl : record.multiVectors name with
    | none =>
      cases hf : named.lookup name with
      | none => rfl
      | some f =>
        have hs := (hstored name f hf).multi ordinal
        rw [hl] at hs
        simpa using hs
    | some l =>
      obtain ⟨field, hfield, hkind, -, hall⟩ := hprep.multiVectors name l hl
      obtain ⟨f, hf, rfl⟩ := h.lookup_of_vectorField hfield
      have hround : l.map (roundToDatatype f.config.datatype) = l :=
        (map_congr_left fun v hv => (hall v hv).2).trans (map_id l)
      have hs := (hstored name f hf).multi ordinal
      rw [hl, hkind, Option.map_some, hround] at hs
      simpa [hf] using hs
  rw [attachNamed]
  simp only [hvecs, hmulti, Option.or_none]

end

lemma map (g : GoString → NamedField → NamedField)
    (hg : ∀ field ∈ named, (g field.1 field.2).config = field.2.config ∧ (g field.1 field.2).Fits) :
    Declares config (named.map fun field => (field.1, g field.1 field.2)) where
  declared := by
    rw [map_map, ← h.declared]
    refine map_congr_left fun field hmem => ?_
    rw [Function.comp_apply, (hg field hmem).1]
  fits field hmem := by
    obtain ⟨old, hold, rfl⟩ := mem_map.1 hmem
    exact (hg old hold).2

lemma putAll (record : Record) (ordinal : ℕ) : Declares config (putAll ordinal record named) :=
  h.map (fun name f => (putField ordinal record (name, f)).1) fun _ hmem =>
    ⟨(h.stored record ordinal hmem).config, (h.stored record ordinal hmem).fits⟩

/-- Fields that have failed are still those of the declaration. -/
lemma putNamed (record : Record) (ordinal : ℕ) :
    Declares config (putNamed ordinal record named).1 := by
  obtain ⟨hdeclared, hfits⟩ := h
  suffices hput : (Segment.putNamed ordinal record named).1.map
      (fun field => (field.1, field.2.config)) = named.map (fun field => (field.1, field.2.config)) ∧
        ∀ field ∈ (Segment.putNamed ordinal record named).1, field.2.Fits from
    ⟨hput.1.trans hdeclared, hput.2⟩
  clear hdeclared
  induction named with
  | nil => exact ⟨rfl, hfits⟩
  | cons field named ih =>
    obtain ⟨hfirst, hrest⟩ := forall_mem_cons.1 hfits
    have hstored := (NamedField.put_spec hfirst ordinal (record.vectors field.1)
      (record.multiVectors field.1)).2
    rw [Segment.putNamed]
    split <;> rename_i heq <;> rw [heq] at hstored
    · exact ⟨congrArg₂ cons (congrArg _ hstored.config) rfl,
        forall_mem_cons.2 ⟨hstored.fits, hrest⟩⟩
    · exact ⟨congrArg₂ cons (congrArg _ hstored.config) (ih hrest).1,
        forall_mem_cons.2 ⟨hstored.fits, (ih hrest).2⟩⟩

lemma removeNamed (ordinal : ℕ) : Declares config (removeNamed ordinal named) :=
  h.map (fun _ f => f.remove ordinal) fun field hmem =>
    ⟨field.2.config_remove ordinal, (h.fits field hmem).remove ordinal⟩

end

end Declares

variable {named : NamedFields} {ordinal : ℕ}

lemma attachNamed_map (g : GoString → NamedField → NamedField)
    (hg : ∀ field ∈ named, (g field.1 field.2).vector ordinal = field.2.vector ordinal ∧
      (g field.1 field.2).multiVector ordinal = field.2.multiVector ordinal) (record : Record) :
    attachNamed (named.map fun field => (field.1, g field.1 field.2)) ordinal record =
      attachNamed named ordinal record := by
  have hlook := lookup_map_snd g named
  rw [attachNamed, attachNamed]
  congr 1 <;> funext name <;> rw [hlook] <;> cases hf : named.lookup name with
  | none => rfl
  | some f =>
    have hkeep := hg _ (mem_of_lookup hf)
    simp only [Option.map_some, Option.bind_some, hkeep.1, hkeep.2]

variable {record : Record} {ordinal' : ℕ}

lemma attachNamed_putAll_of_ne {config : CollectionConfig} (h : Declares config named)
    (hne : ordinal' ≠ ordinal) (record record' : Record) :
    attachNamed (putAll ordinal record named) ordinal' record' =
      attachNamed named ordinal' record' := by
  refine attachNamed_map (fun name f => (putField ordinal record (name, f)).1)
    (fun field hmem => ?_) record'
  have hstored := h.stored record ordinal hmem
  exact ⟨(hstored.vector ordinal').trans (if_neg hne), (hstored.multi ordinal').trans (if_neg hne)⟩

lemma attachNamed_removeNamed_of_ne (hne : ordinal' ≠ ordinal) (record : Record) :
    attachNamed (removeNamed ordinal named) ordinal' record = attachNamed named ordinal' record :=
  attachNamed_map (fun _ f => f.remove ordinal) (fun field _ =>
    ⟨(field.2.vector_remove ordinal ordinal').trans (if_neg hne),
      (field.2.multiVector_remove ordinal ordinal').trans (if_neg hne)⟩) record

/-! ### The records of a segment -/

/-- The record of a key with all its vectors. -/
def lookup (s : Segment) (key : GoString) : Option Record :=
  (s.ordinals.get key).map fun ordinal => s.read ordinal (s.records.getD ordinal default)

/-- A record, or `core.ErrNotFound`. -/
def found : Option Record → Except Error Record
  | some record => .ok record
  | none => .error .notFound

lemma get_eq (s : Segment) (ns id : GoString) : s.get ns id = found (s.lookup (recordKey ns id)) := by
  rw [get, lookup]
  cases s.ordinals.get (recordKey ns id) <;> rfl

lemma has_eq (s : Segment) (ns id : GoString) :
    s.has ns id = (s.lookup (recordKey ns id)).isSome := by
  rw [has, GoMap.has, lookup, Option.isSome_map]

@[simp] lemma key_read (s : Segment) (ordinal : ℕ) (record : Record) :
    (s.read ordinal record).key = record.key := by
  rw [read, fetchVector.eq_def]
  split
  · split <;> rfl
  · rfl

/-- The ordinals and the records are two sides of one bijection, and the index holds the
vectors of the records. -/
structure WellFormed (s : Segment) : Prop where
  record_of_ordinal : ∀ {key ordinal}, s.ordinals.get key = some ordinal →
    ∃ record, s.records.get ordinal = some record ∧ record.key = key
  ordinal_of_record : ∀ {ordinal record}, s.records.get ordinal = some record →
    s.ordinals.get record.key = some ordinal
  indexed : ∀ ordinal, s.index.vectors.get ordinal =
    (s.records.get ordinal).map fun record => (fetchVector s.vectorAt ordinal record).vector

variable {key : GoString}

namespace WellFormed

variable {s : Segment} (h : s.WellFormed)

include h

lemma lookup_eq_some :
    s.lookup key = some record ↔ ∃ ordinal stored, s.records.get ordinal = some stored ∧
      stored.key = key ∧ s.read ordinal stored = record := by
  rw [lookup, Option.map_eq_some_iff]
  constructor
  · rintro ⟨ordinal, hord, rfl⟩
    obtain ⟨stored, hstored, hkey⟩ := h.record_of_ordinal hord
    exact ⟨ordinal, stored, hstored, hkey, by rw [GoMap.getD, hstored, Option.getD_some]⟩
  · rintro ⟨ordinal, stored, hstored, rfl, rfl⟩
    exact ⟨ordinal, h.ordinal_of_record hstored, by rw [GoMap.getD, hstored, Option.getD_some]⟩

lemma key_of_lookup (hlook : s.lookup key = some record) : record.key = key := by
  obtain ⟨ordinal, stored, -, rfl, rfl⟩ := h.lookup_eq_some.1 hlook
  exact key_read s ordinal stored

lemma mem_list : record ∈ s.list ↔ s.lookup record.key = some record := by
  rw [list, mem_sortRecords, mem_map, h.lookup_eq_some]
  constructor
  · rintro ⟨⟨ordinal, stored⟩, hmem, rfl⟩
    have hstored := mem_toList.1 hmem
    rw [GoMap.getD, h.ordinal_of_record hstored, Option.getD_some, key_read]
    exact ⟨ordinal, stored, hstored, rfl, rfl⟩
  · rintro ⟨ordinal, stored, hstored, -, hread⟩
    refine ⟨(ordinal, stored), mem_toList.2 hstored, ?_⟩
    rw [GoMap.getD, h.ordinal_of_record hstored, Option.getD_some, hread]

lemma nodup_keys : (s.records.toList.map fun entry => entry.2.key).Nodup := by
  refine List.Nodup.map_on ?_ (List.Nodup.of_map Prod.fst (s.records.map_fst_toList ▸
    s.records.nodup_keys))
  rintro ⟨ordinal, stored⟩ hmem ⟨ordinal', stored'⟩ hmem' hkey
  have hstored := mem_toList.1 hmem
  have hstored' := mem_toList.1 hmem'
  have hkey : stored.key = stored'.key := hkey
  have hord := h.ordinal_of_record hstored
  rw [hkey, h.ordinal_of_record hstored'] at hord
  cases hord
  rw [hstored] at hstored'
  rw [Option.some.inj hstored']

lemma nodup_list : (s.list.map Record.key).Nodup := by
  rw [list, ((perm_sortRecords _).map Record.key).nodup_iff, map_map]
  have hkeys : (Record.key ∘ fun entry : ℕ × Record =>
      s.read (s.ordinals.getD entry.2.key 0) entry.2) = fun entry => entry.2.key :=
    funext fun entry => key_read _ _ _
  rw [hkeys]
  exact h.nodup_keys

lemma nodup_entriesOf : ((entriesOf s.list).map Prod.fst).Nodup := by
  rw [map_fst_entriesOf]
  exact h.nodup_list

lemma lookup_entriesOf (key : GoString) : (entriesOf s.list).lookup key = s.lookup key := by
  ext record
  rw [lookup_entriesOf_eq_some h.nodup_list]
  constructor
  · rintro ⟨hmem, rfl⟩
    exact h.mem_list.1 hmem
  · intro hlook
    have hkey := h.key_of_lookup hlook
    exact ⟨h.mem_list.2 (hkey ▸ hlook), hkey⟩

lemma has_index (ordinal : ℕ) : s.index.vectors.has ordinal = s.records.has ordinal := by
  rw [GoMap.has, GoMap.has, h.indexed, Option.isSome_map]

lemma len_eq : s.len = s.list.length := by
  rw [list, (perm_sortRecords _).length_eq, length_map, length_toList]
  exact size_eq_of_has h.has_index

end WellFormed

/-! ### Writes -/

/-- The metadata that the filter index of a segment is about. -/
def metadataOf (records : GoMap ℕ Record) : Metadata.Index.Records := fun ordinal =>
  (records.get ordinal).map Record.metadata

lemma metadataOf_set (records : GoMap ℕ Record) (ordinal : ℕ) (record : Record) :
    metadataOf (records.set ordinal record) =
      Metadata.Index.Update.apply (metadataOf records) (.upsert ordinal record.metadata) := by
  funext ordinal'
  simp only [metadataOf, get_set, Metadata.Index.Update.apply]
  split <;> rfl

lemma metadataOf_delete (records : GoMap ℕ Record) (ordinal : ℕ) :
    metadataOf (records.delete ordinal) =
      Metadata.Index.Update.apply (metadataOf records) (.delete ordinal) := by
  funext ordinal'
  simp only [metadataOf, get_delete, Metadata.Index.Update.apply]
  split <;> rfl

/-- The part of a segment for a collection on which the result of a write depends. -/
structure Shaped (config : CollectionConfig) (s : Segment) : Prop where
  mutable : s.readOnly = false
  dimension : s.index.dimension = config.dimension
  declares : Declares config s.named

namespace Shaped

variable {config : CollectionConfig} {s : Segment}

lemma new (config : CollectionConfig) : Shaped config (new config) :=
  ⟨rfl, rfl, .new config⟩

lemma assignOrdinal (h : Shaped config s) (key : GoString) :
    Shaped config (s.assignOrdinal key).2 := by
  rw [Segment.assignOrdinal]
  split
  · exact h
  · exact ⟨h.mutable, h.dimension, h.declares⟩

/-- `Upsert` keeps the shape, also where it fails. -/
lemma upsert (h : Shaped config s) (lib : Metadata.Library) (record : Record) :
    Shaped config (s.upsert lib record).1 := by
  have hasg := h.assignOrdinal record.key
  have hput := hasg.declares.putNamed record (s.assignOrdinal record.key).1
  rw [Segment.upsert]
  split
  · exact h
  split
  · exact h
  dsimp only [VectorIndex.upsert]
  split_ifs
  · exact hasg
  dsimp only
  split <;> rename_i heq <;> rw [heq] at hput <;> exact ⟨hasg.mutable, hasg.dimension, hput⟩

lemma upsert_eq_none (h : Shaped config s) (lib : Metadata.Library) {record : Record}
    (hprep : Prepared config record) (hid : record.id ≠ [])
    (hlength : record.vector.length = config.dimension) : (s.upsert lib record).2 = none := by
  have hasg := h.assignOrdinal record.key
  have hindex : ¬ record.vector.length ≠ (s.assignOrdinal record.key).2.index.dimension := by
    rw [hasg.dimension, not_not]
    exact hlength
  rw [Segment.upsert, if_neg (by simp [h.mutable]), if_neg hid]
  simp only [VectorIndex.upsert, if_neg hindex, hasg.declares.putNamed_eq hprep]

lemma delete (h : Shaped config s) (lib : Metadata.Library) (ns id : GoString) :
    Shaped config (s.delete lib ns id).1 := by
  rw [Segment.delete]
  split
  · exact h
  split
  · exact h
  dsimp only [VectorIndex.delete]
  split_ifs
  · exact ⟨h.mutable, h.dimension, h.declares.removeNamed _⟩
  · exact ⟨h.mutable, h.dimension, h.declares.removeNamed _⟩
  · exact h

end Shaped

/-- A segment that takes writes for a collection. -/
structure Writable (lib : Metadata.Library) (config : CollectionConfig) (s : Segment) : Prop
    extends WellFormed s, Shaped config s where
  fresh : ∀ {ordinal record}, s.records.get ordinal = some record → ordinal < s.nextID
  vectorAt : s.vectorAt = none
  filters : Metadata.Index.Holds lib (Metadata.Index.rowsOf lib (metadataOf s.records)) s.metadata

lemma writable_new (lib : Metadata.Library) (config : CollectionConfig) :
    Writable lib config (new config) where
  record_of_ordinal h := by cases h
  ordinal_of_record h := by cases h
  indexed _ := rfl
  toShaped := .new config
  fresh h := by cases h
  vectorAt := rfl
  filters := Metadata.Index.holds_newIndex lib

lemma lookup_new (config : CollectionConfig) (key : GoString) : (new config).lookup key = none := rfl

/-- An ordinal for a key: the one it has, or one that no key uses. -/
def Free (s : Segment) (key : GoString) (ordinal : ℕ) : Prop :=
  s.ordinals.get key = some ordinal ∨
    (s.ordinals.get key = none ∧ s.records.get ordinal = none)

/-- Without vectors outside the records, only the named vectors are attached. -/
lemma read_of_vectorAt {s : Segment} (h : s.vectorAt = none) (ordinal : ℕ) (record : Record) :
    s.read ordinal record = attachNamed s.named ordinal record := by
  rw [read, h]
  rfl

namespace Writable

variable {lib : Metadata.Library} {config : CollectionConfig} {s : Segment} {record : Record}

lemma assignOrdinal_snd (h : Writable lib config s) (key : GoString) :
    Writable lib config (s.assignOrdinal key).2 ∧
      (s.assignOrdinal key).2 = { s with nextID := (s.assignOrdinal key).2.nextID } := by
  rw [assignOrdinal]
  split
  · exact ⟨h, rfl⟩
  · exact ⟨{ h with fresh := fun hget => Nat.lt_succ_of_lt (h.fresh hget) }, rfl⟩

/-- The ordinal given out is below the counter and is that of the key or unused. -/
lemma assignOrdinal_fst (h : Writable lib config s) (key : GoString) :
    (s.assignOrdinal key).1 < (s.assignOrdinal key).2.nextID ∧
      s.Free key (s.assignOrdinal key).1 := by
  rw [assignOrdinal]
  cases hget : s.ordinals.get key with
  | some ordinal =>
    obtain ⟨stored, hstored, -⟩ := h.record_of_ordinal hget
    exact ⟨h.fresh hstored, .inl hget⟩
  | none =>
    refine ⟨Nat.lt_succ_self _, .inr ⟨hget, ?_⟩⟩
    cases hrec : s.records.get s.nextID with
    | none => rfl
    | some stored => exact absurd (h.fresh hrec) (lt_irrefl _)

lemma ne_of_free (h : Writable lib config s) {key' : GoString} (hfree : s.Free key ordinal)
    (hget : s.ordinals.get key' = some ordinal') (hne : key' ≠ key) : ordinal' ≠ ordinal := by
  rintro rfl
  obtain ⟨stored, hstored, rfl⟩ := h.record_of_ordinal hget
  rcases hfree with hown | ⟨-, hnone⟩
  · obtain ⟨stored', hstored', rfl⟩ := h.record_of_ordinal hown
    rw [hstored] at hstored'
    exact hne (congrArg Record.key (Option.some.inj hstored'))
  · rw [hstored] at hnone
    cases hnone

/-- What a write leaves of a segment: it still takes writes, and its records are the given
ones. -/
structure Leaves (lib : Metadata.Library) (config : CollectionConfig) (s' : Segment)
    (records : GoString → Option Record) : Prop where
  writable : Writable lib config s'
  lookup : ∀ key, s'.lookup key = records key

/-- The segment `s'` is `s` with another entry, or none, for a key and its ordinal. -/
structure Replaced (s : Segment) (key : GoString) (ordinal : ℕ) (entry : Option Record)
    (s' : Segment) : Prop where
  ordinals : ∀ key', s'.ordinals.get key' =
    if key' = key then entry.map fun _ => ordinal else s.ordinals.get key'
  records : ∀ ordinal', s'.records.get ordinal' =
    if ordinal' = ordinal then entry else s.records.get ordinal'
  vectors : ∀ ordinal', s'.index.vectors.get ordinal' =
    if ordinal' = ordinal then entry.map Record.vector else s.index.vectors.get ordinal'
  named : ∀ ordinal' ≠ ordinal, ∀ record,
    attachNamed s'.named ordinal' record = attachNamed s.named ordinal' record
  fixed : s'.nextID = s.nextID ∧ s'.readOnly = s.readOnly ∧ s'.vectorAt = s.vectorAt ∧
    s'.index.dimension = s.index.dimension

section

variable (h : Writable lib config s)

include h

lemma replaced (hfree : s.Free key ordinal) {entry live : Option Record}
    (hentry : ∀ record ∈ entry, record.key = key ∧ ordinal < s.nextID) {s' : Segment}
    (hs' : Replaced s key ordinal entry s') (hdeclares : Declares config s'.named)
    (hfilters : Metadata.Index.Holds lib (Metadata.Index.rowsOf lib (metadataOf s'.records))
      s'.metadata)
    (hlive : entry.map (attachNamed s'.named ordinal) = live) :
    Leaves lib config s' fun key' => if key' = key then live else s.lookup key' := by
  obtain ⟨hnext, hmutable, hvectorAt, hdimension⟩ := hs'.fixed
  rw [h.vectorAt] at hvectorAt
  refine ⟨⟨⟨fun {key' ordinal'} hget => ?_, fun {ordinal' stored} hget => ?_, fun ordinal' => ?_⟩,
    ⟨hmutable.trans h.mutable, hdimension.trans h.dimension, hdeclares⟩,
    fun {ordinal' stored} hget => ?_, hvectorAt, hfilters⟩, fun key' => ?_⟩
  · rw [hs'.ordinals] at hget
    split at hget
    · obtain ⟨record, hrecord, rfl⟩ := Option.map_eq_some_iff.1 hget
      refine ⟨record, by rw [hs'.records, if_pos rfl, hrecord], ?_⟩
      simp [*]
    · rw [hs'.records, if_neg (h.ne_of_free hfree hget ‹_›)]
      exact h.record_of_ordinal hget
  · rw [hs'.records] at hget
    split_ifs at hget with hne
    · rw [hs'.ordinals, if_pos (hentry stored hget).1, hget]
      simp [*]
    · have hget := h.ordinal_of_record hget
      rw [hs'.ordinals, if_neg, hget]
      intro hkey
      rw [hkey] at hget
      rcases hfree with hown | ⟨hnone, -⟩
      · exact hne (Option.mem_unique hget hown)
      · cases hnone.symm.trans hget
  · rw [hs'.vectors, hs'.records, hvectorAt, h.indexed, h.vectorAt]
    split <;> rfl
  · rw [hs'.records] at hget
    rw [hnext]
    split_ifs at hget with heq
    · exact heq ▸ (hentry stored hget).2
    · exact h.fresh hget
  · rw [lookup, hs'.ordinals]
    split_ifs with hne
    · rw [← hlive]
      cases entry with
      | none => rfl
      | some record => simp [GoMap.getD, hs'.records, read_of_vectorAt hvectorAt]
    · rw [lookup]
      cases hget : s.ordinals.get key' with
      | none => rfl
      | some ordinal' =>
        have hne := h.ne_of_free hfree hget hne
        rw [Option.map_some, Option.map_some, read_of_vectorAt hvectorAt,
          read_of_vectorAt h.vectorAt, hs'.named ordinal' hne, GoMap.getD, hs'.records, if_neg hne,
          GoMap.getD]

/-- Storing a prepared record changes the record of its key. -/
lemma store (hprep : Prepared config record) (hfresh : ordinal < s.nextID)
    (hfree : s.Free record.key ordinal) :
    Leaves lib config (Segment.store lib { s with
        index := { s.index with vectors := s.index.vectors.set ordinal record.vector }
        named := putAll ordinal record s.named } ordinal record)
      fun key => if key = record.key then some record else s.lookup key := by
  have hfilt := h.filters.apply (.upsert ordinal record.metadata)
  rw [← metadataOf_set s.records ordinal
    { record with vectors := fun _ => none, multiVectors := fun _ => none }] at hfilt
  refine h.replaced hfree (fun stored hstored => ⟨?_, hfresh⟩) ⟨get_set _ _ _, get_set _ _ _,
    get_set _ _ _, fun ordinal' hne => attachNamed_putAll_of_ne h.declares hne _,
    rfl, rfl, rfl, rfl⟩ (h.declares.putAll record ordinal) hfilt
    (congrArg some (h.declares.attachNamed_putAll hprep ordinal))
  cases hstored
  rfl

/-- `Upsert` of a prepared record fails on an empty id or a wrong dimension only, and then
changes no record; otherwise it changes the record of the key. -/
lemma upsert (hprep : Prepared config record) :
    ((s.upsert lib record).2 = none ↔ record.id ≠ [] ∧ record.vector.length = config.dimension) ∧
    Leaves lib config (s.upsert lib record).1 fun key =>
      if (s.upsert lib record).2 = none ∧ key = record.key then some record else s.lookup key := by
  obtain ⟨hasg, hassigned_eq⟩ := h.assignOrdinal_snd record.key
  have hlook : ∀ key, (s.assignOrdinal record.key).2.lookup key = s.lookup key := by
    intro key
    rw [hassigned_eq]
    rfl
  rw [Segment.upsert, if_neg (by rw [h.mutable]; exact Bool.false_ne_true)]
  by_cases hid : record.id = []
  · rw [if_pos hid]
    exact ⟨by simp [hid], h, fun key => by simp⟩
  rw [if_neg hid]
  by_cases hlength : record.vector.length = config.dimension
  · obtain ⟨hfresh, hfree⟩ := h.assignOrdinal_fst record.key
    have hfree : (s.assignOrdinal record.key).2.Free record.key (s.assignOrdinal record.key).1 := by
      rw [hassigned_eq]
      exact hfree
    have hindex : ¬ record.vector.length ≠ (s.assignOrdinal record.key).2.index.dimension := by
      rw [hasg.dimension, not_not]
      exact hlength
    simp only [VectorIndex.upsert, if_neg hindex, hasg.declares.putNamed_eq hprep]
    have hstored := hasg.store hprep hfresh hfree
    refine ⟨by simp [hid, hlength], hstored.writable, fun key => ?_⟩
    rw [hstored.lookup, hlook]
    simp
  · have hindex : record.vector.length ≠ (s.assignOrdinal record.key).2.index.dimension := by
      rw [hasg.dimension]
      exact hlength
    simp only [VectorIndex.upsert, if_pos hindex]
    exact ⟨by simp [hlength], hasg, fun key => by simp [hlook]⟩

lemma forget (hget : s.ordinals.get key = some ordinal) :
    Leaves lib config (Segment.forget lib
        { s with index := { s.index with vectors := s.index.vectors.delete ordinal } } ordinal key)
      fun key' => if key' = key then none else s.lookup key' := by
  have hfilt := h.filters.apply (.delete ordinal)
  rw [← metadataOf_delete] at hfilt
  exact h.replaced (.inl hget) (by simp) ⟨get_delete _ _, get_delete _ _, get_delete _ _,
    fun ordinal' hne => attachNamed_removeNamed_of_ne hne, rfl, rfl, rfl, rfl⟩
    (h.declares.removeNamed ordinal) hfilt rfl

lemma delete (ns id : GoString) : (s.delete lib ns id).2 =
      (if (s.lookup (recordKey ns id)).isSome then none else some .notFound) ∧
    Leaves lib config (s.delete lib ns id).1 fun key =>
      if key = recordKey ns id then none else s.lookup key := by
  rw [Segment.delete, if_neg (by rw [h.mutable]; exact Bool.false_ne_true)]
  cases hget : s.ordinals.get (recordKey ns id) with
  | none =>
    have hlook : s.lookup (recordKey ns id) = none := by rw [lookup, hget]; rfl
    refine ⟨by rw [hlook]; rfl, h, fun key => ?_⟩
    by_cases hkey : key = recordKey ns id
    · rw [if_pos hkey, hkey]
      exact hlook
    · rw [if_neg hkey]
  | some ordinal =>
    obtain ⟨stored, hstored, -⟩ := h.record_of_ordinal hget
    have hhas : s.index.vectors.has ordinal := by
      rw [h.has_index, GoMap.has, hstored]
      rfl
    simp only [VectorIndex.delete, if_pos hhas]
    exact ⟨by simp [lookup, hget], h.forget hget⟩

end

end Writable

end GideonDB.Segment
