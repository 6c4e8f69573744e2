/-
Layers over a key-value map.

A store that does not change its base in place keeps a layer over it: for some keys a new
value, for some keys their deletion, and nothing for the others.  Layers compose, and a
stack of layers is read from the newest down.

As data a layer is a list of entries and a list of tombstones.  It is laid over a map either
by deleting the tombstones and then writing the entries, or the other way round; if no key is
on both lists the two are the same.
-/
import Mathlib.Data.List.Induction
import GideonDB.Go.Map

namespace GideonDB.Store

open Go GoMap List

/-- What a layer does to each key: nothing, a deletion (`some none`), or a new value. -/
abbrev Layer (K V : Type*) := K → Option (Option V)

namespace Layer

variable {K V : Type*}

/-- Reading through a layer. -/
def onto (layer : Layer K V) (base : K → Option V) : K → Option V := fun k =>
  (layer k).getD (base k)

/-- The newer layer on top of the older one. -/
def comp (newer older : Layer K V) : Layer K V := fun k => (newer k).or (older k)

/-- The layers of a list, the oldest first, as one. -/
def stack (layers : List (Layer K V)) : Layer K V :=
  layers.foldl (fun below layer => layer.comp below) fun _ => none

variable {k : K} {v : V}

lemma onto_none_eq_some {layer : Layer K V} :
    layer.onto (fun _ => none) k = some v ↔ layer k = some (some v) := by
  rw [onto]
  cases layer k with
  | none => simp
  | some value => simp

lemma onto_comp (newer older : Layer K V) (base : K → Option V) :
    (newer.comp older).onto base = newer.onto (older.onto base) := by
  funext k
  simp only [onto, comp]
  cases newer k <;> rfl

lemma comp_assoc (a b c : Layer K V) : (a.comp b).comp c = a.comp (b.comp c) := by
  funext k
  exact Option.or_assoc

@[simp] lemma comp_empty (layer : Layer K V) : layer.comp (fun _ => none) = layer := by
  funext k
  exact Option.or_none

@[simp] lemma empty_comp (layer : Layer K V) : comp (fun _ => none) layer = layer := by
  funext k
  exact Option.none_or

lemma foldl_comp (layers : List (Layer K V)) (below : Layer K V) :
    layers.foldl (fun below layer => layer.comp below) below = (stack layers).comp below := by
  induction layers generalizing below with
  | nil => rfl
  | cons layer layers ih =>
    have hcons : stack (layer :: layers) = (stack layers).comp layer := by
      change layers.foldl (fun below layer => layer.comp below) (layer.comp fun _ => none) = _
      rw [ih, comp_empty]
    rw [foldl_cons, ih, hcons, comp_assoc]

@[simp] lemma stack_nil : stack ([] : List (Layer K V)) = fun _ => none := rfl

lemma stack_append (older newer : List (Layer K V)) :
    stack (older ++ newer) = (stack newer).comp (stack older) := by
  rw [stack, foldl_append, foldl_comp]
  rfl

@[simp] lemma stack_singleton (layer : Layer K V) : stack [layer] = layer := comp_empty layer

lemma stack_replace (before inputs after : List (Layer K V)) :
    stack (before ++ stack inputs :: after) = stack (before ++ inputs ++ after) := by
  rw [← singleton_append, ← append_assoc, stack_append, stack_append, stack_singleton,
    stack_append (before ++ inputs), stack_append before]

lemma exists_of_stack {layers : List (Layer K V)} {v : Option V}
    (h : stack layers k = some v) : ∃ i : ℕ, ∃ layer : Layer K V, layers[i]? = some layer ∧
      layer k = some v ∧ ∀ j > i, ∀ newer : Layer K V, layers[j]? = some newer → newer k = none := by
  induction layers using reverseRecOn with
  | nil => cases h
  | append_singleton layers layer ih =>
    rw [stack_append, stack_singleton, comp, Option.or_eq_some_iff] at h
    rcases h with h | ⟨hnone, h⟩
    · refine ⟨layers.length, layer, getElem?_concat_length, h, fun j hj newer hnewer => ?_⟩
      rw [getElem?_eq_none (by rw [length_append]; exact hj)] at hnewer
      cases hnewer
    · obtain ⟨i, layer', hget, h, hall⟩ := ih h
      obtain ⟨hi, -⟩ := List.getElem?_eq_some_iff.1 hget
      refine ⟨i, layer', by rwa [getElem?_append_left hi], h, fun j hj newer hnewer => ?_⟩
      rw [getElem?_append] at hnewer
      split at hnewer
      · exact hall j hj newer hnewer
      · rwa [mem_singleton.1 (mem_of_getElem? hnewer)]

/-- Replacing the values of a layer. -/
def mapValues {W : Type*} (f : V → W) (layer : Layer K V) : Layer K W := fun k =>
  (layer k).map (Option.map f)

lemma stack_mapValues {W : Type*} (f : V → W) (layers : List (Layer K V)) :
    stack (layers.map (mapValues f)) = mapValues f (stack layers) := by
  induction layers using reverseRecOn with
  | nil => rfl
  | append_singleton layers layer ih =>
    funext k
    rw [map_append, map_singleton, stack_append, stack_append, ih, stack_singleton,
      stack_singleton]
    simp only [comp, mapValues]
    cases layer k <;> rfl

lemma onto_mapValues {W : Type*} (f : V → W) (layer : Layer K V) (k : K) :
    (mapValues f layer).onto (fun _ => none) k = (layer.onto (fun _ => none) k).map f := by
  simp only [onto, mapValues]
  cases layer k <;> rfl

/-! ### Layers as data -/

/-- Entries and tombstones; an entry wins over a tombstone. -/
def ofLists [BEq K] (entries : List (K × V)) (tombstones : List K) : Layer K V :=
  fun k => match entries.lookup k with
    | some v => some (some v)
    | none => if tombstones.contains k then some none else none

/-- Written and deleted keys as maps. -/
def ofMaps [DecidableEq K] (written : GoMap K V) (deleted : GoMap K Unit) : Layer K V :=
  fun k => match written.get k with
    | some v => some (some v)
    | none => if deleted.has k then some none else none

variable {entries : List (K × V)} {tombstones : List K}

lemma ofLists_eq_some_some [BEq K] :
    ofLists entries tombstones k = some (some v) ↔ entries.lookup k = some v := by
  rw [ofLists]
  cases entries.lookup k with
  | some v' => simp
  | none => cases tombstones.contains k <;> simp

variable {written : GoMap K V} {deleted : GoMap K Unit}

lemma ofMaps_eq_some_some [DecidableEq K] :
    ofMaps written deleted k = some (some v) ↔ written.get k = some v := by
  rw [ofMaps]
  cases written.get k with
  | some v' => simp
  | none => cases deleted.has k <;> simp

lemma ofMaps_eq_some_none [DecidableEq K] (hapart : ∀ k, deleted.has k → written.get k = none) :
    ofMaps written deleted k = some none ↔ deleted.has k := by
  rw [ofMaps]
  cases hwrit : written.get k with
  | some v =>
    have hdel : ¬ deleted.has k = true := fun h => by
      rw [hapart k h] at hwrit
      cases hwrit
    simpa using hdel
  | none => cases deleted.has k <;> simp

lemma onto_ofMaps_none [DecidableEq K] (written : GoMap K V) (deleted : GoMap K Unit) (k : K) :
    (ofMaps written deleted).onto (fun _ => none) k = written.get k := by
  simp only [onto, ofMaps]
  cases written.get k with
  | some v => rfl
  | none => cases deleted.has k <;> rfl

section Data

variable [DecidableEq K]

/-- Deleting the tombstones, then writing the entries. -/
def overlay (m : GoMap K V) (tombstones : List K) (entries : List (K × V)) : GoMap K V :=
  (m.deleteAll tombstones).setAll entries

variable [BEq K] [LawfulBEq K]

lemma get_overlay (m : GoMap K V) (tombstones : List K) (hnodup : (entries.map Prod.fst).Nodup)
    (k : K) : (overlay m tombstones entries).get k = (ofLists entries tombstones).onto m.get k := by
  rw [overlay, get_setAll _ hnodup, get_deleteAll, onto, ofLists]
  cases entries.lookup k with
  | some v => rfl
  | none => by_cases h : k ∈ tombstones <;> simp [h]

/-- Writing the entries, then deleting the tombstones: with no key on both lists this is
reading through the layer. -/
lemma get_write_delete (m : GoMap K V) (hnodup : (entries.map Prod.fst).Nodup)
    (hdisj : ∀ k ∈ tombstones, k ∉ entries.map Prod.fst) :
    ((m.setAll entries).deleteAll tombstones).get = (ofLists entries tombstones).onto m.get := by
  funext k
  rw [get_deleteAll, get_setAll _ hnodup, onto, ofLists]
  by_cases htomb : k ∈ tombstones
  · rw [lookup_eq_none.2 (hdisj k htomb)]
    simp [htomb]
  · cases entries.lookup k <;> simp [htomb]

/-- Writing the entries, then deleting the tombstones, and keeping track of the deletions:
with no key on both lists this puts the layer on top. -/
lemma ofMaps_write_delete (written : GoMap K V) (deleted : GoMap K Unit)
    (hnodup : (entries.map Prod.fst).Nodup) (hdisj : ∀ k ∈ tombstones, k ∉ entries.map Prod.fst) :
    ofMaps ((written.setAll entries).deleteAll tombstones)
        ((deleted.deleteAll (entries.map Prod.fst)).setAll (tombstones.map fun k => (k, ()))) =
      (ofLists entries tombstones).comp (ofMaps written deleted) := by
  funext k
  have hkeys : (tombstones.map fun k => (k, ())).map Prod.fst = tombstones := by
    rw [map_map]
    exact map_id _
  simp only [ofMaps, comp, ofLists, get_deleteAll, get_setAll _ hnodup,
    has_setAll, hkeys]
  by_cases htomb : k ∈ tombstones
  · rw [lookup_eq_none.2 (hdisj k htomb)]
    simp [htomb]
  · cases hentry : entries.lookup k with
    | some v => simp [htomb]
    | none =>
      have hnot := lookup_eq_none.1 hentry
      cases written.get k <;> cases hdel : deleted.get k <;>
        simp [htomb, GoMap.has, get_deleteAll, hnot, hdel]

omit [BEq K] [LawfulBEq K] in
/-- In doing so no deleted key is left among the written ones. -/
lemma get_eq_none_of_deleted (h : ∀ k, deleted.has k → written.get k = none)
    (entries : List (K × V)) (tombstones : List K)
    (hk : ((deleted.deleteAll (entries.map Prod.fst)).setAll
      (tombstones.map fun k => (k, ()))).has k = true) :
    ((written.setAll entries).deleteAll tombstones).get k = none := by
  rw [get_deleteAll]
  by_cases htomb : k ∈ tombstones
  · rw [if_pos htomb]
  · have hdel : (deleted.deleteAll (entries.map Prod.fst)).has k := by
      simpa [has_setAll, htomb] using hk
    rw [GoMap.has, get_deleteAll] at hdel
    split_ifs at hdel with hnotMem
    · cases hdel
    · rw [if_neg htomb, get_setAll_of_notMem _ hnotMem, h k hdel]

end Data

end Layer

end GideonDB.Store
