/-
Go maps.

A map is an association list with distinct keys, Mathlib's `AList`; the order of its
entries is one of the orders in which a `range` loop may visit them.  The lemmas below
give lookups after an update by cases on the key, the number of entries, and the entries
as a list of pairs.
-/
import Mathlib.Data.List.AList

namespace GideonDB.Go

open List

/-- A Go map. -/
structure GoMap (K V : Type*) where
  alist : AList fun _ : K => V

namespace GoMap

variable {K V : Type*}

/-- No entries. -/
def empty : GoMap K V := ⟨∅⟩

instance [DecidableEq K] [DecidableEq V] : DecidableEq (GoMap K V) := fun m n =>
  decidable_of_iff (m.alist = n.alist) ⟨fun h => congrArg GoMap.mk h, congrArg alist⟩

/-- The entries, in the order of a `range` loop. -/
def toList (m : GoMap K V) : List (K × V) := m.alist.entries.map fun e => (e.1, e.2)

/-- The keys, in the order of a `range` loop. -/
def keys (m : GoMap K V) : List K := m.alist.keys

/-- `len`. -/
def size (m : GoMap K V) : ℕ := m.alist.entries.length

lemma map_fst_toList (m : GoMap K V) : m.toList.map Prod.fst = m.keys := by
  simp [toList, keys, AList.keys, List.keys, Function.comp_def]

lemma nodup_keys (m : GoMap K V) : m.keys.Nodup := m.alist.keys_nodup

@[simp] lemma length_keys (m : GoMap K V) : m.keys.length = m.size := by
  simp [keys, size, AList.keys, List.keys]

@[simp] lemma length_toList (m : GoMap K V) : m.toList.length = m.size := by
  simp [toList, size]

@[simp] lemma size_empty : (empty : GoMap K V).size = 0 := rfl

variable {k : K} {m : GoMap K V} {v : V} {entries : List (K × V)}

section Lookup

variable [DecidableEq K]

/-- `m[k]` with the second result: `none` if the key is missing. -/
def get (m : GoMap K V) (k : K) : Option V := m.alist.lookup k

/-- `m[k] = v`. -/
def set (m : GoMap K V) (k : K) (v : V) : GoMap K V := ⟨m.alist.insert k v⟩

/-- `delete(m, k)`. -/
def delete (m : GoMap K V) (k : K) : GoMap K V := ⟨m.alist.erase k⟩

/-- `_, ok := m[k]`. -/
def has (m : GoMap K V) (k : K) : Bool := (m.get k).isSome

@[simp] lemma get_empty (k : K) : (empty : GoMap K V).get k = none := AList.lookup_empty k

lemma mem_toList : (k, v) ∈ m.toList ↔ m.get k = some v := by
  rw [get, ← Option.mem_def, AList.mem_lookup_iff, toList, mem_map]
  constructor
  · rintro ⟨⟨k', v'⟩, hmem, heq⟩
    obtain ⟨rfl, rfl⟩ := Prod.mk.inj heq
    exact hmem
  · exact fun hmem => ⟨_, hmem, rfl⟩

lemma mem_keys : k ∈ m.keys ↔ ∃ v, m.get k = some v := by
  rw [keys, ← AList.mem_keys, ← AList.lookup_isSome, Option.isSome_iff_exists]
  rfl

lemma notMem_keys : k ∉ m.keys ↔ m.get k = none := by
  rw [mem_keys, ← Option.isSome_iff_exists, Bool.not_eq_true, Option.isSome_eq_false_iff,
    Option.isNone_iff_eq_none]

section

variable (m : GoMap K V)

@[grind =] lemma get_set (k : K) (v : V) (k' : K) :
    (m.set k v).get k' = if k' = k then some v else m.get k' := by
  split_ifs with h
  · rw [h]
    exact AList.lookup_insert m.alist
  · exact AList.lookup_insert_ne h

@[simp] lemma get_set_self (k : K) (v : V) : (m.set k v).get k = some v := by
  rw [get_set, if_pos rfl]

lemma get_set_of_ne {k' : K} (v : V) (h : k' ≠ k) : (m.set k v).get k' = m.get k' := by
  rw [get_set, if_neg h]

lemma set_set (k : K) (v v' : V) : (m.set k v).set k v' = m.set k v' :=
  congrArg GoMap.mk (AList.insert_insert m.alist)

@[grind =] lemma get_delete (k k' : K) :
    (m.delete k).get k' = if k' = k then none else m.get k' := by
  split_ifs with h
  · rw [h]
    exact AList.lookup_erase k m.alist
  · exact AList.lookup_erase_ne h

@[simp] lemma get_delete_self (k : K) : (m.delete k).get k = none := by
  rw [get_delete, if_pos rfl]

lemma get_delete_of_ne {k' : K} (h : k' ≠ k) : (m.delete k).get k' = m.get k' := by
  rw [get_delete, if_neg h]

lemma has_eq_decide (k : K) : m.has k = decide (k ∈ m.keys) := by
  rw [Bool.eq_iff_iff, has, Option.isSome_iff_exists, decide_eq_true_iff, mem_keys]

end

lemma has_iff_mem_keys : m.has k ↔ k ∈ m.keys := by
  rw [has_eq_decide, decide_eq_true_iff]

@[simp] lemma has_empty (k : K) : (empty : GoMap K V).has k = false := by simp [has]

/-- `get` with a default. -/
def getD (m : GoMap K V) (k : K) (default : V) : V := (m.get k).getD default

/-- A change of the entry of a key, if it has one. -/
def modify (m : GoMap K V) (k : K) (f : V → V) : GoMap K V :=
  match m.get k with
  | some v => m.set k (f v)
  | none => m

@[simp] lemma getD_empty (k : K) (d : V) : (empty : GoMap K V).getD k d = d := by simp [getD]

/-- Entry after entry. -/
def setAll (m : GoMap K V) (entries : List (K × V)) : GoMap K V :=
  entries.foldl (fun m entry => m.set entry.1 entry.2) m

/-- Key after key. -/
def deleteAll (m : GoMap K V) (keys : List K) : GoMap K V := keys.foldl delete m

section

variable (m : GoMap K V)

@[grind =] lemma has_set (k : K) (v : V) (k' : K) :
    (m.set k v).has k' = (decide (k' = k) || m.has k') := by
  rw [has, has, get_set]
  split <;> simp [*]

@[grind =] lemma has_delete (k k' : K) : (m.delete k).has k' = (decide (k' ≠ k) && m.has k') := by
  rw [has, has, get_delete]
  split <;> simp [*]

lemma keys_set (k : K) (v : V) : (m.set k v).keys = k :: m.keys.erase k :=
  AList.keys_insert m.alist

lemma keys_delete (k : K) : (m.delete k).keys = m.keys.erase k :=
  AList.keys_erase k m.alist

lemma size_set (k : K) (v : V) : (m.set k v).size = if m.has k then m.size else m.size + 1 := by
  rw [← length_keys, ← length_keys, keys_set, length_cons]
  cases hget : m.get k with
  | none =>
    rw [erase_of_not_mem (notMem_keys.2 hget)]
    simp [has, hget]
  | some old =>
    have hmem := mem_keys.2 ⟨old, hget⟩
    have hpos := length_pos_of_mem hmem
    rw [length_erase_of_mem hmem]
    simp only [has, hget, Option.isSome_some, if_true]
    omega

lemma size_delete (k : K) : (m.delete k).size = if m.has k then m.size - 1 else m.size := by
  rw [← length_keys, ← length_keys, keys_delete]
  cases hget : m.get k with
  | none =>
    rw [erase_of_not_mem (notMem_keys.2 hget)]
    simp [has, hget]
  | some old =>
    rw [length_erase_of_mem (mem_keys.2 ⟨old, hget⟩)]
    simp [has, hget]

lemma getD_set (k : K) (v : V) (k' : K) (d : V) :
    (m.set k v).getD k' d = if k' = k then v else m.getD k' d := by
  rw [getD, get_set]
  split <;> simp [getD]

@[simp] lemma getD_set_self (k : K) (v d : V) : (m.set k v).getD k d = v := by
  simp [getD_set]

lemma get_modify (k : K) (f : V → V) (k' : K) :
    (m.modify k f).get k' = if k' = k then (m.get k).map f else m.get k' := by
  rw [modify]
  split
  · rename_i hget
    rw [get_set, hget, Option.map_some]
  · rename_i hget
    split_ifs with heq
    · rw [heq, hget, Option.map_none]
    · rfl

lemma getD_modify (k : K) (f : V → V) (k' : K) {d : V} (hd : f d = d) :
    (m.modify k f).getD k' d = if k' = k then f (m.getD k d) else m.getD k' d := by
  rw [getD, get_modify]
  split
  · cases hget : m.get k <;> simp [getD, hget, hd]
  · rfl

@[simp] lemma setAll_nil : m.setAll [] = m := rfl

@[simp] lemma setAll_cons (e : K × V) (entries : List (K × V)) :
    m.setAll (e :: entries) = (m.set e.1 e.2).setAll entries := rfl

lemma setAll_append (entries entries' : List (K × V)) :
    m.setAll (entries ++ entries') = (m.setAll entries).setAll entries' := foldl_append

lemma get_setAll_of_notMem (h : k ∉ entries.map Prod.fst) : (m.setAll entries).get k = m.get k := by
  induction entries generalizing m with
  | nil => rfl
  | cons e entries ih =>
    rw [map_cons, mem_cons, not_or] at h
    rw [setAll_cons, ih _ h.2, get_set_of_ne _ _ h.1]

lemma get_setAll_of_mem (hnodup : (entries.map Prod.fst).Nodup) (h : (k, v) ∈ entries) :
    (m.setAll entries).get k = some v := by
  induction entries generalizing m with
  | nil => cases h
  | cons e entries ih =>
    obtain ⟨hnot, hnodup⟩ := nodup_cons.1 hnodup
    rw [setAll_cons]
    rcases mem_cons.1 h with rfl | h
    · rw [get_setAll_of_notMem _ hnot, get_set_self]
    · exact ih _ hnodup h

lemma get_deleteAll (keys : List K) (k : K) :
    (m.deleteAll keys).get k = if k ∈ keys then none else m.get k := by
  induction keys generalizing m with
  | nil => simp [deleteAll]
  | cons k' keys ih =>
    rw [deleteAll, foldl_cons, ← deleteAll, ih, get_delete]
    by_cases h : k = k' <;> by_cases h' : k ∈ keys <;> simp [h, h']

end

lemma has_setAll (m : GoMap K V) (entries : List (K × V)) (k : K) :
    (m.setAll entries).has k = (decide (k ∈ entries.map Prod.fst) || m.has k) := by
  induction entries generalizing m with
  | nil => simp
  | cons e entries ih =>
    rw [setAll_cons, ih, has_set, map_cons]
    by_cases h : k = e.1 <;> simp only [mem_cons, h, decide_true, Bool.true_or, Bool.or_true,
      decide_false, Bool.false_or, true_or, false_or]

lemma size_eq_of_has {W : Type*} {m' : GoMap K W}
    (h : ∀ k, m.has k = m'.has k) : m.size = m'.size := by
  rw [← length_keys, ← length_keys]
  refine ((perm_ext_iff_of_nodup m.nodup_keys m'.nodup_keys).2 fun k => ?_).length_eq
  have hk := h k
  rw [has_eq_decide, has_eq_decide] at hk
  simpa using hk

section

variable (hnodup : (entries.map Prod.fst).Nodup)

include hnodup

lemma get_setAll_empty :
    ((empty : GoMap K V).setAll entries).get k = some v ↔ (k, v) ∈ entries := by
  refine ⟨fun h => ?_, get_setAll_of_mem _ hnodup⟩
  by_cases hk : k ∈ entries.map Prod.fst
  · obtain ⟨⟨k', v'⟩, hmem, rfl⟩ := mem_map.1 hk
    rw [get_setAll_of_mem _ hnodup hmem] at h
    rwa [← Option.some.inj h]
  · rw [get_setAll_of_notMem _ hk, get_empty] at h
    cases h

lemma size_setAll_empty : ((empty : GoMap K V).setAll entries).size = entries.length := by
  have hlength : (entries.map Prod.fst).length = entries.length := length_map _
  rw [← length_keys, ← hlength]
  refine ((perm_ext_iff_of_nodup (nodup_keys _) hnodup).2 fun k => ?_).length_eq
  have hk := has_setAll (empty : GoMap K V) entries k
  rw [has_empty, Bool.or_false, has_eq_decide] at hk
  simpa using hk

lemma perm_toList_setAll : ((empty : GoMap K V).setAll entries).toList.Perm entries := by
  refine (perm_ext_iff_of_nodup (List.Nodup.of_map Prod.fst ?_)
    (List.Nodup.of_map Prod.fst hnodup)).2 fun e => ?_
  · rw [map_fst_toList]
    exact nodup_keys _
  · rw [mem_toList, get_setAll_empty hnodup]

end

lemma perm_toList_of_get {m' : GoMap K V} (h : ∀ k, m.get k = m'.get k) :
    m.toList.Perm m'.toList := by
  refine (perm_ext_iff_of_nodup (List.Nodup.of_map Prod.fst ?_)
    (List.Nodup.of_map Prod.fst ?_)).2 fun e => ?_
  · rw [map_fst_toList]
    exact nodup_keys _
  · rw [map_fst_toList]
    exact nodup_keys _
  · rw [mem_toList, mem_toList, h]

end Lookup

/-! ### Lists of pairs -/

section Pairs

variable [BEq K] [LawfulBEq K]

lemma lookup_toList [DecidableEq K] (m : GoMap K V) (k : K) : m.toList.lookup k = m.get k := by
  rw [toList, get, AList.lookup]
  induction m.alist.entries with
  | nil => rfl
  | cons e entries ih =>
    rw [map_cons, lookup_cons]
    by_cases h : k = e.1
    · subst h
      rw [beq_self_eq_true]
      exact (dlookup_cons_eq entries e.1 e.2).symm
    · rw [beq_false_of_ne h, dlookup_cons_ne _ _ h]
      exact ih

lemma lookup_map_snd {W : Type*} (g : K → V → W) (entries : List (K × V)) (k : K) :
    (entries.map fun e => (e.1, g e.1 e.2)).lookup k = (entries.lookup k).map (g k) := by
  induction entries with
  | nil => rfl
  | cons e entries ih =>
    rw [map_cons, lookup_cons, lookup_cons]
    by_cases h : k = e.1
    · subst h
      rw [beq_self_eq_true]
      rfl
    · rw [beq_false_of_ne h]
      exact ih

lemma mem_of_lookup (h : entries.lookup k = some v) : (k, v) ∈ entries := by
  obtain ⟨before, after, rfl, -⟩ := lookup_eq_some_iff.1 h
  exact mem_append_right before mem_cons_self

lemma lookup_eq_none : entries.lookup k = none ↔ k ∉ entries.map Prod.fst := by
  rw [lookup_eq_none_iff, mem_map]
  constructor
  · rintro h ⟨e, hmem, rfl⟩
    exact bne_iff_ne.1 (h e hmem) rfl
  · intro h e hmem
    exact bne_iff_ne.2 fun heq => h ⟨e, hmem, heq.symm⟩

lemma lookup_eq_some (hnodup : (entries.map Prod.fst).Nodup) :
    entries.lookup k = some v ↔ (k, v) ∈ entries := by
  refine ⟨mem_of_lookup, fun hmem => ?_⟩
  cases h : entries.lookup k with
  | none => exact absurd (mem_map.2 ⟨(k, v), hmem, rfl⟩) (lookup_eq_none.1 h)
  | some v' =>
    have heq := inj_on_of_nodup_map hnodup (mem_of_lookup h) hmem rfl
    rw [(Prod.mk.inj heq).2]

lemma get_setAll [DecidableEq K] (m : GoMap K V) (hnodup : (entries.map Prod.fst).Nodup) (k : K) :
    (m.setAll entries).get k = (entries.lookup k).or (m.get k) := by
  cases h : entries.lookup k with
  | none => rw [get_setAll_of_notMem m (lookup_eq_none.1 h), Option.none_or]
  | some v => rw [get_setAll_of_mem m hnodup (mem_of_lookup h), Option.some_or]

/-- Setting every entry of a map to a function of what it was. -/
lemma get_setAll_toList [DecidableEq K] (m : GoMap K V) (f : V → V) (k : K) :
    (m.setAll (m.toList.map fun e => (e.1, f e.2))).get k = (m.get k).map f := by
  have hnodup : ((m.toList.map fun e => (e.1, f e.2)).map Prod.fst).Nodup := by
    rw [map_map]
    exact m.map_fst_toList ▸ m.nodup_keys
  rw [get_setAll _ hnodup, lookup_map_snd (fun _ => f), lookup_toList]
  cases m.get k <;> rfl

end Pairs

end GoMap

end GideonDB.Go
