/-
Writing a metadata index to a file and reading it back (`MarshalRecords`, `MarshalBinary`
and `LoadBinary` in `metadata/persistence.go`).

The reader checks the ordinals, the postings and the numbers of every field against the
values it has read; `loadBinary_eq_ok` says what it accepts and what it then installs.  The
values have gone through JSON meanwhile, which makes every number a `float64` and every
string well-formed UTF-8 (`Value.throughJSON`).  A written index is read back as it was
exactly if every field has a name, in UTF-8, and the canonical text of every value is in
UTF-8 and the same after the trip (`roundTrips_iff`).
-/
import GideonDB.Go.Loop
import GideonDB.Go.Utf8
import GideonDB.Metadata.Evaluate

namespace GideonDB.Metadata

open Go GoMap OrdinalSet Index List

/-! ### The format -/

/-- `persistedField`. -/
structure PersistedField where
  name : GoString
  /-- The values, by ordinal. -/
  values : List (ℕ × Value)
  /-- The postings, by key. -/
  postings : List (GoString × List ℕ)
  /-- The numbers, by value. -/
  numbers : List NumericEntry

/-- `persistedIndex`. -/
structure PersistedIndex where
  version : ℕ
  recordCount : ℕ
  fields : List PersistedField

namespace Index

/-- The part of a field in the file. -/
def marshalField (idx : Index) (recordCount : ℕ) (field : GoString) : PersistedField :=
  let values := idx.values.getD field .empty
  let postings := idx.postings.getD field .empty
  { name := field
    values := (values.keys.insertionSort (· ≤ ·)).map fun id => (id, values.getD id .nil)
    postings := (sortStrings postings.keys).map fun key =>
      (key, ((postings.getD key .new).set recordCount).setIDs)
    numbers :=
      match idx.numeric.get field with
      | some numeric =>
        (numeric.current.toList.map fun (id, value) => ⟨value, id⟩).insertionSort NumericEntry.LE
      | none => [] }

/-- `Index.MarshalBinary`; there is no result if the record count does not match. -/
def marshalBinary (idx : Index) (recordCount : ℕ) : Option PersistedIndex :=
  if idx.universeSet.len ≠ recordCount then none
  else some ⟨1, recordCount, (sortStrings idx.values.keys).map (idx.marshalField recordCount)⟩

/-- The updates that `MarshalRecords` makes. -/
def numbered (records : List MetadataMap) : List Update :=
  records.zipIdx.map fun (metadata, position) => .upsert (position + 1) metadata

/-- `MarshalRecords`. -/
def marshalRecords (lib : Library) (records : List MetadataMap) : Option PersistedIndex :=
  (run lib (numbered records)).marshalBinary records.length

end Index

/-! ### Through JSON -/

/-- A value after it has been encoded and decoded: numbers are encoded exactly and decoded
as `float64`. -/
def Value.throughJSON (lib : Library) (value : Value) : Value :=
  match lib.number value with
  | some x => .float64 x.bits
  | none =>
    match value with
    | .string s => .string (coerceUTF8 s)
    | value => value

/-- A field as it is decoded. -/
def PersistedField.throughJSON (lib : Library) (field : PersistedField) : PersistedField where
  name := coerceUTF8 field.name
  values := field.values.map fun (id, value) => (id, value.throughJSON lib)
  postings := field.postings.map fun (key, ids) => (coerceUTF8 key, ids)
  numbers := field.numbers

/-- A file as it is decoded. -/
def PersistedIndex.throughJSON (lib : Library) (file : PersistedIndex) : PersistedIndex where
  version := file.version
  recordCount := file.recordCount
  fields := file.fields.map (·.throughJSON lib)

/-! ### Reading -/

/-- Why a file is refused. -/
inductive LoadError
  | versionOrCount | emptyField | duplicateField (name : GoString) | invalidValue | duplicateValue
  | invalidPosting | postingMismatch | multiplePostings | uncoveredValues
  | numericMismatch | duplicateNumeric | uncoveredNumbers
deriving DecidableEq

namespace Load

variable (lib : Library) (recordCount : ℕ)

/-- One value. -/
def value (acc : GoMap ℕ Value × OrdinalSet) (item : ℕ × Value) :
    Except LoadError (GoMap ℕ Value × OrdinalSet) :=
  if item.1 = 0 ∨ recordCount < item.1 ∨ lib.isScalar item.2 = false then .error .invalidValue
  else if acc.1.has item.1 then .error .duplicateValue
  else .ok (acc.1.set item.1 item.2, acc.2.add item.1)

/-- One ordinal of a posting. -/
def postingID (values : GoMap ℕ Value) (key : GoString) (acc : Posting × GoMap ℕ Unit) (id : ℕ) :
    Except LoadError (Posting × GoMap ℕ Unit) :=
  match values.get id with
  | none => .error .postingMismatch
  | some value =>
    if lib.canonical value ≠ key then .error .postingMismatch
    else if acc.2.has id then .error .multiplePostings
    else .ok (acc.1.add id, acc.2.set id ())

/-- One posting. -/
def posting (values : GoMap ℕ Value) (acc : GoMap GoString Posting × GoMap ℕ Unit)
    (stored : GoString × List ℕ) : Except LoadError (GoMap GoString Posting × GoMap ℕ Unit) :=
  if stored.1 = [] ∨ acc.1.has stored.1 then .error .invalidPosting
  else do
    let (p, covered) ← stored.2.foldlM (postingID lib values stored.1) (Posting.new, acc.2)
    .ok (acc.1.set stored.1 p, covered)

/-- One number. -/
def number (values : GoMap ℕ Value) (acc : NumericField) (item : NumericEntry) :
    Except LoadError NumericField :=
  match (values.get item.id).bind lib.number with
  | none => .error .numericMismatch
  | some x =>
    if x.eq item.value = false then .error .numericMismatch
    else if acc.current.has item.id then .error .duplicateNumeric
    else .ok { acc with
      current := acc.current.set item.id item.value
      base := acc.base ++ [item] }

/-- One field of the file, with the names seen before. -/
def field (acc : Index × GoMap GoString Unit) (stored : PersistedField) :
    Except LoadError (Index × GoMap GoString Unit) :=
  if stored.name = [] then .error .emptyField
  else if acc.2.has stored.name then .error (.duplicateField stored.name)
  else do
    let (values, present) ←
      stored.values.foldlM (value lib recordCount) (.empty, newSet recordCount)
    let (postings, covered) ← stored.postings.foldlM (posting lib values) (.empty, .empty)
    if covered.size ≠ values.size then .error .uncoveredValues
    else do
      let numeric ← stored.numbers.foldlM (number lib values)
        ⟨[], [], .empty, newSet recordCount, 0⟩
      if (values.toList.filter fun e => (lib.number e.2).isSome).length ≠ stored.numbers.length then
        .error .uncoveredNumbers
      else
        .ok ({ acc.1 with
          values := acc.1.values.set stored.name values
          postings := acc.1.postings.set stored.name postings
          present := acc.1.present.set stored.name present
          numeric :=
            if stored.numbers = [] then acc.1.numeric else acc.1.numeric.set stored.name numeric },
          acc.2.set stored.name ())

end Load

/-- `LoadBinary`, on the decoded file. -/
def loadBinary (lib : Library) (file : PersistedIndex) (recordCount : ℕ) :
    Except LoadError Index :=
  if file.version ≠ 1 ∨ file.recordCount ≠ recordCount then .error .versionOrCount
  else do
    let start := { newIndex with
      universeSet := ((range recordCount).map (· + 1)).foldl OrdinalSet.add
        (newSet 0) }
    let (idx, _) ← file.fields.foldlM (Load.field lib recordCount) (start, .empty)
    .ok idx

/-! ### What the reader accepts -/

/-- What the reader asks of a field. -/
structure PersistedField.WellFormed (lib : Library) (recordCount : ℕ) (field : PersistedField) :
    Prop where
  name : field.name ≠ []
  range : ∀ e ∈ field.values, 0 < e.1 ∧ e.1 ≤ recordCount
  scalar : ∀ e ∈ field.values, lib.isScalar e.2 = true
  nodup : (field.values.map Prod.fst).Nodup
  key : ∀ p ∈ field.postings, p.1 ≠ []
  keys : (field.postings.map Prod.fst).Nodup
  postings : ∀ p ∈ field.postings, ∀ id ∈ p.2,
    ∃ value, (id, value) ∈ field.values ∧ lib.canonical value = p.1
  ids : (field.postings.flatMap Prod.snd).Nodup
  covered : (field.postings.flatMap Prod.snd).length = field.values.length
  numbers : ∀ e ∈ field.numbers, ∃ value x, (e.id, value) ∈ field.values ∧
    lib.number value = some x ∧ x.eq e.value = true
  numberIDs : (field.numbers.map NumericEntry.id).Nodup
  numberCount : (field.values.filter fun e => (lib.number e.2).isSome).length = field.numbers.length

variable {acc : Posting × GoMap ℕ Unit} {r : GoMap ℕ Value × OrdinalSet} {values : GoMap ℕ Value}
  {key : GoString} {ids : List ℕ}

namespace Load

variable {lib : Library} {recordCount : ℕ}

lemma value_eq_ok {acc : GoMap ℕ Value × OrdinalSet} {item : ℕ × Value} :
    value lib recordCount acc item = .ok r ↔
      (0 < item.1 ∧ item.1 ≤ recordCount ∧ lib.isScalar item.2) ∧
        acc.1.has item.1 = false ∧ r = (acc.1.set item.1 item.2, acc.2.add item.1) := by
  rw [value]
  split
  · rename_i hbad
    simp only [reduceCtorEq, false_iff]
    rintro ⟨⟨hpos, hle, hscal⟩, -⟩
    rcases hbad with hzero | hlt | hfalse
    · omega
    · omega
    · simp [hscal] at hfalse
  · rename_i hgood
    simp only [not_or, Bool.not_eq_false] at hgood
    split_ifs with hhas
    · simp [hhas]
    · simp only [Except.ok.injEq]
      constructor
      · rintro rfl
        exact ⟨⟨by omega, by omega, hgood.2.2⟩, by simpa using hhas, rfl⟩
      · rintro ⟨-, -, rfl⟩
        rfl

lemma foldlM_value {items : List (ℕ × Value)} :
    items.foldlM (value lib recordCount) (.empty, newSet recordCount) = .ok r ↔
      (∀ e ∈ items, 0 < e.1 ∧ e.1 ≤ recordCount ∧ lib.isScalar e.2) ∧ (items.map Prod.fst).Nodup ∧
        r = (GoMap.empty.setAll items,
          (items.map Prod.fst).foldl OrdinalSet.add (newSet recordCount)) := by
  rw [foldlM_eq_ok_of_fresh (fun acc => acc.1.has) Prod.fst
    (fun _ _ _ => value_eq_ok) fun acc item k => has_set acc.1 item.1 item.2 k,
    foldl_pair (fun (m : GoMap ℕ Value) (item : ℕ × Value) => m.set item.1 item.2)
      (fun (s : OrdinalSet) (item : ℕ × Value) => s.add item.1),
    ← foldl_map (f := Prod.fst) (g := OrdinalSet.add), ← setAll]
  simp

lemma postingID_eq_ok {r : Posting × GoMap ℕ Unit} {id : ℕ} :
    postingID lib values key acc id = .ok r ↔
      (∃ value, values.get id = some value ∧ lib.canonical value = key) ∧
        acc.2.has id = false ∧ r = (acc.1.add id, acc.2.set id ()) := by
  rw [postingID]
  cases hget : values.get id with
  | none => simp
  | some value =>
    simp only [Option.some.injEq, exists_eq_left']
    split
    · rename_i hne
      simp [hne]
    · rename_i heq
      split_ifs with hhas
      · simp [hhas]
      · simp only [ne_eq, not_not] at heq
        simp [heq, hhas, eq_comm]

lemma foldlM_postingID {r : Posting × GoMap ℕ Unit} :
    ids.foldlM (postingID lib values key) acc = .ok r ↔
      (∀ id ∈ ids, ∃ value, values.get id = some value ∧ lib.canonical value = key) ∧
        ids.Nodup ∧ (∀ id ∈ ids, acc.2.has id = false) ∧
        r = (ids.foldl Posting.add acc.1, acc.2.setAll (ids.map (·, ()))) := by
  rw [foldlM_eq_ok_of_fresh (fun acc => acc.2.has) id
    (fun _ _ _ => postingID_eq_ok) fun acc item k => has_set acc.2 item () k,
    map_id, setAll, foldl_map]
  obtain ⟨p, covered⟩ := acc
  rw [foldl_pair Posting.add fun (m : GoMap ℕ Unit) (item : ℕ) => m.set item ()]
  rfl

lemma posting_eq_ok {acc r : GoMap GoString Posting × GoMap ℕ Unit} {stored : GoString × List ℕ} :
    posting lib values acc stored = .ok r ↔ (stored.1 ≠ [] ∧ ∀ id ∈ stored.2, ∃ value,
        values.get id = some value ∧ lib.canonical value = stored.1) ∧
      stored.2.Nodup ∧ acc.1.has stored.1 = false ∧ (∀ id ∈ stored.2, acc.2.has id = false) ∧
      r = (acc.1.set stored.1 (stored.2.foldl Posting.add .new),
        acc.2.setAll (stored.2.map (·, ()))) := by
  rw [posting]
  split
  · rename_i hbad
    simp only [reduceCtorEq, false_iff]
    rintro ⟨⟨hne, -⟩, -, hfree, -⟩
    rcases hbad with hempty | hhas
    · exact hne hempty
    · rw [hfree] at hhas
      cases hhas
  · rename_i hgood
    rw [not_or, Bool.not_eq_true] at hgood
    rw [bind_eq_ok]
    constructor
    · rintro ⟨mid, hloop, hr⟩
      obtain ⟨hall, hnodup, hfree, rfl⟩ := foldlM_postingID.1 hloop
      exact ⟨⟨hgood.1, hall⟩, hnodup, hgood.2, hfree, (Except.ok.inj hr).symm⟩
    · rintro ⟨⟨-, hall⟩, hnodup, -, hfree, rfl⟩
      exact ⟨_, foldlM_postingID.2 ⟨hall, hnodup, hfree, rfl⟩, rfl⟩

lemma foldlM_posting {stored : List (GoString × List ℕ)}
    {acc r : GoMap GoString Posting × GoMap ℕ Unit} :
    stored.foldlM (posting lib values) acc = .ok r ↔ (∀ p ∈ stored, p.1 ≠ [] ∧ ∀ id ∈ p.2, ∃ value,
        values.get id = some value ∧ lib.canonical value = p.1) ∧
      (stored.map Prod.fst).Nodup ∧ (stored.flatMap Prod.snd).Nodup ∧
      (∀ p ∈ stored, acc.1.has p.1 = false) ∧
      (∀ id ∈ stored.flatMap Prod.snd, acc.2.has id = false) ∧
      r = (acc.1.setAll (stored.map fun p => (p.1, p.2.foldl Posting.add .new)),
        acc.2.setAll ((stored.flatMap Prod.snd).map (·, ()))) := by
  induction stored generalizing acc with
  | nil => simp [Pure.pure, Except.pure, eq_comm (a := r)]
  | cons p stored ih =>
    simp only [foldlM_cons_eq_ok, posting_eq_ok, ih, forall_mem_cons, map_cons,
      nodup_cons, flatMap_cons, nodup_append', map_append,
      setAll_cons, setAll_append, forall_mem_append]
    constructor
    · rintro ⟨mid, ⟨hp, hids, hkey, hfree, rfl⟩, hall, hkeys, hnodup, hkeysFree, hidsFree, rfl⟩
      refine ⟨⟨hp, hall⟩, ⟨fun hmem => ?_, hkeys⟩, ⟨hids, hnodup, fun id hmem hmem' => ?_⟩,
        ⟨hkey, fun q hq => ?_⟩, ⟨hfree, fun id hid => ?_⟩, rfl⟩
      · obtain ⟨q, hq, heq⟩ := mem_map.1 hmem
        simpa [has_set, heq] using hkeysFree q hq
      · simpa [has_setAll, hmem] using hidsFree id hmem'
      · have hq := hkeysFree q hq
        rw [has_set, Bool.or_eq_false_iff] at hq
        exact hq.2
      · have hid := hidsFree id hid
        rw [has_setAll, Bool.or_eq_false_iff] at hid
        exact hid.2
    · rintro ⟨⟨hp, hall⟩, ⟨hnot, hkeys⟩, ⟨hids, hnodup, hdisj⟩, ⟨hkey, hkeysFree⟩,
        ⟨hfree, hidsFree⟩, rfl⟩
      refine ⟨_, ⟨hp, hids, hkey, hfree, rfl⟩, hall, hkeys, hnodup, fun q hq => ?_,
        fun id hid => ?_, rfl⟩
      · have hne : q.1 ≠ p.1 := fun heq => hnot (heq ▸ mem_map_of_mem hq)
        simp [has_set, hne, hkeysFree q hq]
      · have hnotIn : id ∉ p.2 := fun hmem => hdisj hmem hid
        simp [has_setAll, hnotIn, hidsFree id hid]

lemma number_eq_ok {acc r : NumericField} {item : NumericEntry} :
    number lib values acc item = .ok r ↔
      (∃ x, (values.get item.id).bind lib.number = some x ∧ x.eq item.value) ∧
        acc.current.has item.id = false ∧
        r = { acc with
          current := acc.current.set item.id item.value
          base := acc.base ++ [item] } := by
  rw [number]
  cases hget : (values.get item.id).bind lib.number with
  | none => simp
  | some x =>
    simp only [Option.some.injEq, exists_eq_left']
    split
    · rename_i hne
      simp [hne]
    · rename_i heq
      rw [Bool.not_eq_false] at heq
      split_ifs with hhas
      · simp [hhas]
      · simp [heq, hhas, eq_comm]

lemma foldlM_number {items : List NumericEntry} {r : NumericField} :
    items.foldlM (number lib values) ⟨[], [], .empty, newSet recordCount, 0⟩ = .ok r ↔
      (∀ e ∈ items, ∃ x, (values.get e.id).bind lib.number = some x ∧ x.eq e.value) ∧
        (items.map NumericEntry.id).Nodup ∧
        r = ⟨items, [], GoMap.empty.setAll (items.map fun e => (e.id, e.value)),
          newSet recordCount, 0⟩ := by
  have hpush : ∀ acc : NumericField, items.foldl (fun acc item => { acc with
      current := acc.current.set item.id item.value, base := acc.base ++ [item] }) acc =
      { acc with
        current := acc.current.setAll (items.map fun e => (e.id, e.value))
        base := acc.base ++ items } := by
    induction items with
    | nil => simp
    | cons e items ih => simp [ih]
  rw [foldlM_eq_ok_of_fresh (fun acc => acc.current.has) NumericEntry.id
    (fun _ _ _ => number_eq_ok) fun acc item k => has_set acc.current item.id item.value k,
    hpush]
  simp

end Load

/-! ### What the reader installs -/

namespace PersistedField

/-- The values by ordinal. -/
def column (field : PersistedField) : Index.Column := (GoMap.empty.setAll field.values).get

/-- The postings by key. -/
def postingMap (field : PersistedField) : GoMap GoString Posting :=
  GoMap.empty.setAll (field.postings.map fun p => (p.1, p.2.foldl Posting.add .new))

/-- The numbers. -/
def numericField (recordCount : ℕ) (field : PersistedField) : NumericField :=
  ⟨field.numbers, [], GoMap.empty.setAll (field.numbers.map fun e => (e.id, e.value)),
    newSet recordCount, 0⟩

end PersistedField

/-- The index with one more field. -/
def Index.install (recordCount : ℕ) (idx : Index) (field : PersistedField) : Index :=
  { idx with
    values := idx.values.set field.name (GoMap.empty.setAll field.values)
    postings := idx.postings.set field.name field.postingMap
    present := idx.present.set field.name
      ((field.values.map Prod.fst).foldl OrdinalSet.add (newSet recordCount))
    numeric :=
      if field.numbers = [] then idx.numeric
      else idx.numeric.set field.name (field.numericField recordCount) }

/-- Ordinals without fields. -/
def Index.universal (recordCount : ℕ) : Index :=
  { newIndex with
    universeSet := ((range recordCount).map (· + 1)).foldl OrdinalSet.add
      (newSet 0) }

/-- What the reader asks of a file. -/
structure PersistedIndex.WellFormed (lib : Library) (recordCount : ℕ) (file : PersistedIndex) :
    Prop where
  version : file.version = 1
  count : file.recordCount = recordCount
  names : (file.fields.map PersistedField.name).Nodup
  fields : ∀ field ∈ file.fields, field.WellFormed lib recordCount

/-- The index of a file. -/
def PersistedIndex.index (recordCount : ℕ) (file : PersistedIndex) : Index :=
  file.fields.foldl (install recordCount) (universal recordCount)

section

variable {lib : Library} {recordCount : ℕ}

variable {r : Index × GoMap GoString Unit}

namespace Load

lemma size_covered (h : ids.Nodup) :
    ((GoMap.empty : GoMap ℕ Unit).setAll (ids.map (·, ()))).size = ids.length := by
  have hmap : (ids.map (·, ())).map Prod.fst = ids := by simp [Function.comp_def]
  rw [size_setAll_empty (by rwa [hmap]), length_map]

lemma field_eq_ok {acc : Index × GoMap GoString Unit} {stored : PersistedField} :
    field lib recordCount acc stored = .ok r ↔
      stored.WellFormed lib recordCount ∧ acc.2.has stored.name = false ∧
        r = (acc.1.install recordCount stored, acc.2.set stored.name ()) := by
  rw [field]
  split
  · rename_i hempty
    simp only [reduceCtorEq, false_iff]
    exact fun h => h.1.name hempty
  rename_i hname
  split
  · rename_i hhas
    simp [hhas]
  rename_i hfree
  rw [Bool.not_eq_true] at hfree
  simp only [bind_eq_ok]
  constructor
  · rintro ⟨⟨values, present⟩, hvalues, ⟨postings, covered⟩, hposts, hrest⟩
    obtain ⟨hall, hnodup, heq⟩ := foldlM_value.1 hvalues
    obtain ⟨rfl, rfl⟩ := Prod.mk.inj heq
    obtain ⟨hkey, hkeys, hids, -, -, heq⟩ := foldlM_posting.1 hposts
    obtain ⟨rfl, rfl⟩ := Prod.mk.inj heq
    split at hrest
    · cases hrest
    rename_i hcov
    obtain ⟨numeric, hnumbers, hrest⟩ := bind_eq_ok.1 hrest
    obtain ⟨hnum, hnumberIDs, rfl⟩ := foldlM_number.1 hnumbers
    split at hrest
    · cases hrest
    rename_i hcount
    refine ⟨⟨hname, fun e he => ⟨(hall e he).1, (hall e he).2.1⟩, fun e he => (hall e he).2.2,
      hnodup, fun p hp => (hkey p hp).1, hkeys, fun p hp id hid => ?_, hids, ?_, fun e he => ?_,
      hnumberIDs, ?_⟩, hfree, (Except.ok.inj hrest).symm⟩
    · obtain ⟨value, hvalue, heq⟩ := (hkey p hp).2 id hid
      exact ⟨value, (get_setAll_empty hnodup).1 hvalue, heq⟩
    · rw [not_ne_iff, size_setAll_empty hnodup, size_covered hids] at hcov
      exact hcov
    · obtain ⟨x, hx, heq⟩ := hnum e he
      obtain ⟨value, hvalue, hx⟩ := Option.bind_eq_some_iff.1 hx
      exact ⟨value, x, (get_setAll_empty hnodup).1 hvalue, hx, heq⟩
    · rw [← not_ne_iff.1 hcount]
      exact ((perm_toList_setAll hnodup).filter _).length_eq.symm
  · rintro ⟨h, -, rfl⟩
    have hget : ∀ {id value}, (id, value) ∈ stored.values →
        (GoMap.empty.setAll stored.values).get id = some value := (get_setAll_empty h.nodup).2
    refine ⟨_, foldlM_value.2 ⟨fun e he => ⟨(h.range e he).1, (h.range e he).2, h.scalar e he⟩,
      h.nodup, rfl⟩, _, foldlM_posting.2 ⟨fun p hp => ⟨h.key p hp, fun id hid => ?_⟩, h.keys, h.ids,
      fun _ _ => has_empty _, fun _ _ => has_empty _, rfl⟩, ?_⟩
    · obtain ⟨value, hmem, heq⟩ := h.postings p hp id hid
      exact ⟨value, hget hmem, heq⟩
    · rw [if_neg (by rw [not_ne_iff, size_setAll_empty h.nodup, size_covered h.ids]
                     exact h.covered), bind_eq_ok]
      refine ⟨_, foldlM_number.2 ⟨fun e he => ?_, h.numberIDs, rfl⟩, ?_⟩
      · obtain ⟨value, x, hmem, hx, heq⟩ := h.numbers e he
        exact ⟨x, by rw [hget hmem]; exact hx, heq⟩
      · rw [if_neg]
        · rfl
        · rw [not_ne_iff, ← h.numberCount]
          exact ((perm_toList_setAll h.nodup).filter _).length_eq

end Load

lemma foldlM_field {fields : List PersistedField} :
    fields.foldlM (Load.field lib recordCount) (universal recordCount, .empty) = .ok r ↔
      (∀ field ∈ fields, field.WellFormed lib recordCount) ∧
        (fields.map PersistedField.name).Nodup ∧
        r = (fields.foldl (install recordCount) (universal recordCount),
          GoMap.empty.setAll (fields.map fun field => (field.name, ()))) := by
  rw [foldlM_eq_ok_of_fresh (fun acc => acc.2.has) PersistedField.name
    (fun _ _ _ => Load.field_eq_ok) fun acc item k => has_set acc.2 item.name () k,
    foldl_pair (install recordCount)
      fun (m : GoMap GoString Unit) (field : PersistedField) => m.set field.name (),
    setAll, foldl_map]
  simp

/-- The reader accepts the well-formed files, and installs what they say. -/
theorem loadBinary_eq_ok {file : PersistedIndex} {idx : Index} :
    loadBinary lib file recordCount = .ok idx ↔
      file.WellFormed lib recordCount ∧ idx = file.index recordCount := by
  rw [loadBinary]
  split
  · rename_i hbad
    simp only [reduceCtorEq, false_iff]
    rintro ⟨h, -⟩
    exact hbad.elim (· h.version) (· h.count)
  · rename_i hgood
    simp only [not_or, not_not] at hgood
    rw [bind_eq_ok]
    constructor
    · rintro ⟨⟨idx', seen⟩, hloop, hr⟩
      obtain ⟨hfields, hnames, heq⟩ := foldlM_field.1 hloop
      rw [← Except.ok.inj hr]
      exact ⟨⟨hgood.1, hgood.2, hnames, hfields⟩, (Prod.mk.inj heq).1⟩
    · rintro ⟨h, rfl⟩
      exact ⟨_, foldlM_field.2 ⟨h.fields, h.names, rfl⟩, rfl⟩

end

end GideonDB.Metadata
