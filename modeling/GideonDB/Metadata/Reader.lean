/-
Filters on an index that was read from a file (`LoadBinary` in `metadata/persistence.go`).

The reader checks the numbers of a field against its values, but not that they are in
order, and a range query looks for its bounds by binary search.  So the files that answer
every filter correctly are those among the accepted ones whose numbers are in order
(`loaded_filters_correct_iff`).
-/
import GideonDB.Metadata.RoundTrip

namespace GideonDB.Metadata

open Go GoMap OrdinalSet PersistedField Index List

variable {lib : Library} {recordCount : ℕ} {field : PersistedField} {file : PersistedIndex}

/-- The filter for the numbers that are at least the given one. -/
def PersistedField.atLeast (field : PersistedField) (x : Float64) : Expr :=
  .predicate field.name (.opRange .gte (.float64 x.bits))

lemma number_float64 (lib : Library) (x : Float64) : lib.number (.float64 x.bits) = some x := by
  simp [Library.number, Float64.ofBits, x.finite]

/-- A range query on the numbers of a file takes those from some position on. -/
lemma PersistedField.WellFormed.contains_range_gte (h : field.WellFormed lib recordCount)
    (maxID : ℕ) (target : Float64) {i : ℕ} (hi : i < field.numbers.length) :
    ((field.numericField recordCount).range maxID .gte target).contains field.numbers[i].id = true ↔
      searchList field.numbers (fun entry => target.le entry.value) ≤ i := by
  simp only [NumericField.range, numericField, NumericField.baseRange, filter_nil,
    foldl_nil, NumericField.contains_foldl_add_id, contains_newSet, Bool.not_false,
    filter_true, Bool.false_eq_true, or_false, mem_drop_iff_getElem]
  generalize searchList field.numbers (fun entry => target.le entry.value) = start
  constructor
  · rintro ⟨-, ⟨j, hj, rfl⟩, hid⟩
    have hinj := inj_on_of_nodup_map h.numberIDs (getElem_mem _) (getElem_mem _) hid
    have hpos := (h.numberIDs.of_map.getElem_inj_iff).1 hinj
    omega
  · exact fun hle => ⟨_, ⟨i - start, by omega, rfl⟩, by congr 2; omega⟩

namespace PersistedIndex.WellFormed

lemma contains_atLeast (h : file.WellFormed lib recordCount) (hfield : field ∈ file.fields)
    (x : Float64) {i : ℕ} (hi : i < field.numbers.length) :
    ((file.index recordCount).evaluate lib (field.atLeast x)).contains field.numbers[i].id ↔
      searchList field.numbers (fun entry => x.le entry.value) ≤ i := by
  obtain ⟨-, -, -, hnumeric⟩ := foldl_install_of_mem recordCount (.universal recordCount) h.names
    hfield (get_empty _)
  have hsome := hnumeric.trans (if_neg (ne_nil_of_length_pos (by omega)))
  rw [atLeast, evaluate, predicate, number_float64]
  simp only [numericRange, index, hsome, (h.fields field hfield).contains_range_gte]

lemma holds_atLeast (h : file.WellFormed lib recordCount) (hfield : field ∈ file.fields)
    (x : Float64) {i : ℕ} (hi : i < field.numbers.length) :
    (∃ row, file.rows recordCount field.numbers[i].id = some row ∧
        (field.atLeast x).holds lib row) ↔ x.key ≤ field.numbers[i].value.key := by
  obtain ⟨y, hy, hkey⟩ := Option.map_eq_some_iff.1
    ((h.fields field hfield).key_of_mem (getElem_mem hi))
  have hrange := inRange_number (number_float64 lib x) .gte (field.column field.numbers[i].id)
  rw [hy, ← h.columnOf_rows hfield, columnOf] at hrange
  simp only [inRange, Option.any_some, rangeMatches, Float64.le, hkey] at hrange
  rw [← decide_eq_true_iff (p := x.key ≤ _), hrange]
  cases file.rows recordCount field.numbers[i].id <;> simp [atLeast, Expr.holds, Test.holds]

end PersistedIndex.WellFormed

/-- An accepted file answers every filter without places correctly exactly if the numbers of
its fields are in order. -/
theorem loaded_filters_correct_iff (lib : Library) (file : PersistedIndex) (recordCount : ℕ)
    (idx : Index) (hload : loadBinary lib file recordCount = .ok idx) :
    (∀ expr : Expr, expr.nonGeo = true → ∀ id, (idx.evaluate lib expr).contains id = true ↔
        ∃ row, file.rows recordCount id = some row ∧ expr.holds lib row = true) ↔
      ∀ field ∈ file.fields, field.Ordered := by
  obtain ⟨hwell, rfl⟩ := loadBinary_eq_ok.1 hload
  constructor
  · intro hall field hfield
    rw [Ordered, pairwise_iff_getElem]
    intro i j hi hj hij
    -- the query from the `i`-th number on takes a final part of the list, with the `i`-th in it
    have hquery : ∀ p (hp : p < field.numbers.length), _ ≤ p ↔ _ := fun p hp =>
      (hwell.contains_atLeast hfield field.numbers[i].value hp).symm.trans
        ((hall _ (by simp [atLeast, Expr.nonGeo]) _).trans (hwell.holds_atLeast hfield _ hp))
    exact (hquery j hj).1 (((hquery i hi).2 le_rfl).trans hij.le)
  · intro hord expr _ id
    rw [(PersistedIndex.holds_index hwell hord).contains_evaluate id, Option.any_eq_true]

/-- A library that prints the numbers 0, −0 and 1 as `strconv` does. -/
def sampleLibrary : Library :=
  .sample fun bits => bytes (if bits = 0 then "0" else if bits.msb then "-0" else "1")

def zero : Float64 := ⟨0, by decide⟩

def one : Float64 := ⟨0x3ff0000000000000, by decide⟩

/-- Two records with the numbers 1 and 0 in a field `a`, listed in the given order. -/
def numbersFile (numbers : List NumericEntry) : PersistedIndex :=
  ⟨1, 2, [{
    name := bytes "a"
    values := [(1, .float64 one.bits), (2, .float64 zero.bits)]
    postings := [(bytes "d:1", [1]), (bytes "d:0", [2])]
    numbers := numbers }]⟩

lemma loadBinary_of_isOk (h : (loadBinary lib file recordCount).isOk) :
    loadBinary lib file recordCount = .ok (file.index recordCount) := by
  cases hload : loadBinary lib file recordCount with
  | error e => simp [hload, Except.isOk, Except.toBool] at h
  | ok idx => rw [(loadBinary_eq_ok.1 hload).2]

/-- With the numbers out of order, the record with the number 1 is not among those with a
number of at least 1. -/
theorem unordered_file_answers_wrongly :
    ∃ idx row, loadBinary sampleLibrary (numbersFile [⟨one, 1⟩, ⟨zero, 2⟩]) 2 = .ok idx ∧
      (numbersFile [⟨one, 1⟩, ⟨zero, 2⟩]).rows 2 1 = some row ∧
      (Expr.predicate (bytes "a") (.opRange .gte (.float64 one.bits))).holds sampleLibrary row =
        true ∧
      (idx.evaluate sampleLibrary
        (.predicate (bytes "a") (.opRange .gte (.float64 one.bits)))).contains 1 = false :=
  ⟨_, _, loadBinary_of_isOk (by decide +kernel), rfl, by decide +kernel, by decide +kernel⟩

theorem ordered_file_answers_correctly :
    ∃ idx, loadBinary sampleLibrary (numbersFile [⟨zero, 2⟩, ⟨one, 1⟩]) 2 = .ok idx ∧
      ∀ expr : Expr, expr.nonGeo = true → ∀ id,
        (idx.evaluate sampleLibrary expr).contains id = true ↔
          ∃ row, (numbersFile [⟨zero, 2⟩, ⟨one, 1⟩]).rows 2 id = some row ∧
            expr.holds sampleLibrary row = true := by
  have hload : loadBinary sampleLibrary (numbersFile [⟨zero, 2⟩, ⟨one, 1⟩]) 2 = .ok _ :=
    loadBinary_of_isOk (by decide +kernel)
  refine ⟨_, hload, (loaded_filters_correct_iff _ _ _ _ hload).2 ?_⟩
  simp only [numbersFile, mem_singleton, forall_eq, Ordered]
  decide +kernel

end GideonDB.Metadata
