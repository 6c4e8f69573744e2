/-
Filter expressions (`Expr`, `Index.Evaluate`, `Index.predicate` and `Index.geoRadius` in
`metadata/filter.go`) and their meaning.

`Expr.holds` is what a filter means for one record's metadata.  The index answers every
filter as a scan over the records would (`evaluate_eq_scan`).  What a geographical filter
means includes its bounding box, since nothing is said here about the geometry that makes
the box superfluous.
-/
import GideonDB.Metadata.Index

namespace GideonDB.Metadata

open Go OrdinalSet List

/-- A predicate on a field: an `Operator` with its operand. -/
inductive Test
  | opEq (value : Value)
  | opNe (value : Value)
  /-- `OpGT`, `OpGTE`, `OpLT` and `OpLTE`. -/
  | opRange (operator : RangeOperator) (value : Value)
  | opIn (values : List Value)
  | opNotIn (values : List Value)
  | opExists (wanted : Bool)
  | opText (text : GoString)

/-- `Expr`, by its kind. -/
inductive Expr
  /-- The nil expression, which filters nothing. -/
  | nil
  | predicate (field : GoString) (test : Test)
  | and (children : List Expr)
  | or (children : List Expr)
  | not (child : Expr)
  | geo (radius : GeoRadius)

mutual

/-- The filter looks at no places. -/
def Expr.nonGeo : Expr → Bool
  | .nil | .predicate .. => true
  | .and children | .or children => Expr.allNonGeo children
  | .not child => child.nonGeo
  | .geo _ => false

/-- None of them does. -/
def Expr.allNonGeo : List Expr → Bool
  | [] => true
  | child :: children => child.nonGeo && Expr.allNonGeo children

end

/-- Whether the outcome of a comparison is one the operator asks for. -/
def RangeOperator.accepts : RangeOperator → Ordering → Bool
  | .gt, ordering => ordering.isGT
  | .gte, ordering => ordering.isGE
  | .lt, ordering => ordering.isLT
  | .lte, ordering => ordering.isLE

/-! ### What a filter means -/

/-- The test on one value. -/
def Test.holds (lib : Library) (value? : Option Value) : Test → Bool
  | .opEq target => value?.any fun value => lib.canonical value == lib.canonical target
  | .opNe target => value?.any fun value => lib.canonical value != lib.canonical target
  | .opRange operator target =>
    value?.any fun value => (lib.compare value target).any operator.accepts
  | .opIn targets =>
    value?.any fun value => targets.any fun target => lib.canonical value == lib.canonical target
  | .opNotIn targets =>
    value?.any fun value => targets.all fun target => lib.canonical value != lib.canonical target
  | .opExists wanted => value?.isSome == wanted
  | .opText text =>
    value?.any fun
      | .string s => lib.containsWords s (lib.textWords text)
      | _ => false

/-- A number compares with the target as the operator asks. -/
def inRange (number? : Option Float64) (operator : RangeOperator) (target : Float64) : Bool :=
  number?.any (rangeMatches · operator target)

/-- A record with this value for its longitude can be in the box. -/
def Longitudes.holds (lib : Library) (value? : Option Value) : Longitudes → Bool
  | .unbounded => true
  | .around => value?.isSome
  | .crossing first last =>
    inRange (value?.bind lib.number) .gte first || inRange (value?.bind lib.number) .lte last
  | .between first last =>
    inRange (value?.bind lib.number) .gte first && inRange (value?.bind lib.number) .lte last

/-- The place of a record is near enough. -/
def GeoRadius.near (lib : Library) (radius : GeoRadius) (lat? lon? : Option Value) : Bool :=
  (lat?.bind lib.number).any fun lat => (lon?.bind lib.number).any (lib.geoWithin radius lat)

/-- The place of the row is in the bounding box, and near enough. -/
def GeoRadius.holds (lib : Library) (row : Index.Row) (radius : GeoRadius) : Bool :=
  inRange ((row radius.latField).bind lib.number) .gte (lib.geoLatitudes radius).1 &&
    inRange ((row radius.latField).bind lib.number) .lte (lib.geoLatitudes radius).2 &&
    (lib.geoLongitudes radius).holds lib (row radius.lonField) &&
    radius.near lib (row radius.latField) (row radius.lonField)

mutual

/-- The filter on one record. -/
def Expr.holds (lib : Library) (row : Index.Row) : Expr → Bool
  | .nil => true
  | .predicate field test => test.holds lib (row field)
  | .and children => Expr.holdsAll lib row children
  | .or children => Expr.holdsAny lib row children
  | .not child => !child.holds lib row
  | .geo radius => radius.holds lib row

/-- All of them hold. -/
def Expr.holdsAll (lib : Library) (row : Index.Row) : List Expr → Bool
  | [] => true
  | child :: children => child.holds lib row && Expr.holdsAll lib row children

/-- One of them holds. -/
def Expr.holdsAny (lib : Library) (row : Index.Row) : List Expr → Bool
  | [] => false
  | child :: children => child.holds lib row || Expr.holdsAny lib row children

end

namespace Index

/-! ### What the index computes -/

/-- `blank`. -/
def blank (idx : Index) : OrdinalSet := newSet (idx.universeSet.words.length * 64)

/-- The ordinals with this value. -/
def postingSet (lib : Library) (idx : Index) (field : GoString) (value : Value) : OrdinalSet :=
  ((idx.postings.getD field .empty).getD (lib.canonical value) .new).set
    (idx.universeSet.words.length * 64 - 1)

/-- `numericRange`. -/
def numericRange (idx : Index) (field : GoString) (operator : RangeOperator) (target : Float64) :
    OrdinalSet :=
  match idx.numeric.get field with
  | none => idx.blank
  | some numeric => numeric.range (idx.universeSet.words.length * 64) operator target

/-- The loop over the values of a field that adds those that pass a check. -/
def scanValues (idx : Index) (field : GoString) (check : Value → Bool) : OrdinalSet :=
  (((idx.values.getD field .empty).toList.filter fun (_, value) => check value).map
    Prod.fst).foldl OrdinalSet.add idx.blank

/-- `predicate`. -/
def predicate (lib : Library) (idx : Index) (field : GoString) : Test → OrdinalSet
  | .opExists wanted =>
    let existing := idx.present.getD field (newSet 0)
    if wanted then existing else idx.universeSet.difference existing
  | .opEq value => idx.postingSet lib field value
  | .opNe value =>
    (idx.present.getD field (newSet 0)).difference (idx.postingSet lib field value)
  | .opText text =>
    let words := lib.textWords text
    idx.scanValues field fun
      | .string s => lib.containsWords s words
      | _ => false
  | .opIn values =>
    values.foldl (fun matched value => matched.union (idx.postingSet lib field value)) idx.blank
  | .opNotIn values =>
    (idx.present.getD field (newSet 0)).difference
      (values.foldl (fun matched value => matched.union (idx.postingSet lib field value))
        idx.blank)
  | .opRange operator value =>
    match lib.number value with
    | some target => idx.numericRange field operator target
    | none => idx.scanValues field fun v => (lib.compare v value).any operator.accepts

/-- The candidates that are left when the longitudes of the box are looked at. -/
def intersectLongitudes (idx : Index) (field : GoString) (candidates : OrdinalSet) :
    Longitudes → OrdinalSet
  | .unbounded => candidates
  | .around => candidates.intersect (idx.present.getD field (newSet 0))
  | .crossing first last =>
    candidates.intersect
      ((idx.numericRange field .gte first).union (idx.numericRange field .lte last))
  | .between first last =>
    candidates.intersect
      ((idx.numericRange field .gte first).intersect (idx.numericRange field .lte last))

/-- `geoRadius`. -/
def geoRadius (lib : Library) (idx : Index) (radius : GeoRadius) : OrdinalSet :=
  let latitudes := (idx.numericRange radius.latField .gte (lib.geoLatitudes radius).1).intersect
    (idx.numericRange radius.latField .lte (lib.geoLatitudes radius).2)
  let candidates := idx.intersectLongitudes radius.lonField latitudes (lib.geoLongitudes radius)
  let lats := idx.values.getD radius.latField .empty
  let lons := idx.values.getD radius.lonField .empty
  (candidates.setIDs.filter fun id => radius.near lib (lats.get id) (lons.get id)).foldl
    OrdinalSet.add idx.blank

mutual

/-- `Evaluate`. -/
def evaluate (lib : Library) (idx : Index) : Expr → OrdinalSet
  | .nil => idx.universeSet
  | .and children => evaluateAll lib idx idx.universeSet children
  | .or children => evaluateAny lib idx idx.blank children
  | .not child => idx.universeSet.difference (evaluate lib idx child)
  | .predicate field test => idx.predicate lib field test
  | .geo radius => idx.geoRadius lib radius

/-- The loop of `and`. -/
def evaluateAll (lib : Library) (idx : Index) (result : OrdinalSet) : List Expr → OrdinalSet
  | [] => result
  | child :: children =>
    evaluateAll lib idx (result.intersect (evaluate lib idx child)) children

/-- The loop of `or`. -/
def evaluateAny (lib : Library) (idx : Index) (result : OrdinalSet) : List Expr → OrdinalSet
  | [] => result
  | child :: children =>
    evaluateAny lib idx (result.union (evaluate lib idx child)) children

end

/-! ### Predicates -/

variable {lib : Library} {column : Column} {idx : Index} {field : GoString}

@[simp] lemma contains_blank (idx : Index) (id : ℕ) : idx.blank.contains id = false :=
  contains_newSet _ _

lemma counted_blank (idx : Index) : idx.blank.Counted := counted_newSet _

section

variable (h : HoldsField lib column idx field)

include h

lemma HoldsField.contains_postingSet (value : Value) (id : ℕ) :
    (idx.postingSet lib field value).contains id =
      (column id).any (lib.canonical · == lib.canonical value) := by
  rw [postingSet, (Posting.set_spec (h.valid _) _).2, h.postings]

lemma HoldsField.contains_postingSets (values : List Value) (matched : OrdinalSet) (id : ℕ) :
    (values.foldl (fun matched value => matched.union (idx.postingSet lib field value))
      matched).contains id = (matched.contains id || (column id).any fun value =>
        values.any fun target => lib.canonical value == lib.canonical target) := by
  induction values generalizing matched with
  | nil => cases column id <;> simp
  | cons value values ih =>
    rw [foldl_cons, ih, contains_union, h.contains_postingSet]
    cases column id <;> simp [Bool.or_assoc]

lemma HoldsField.contains_scanValues (check : Value → Bool) (id : ℕ) :
    (idx.scanValues field check).contains id = (column id).any check := by
  rw [scanValues, contains_foldl_add, contains_blank, Bool.or_false,
    Bool.eq_iff_iff, decide_eq_true_iff, mem_map]
  simp only [mem_filter, Option.any_eq_true]
  constructor
  · rintro ⟨⟨id', value⟩, ⟨hmem, hcheck⟩, rfl⟩
    exact ⟨value, by rw [← h.values, ← GoMap.mem_toList]; exact hmem, hcheck⟩
  · rintro ⟨value, hvalue, hcheck⟩
    exact ⟨(id, value), ⟨GoMap.mem_toList.2 (by rw [h.values, hvalue]), hcheck⟩, rfl⟩

end

lemma compare_number {value target : Value} {a b : Float64} (ha : lib.number value = some a)
    (hb : lib.number target = some b) (operator : RangeOperator) :
    (lib.compare value target).any operator.accepts = rangeMatches a operator b := by
  simp only [Library.compare, ha, hb, Float64.lt, decide_eq_true_eq]
  rcases lt_trichotomy a.key b.key with hlt | heq | hgt
  · cases operator <;>
      simp [hlt, hlt.le, hlt.not_gt, hlt.not_ge, rangeMatches, RangeOperator.accepts, Float64.lt,
        Float64.le]
  · cases operator <;>
      simp [heq, rangeMatches, RangeOperator.accepts, Float64.lt, Float64.le]
  · cases operator <;>
      simp [hgt, hgt.le, hgt.not_gt, hgt.not_ge, rangeMatches, RangeOperator.accepts, Float64.lt,
        Float64.le]

lemma compare_of_number_none {value target : Value} {b : Float64} (ha : lib.number value = none)
    (hb : lib.number target = some b) : lib.compare value target = none := by
  rw [Library.compare, ha]
  cases target <;> cases value <;> simp_all [Library.number]

lemma HoldsField.contains_numericRange (h : HoldsField lib column idx field)
    (operator : RangeOperator) (b : Float64) (id : ℕ) :
    (idx.numericRange field operator b).contains id =
      inRange ((column id).bind lib.number) operator b := by
  have hrange : (idx.numericRange field operator b).contains id ↔
      ∃ a : Float64, ((column id).bind lib.number).map Float64.key = some a.key ∧
        rangeMatches a operator b = true := by
    rw [← h.numeric.contains_range (idx.universeSet.words.length * 64), numericRange]
    cases hget : idx.numeric.get field with
    | none =>
      simp [GoMap.getD, hget, NumericField.range, NumericField.baseRange, NumericField.new]
      cases operator <;> simp
    | some numeric => simp [GoMap.getD, hget]
  rw [Bool.eq_iff_iff, hrange, inRange, Option.any_eq_true]
  constructor
  · rintro ⟨a, hkey, ha⟩
    obtain ⟨number, hnumber, heq⟩ := Option.map_eq_some_iff.1 hkey
    exact ⟨number, hnumber, by rwa [NumericField.rangeMatches_congr heq]⟩
  · rintro ⟨a, hnumber, ha⟩
    exact ⟨a, by rw [hnumber, Option.map_some], ha⟩

lemma inRange_number {target : Value} {b : Float64} (hb : lib.number target = some b)
    (operator : RangeOperator) (value? : Option Value) :
    inRange (value?.bind lib.number) operator b =
      value?.any fun value => (lib.compare value target).any operator.accepts := by
  cases value? with
  | none => rfl
  | some value =>
    cases ha : lib.number value with
    | none => simp [inRange, ha, compare_of_number_none ha hb]
    | some a => simp [inRange, ha, compare_number ha hb]

lemma counted_numericRange (idx : Index) (field : GoString) (operator : RangeOperator)
    (target : Float64) : (idx.numericRange field operator target).Counted := by
  rw [numericRange]
  split
  · exact counted_blank idx
  · exact NumericField.counted_range ..

lemma counted_postingSets (values : List Value) {matched : OrdinalSet} (h : matched.Counted) :
    (values.foldl (fun matched value => matched.union (idx.postingSet lib field value))
      matched).Counted := by
  induction values generalizing matched with
  | nil => exact h
  | cons value values ih => exact ih (counted_union _ _)

variable {rows : Rows}

lemma Holds.contains_predicate (h : Holds lib rows idx) (field : GoString) (test : Test) (id : ℕ) :
    (idx.predicate lib field test).contains id =
      (rows id).any fun row => test.holds lib (row field) := by
  have hfield := h.field field
  have hcol : columnOf rows field id = (rows id).bind (· field) := rfl
  cases test with
  | opEq value =>
    rw [predicate, hfield.contains_postingSet, hcol]
    cases rows id <;> simp [Test.holds]
  | opNe value =>
    rw [predicate, contains_difference, hfield.present, hfield.contains_postingSet,
      hcol]
    cases rows id with
    | none => simp
    | some row => cases hvalue : row field <;> simp [Test.holds, hvalue, bne]
  | opRange operator value =>
    rw [predicate]
    cases hnum : lib.number value with
    | some target =>
      simp only
      rw [hfield.contains_numericRange, inRange_number hnum, hcol]
      cases rows id <;> simp [Test.holds]
    | none =>
      simp only
      rw [hfield.contains_scanValues, hcol]
      cases rows id <;> simp [Test.holds]
  | opIn values =>
    rw [predicate, hfield.contains_postingSets, contains_blank, Bool.false_or, hcol]
    cases rows id <;> simp [Test.holds]
  | opNotIn values =>
    rw [predicate, contains_difference, hfield.present, hfield.contains_postingSets,
      contains_blank, Bool.false_or, hcol]
    cases rows id with
    | none => simp
    | some row =>
      cases hvalue : row field <;>
        simp [Test.holds, hvalue, bne, not_any_eq_all_not]
  | opExists wanted =>
    rw [predicate]
    cases wanted with
    | true =>
      simp only [if_true]
      rw [hfield.present, hcol]
      cases rows id <;> simp [Test.holds]
    | false =>
      simp only [Bool.false_eq_true, if_false]
      rw [contains_difference, h.universeSet, hfield.present, hcol]
      cases rows id <;> simp [Test.holds]
  | opText text =>
    rw [predicate, hfield.contains_scanValues, hcol]
    cases rows id <;> simp [Test.holds]

lemma Holds.counted_predicate (h : Holds lib rows idx) (field : GoString) (test : Test) :
    (idx.predicate lib field test).Counted := by
  cases test with
  | opEq value => exact (Posting.set_spec ((h.field field).valid _) _).1
  | opNe value => exact counted_difference _ _
  | opRange operator value =>
    rw [predicate]
    split
    · exact counted_numericRange ..
    · exact (counted_blank idx).foldl_add _
  | opIn values => exact counted_postingSets values (counted_blank idx)
  | opNotIn values => exact counted_difference _ _
  | opExists wanted =>
    rw [predicate]
    split
    · exact (h.field field).counted
    · exact counted_difference _ _
  | opText text => exact (counted_blank idx).foldl_add _

/-! ### Places -/

lemma HoldsField.contains_intersectLongitudes (h : HoldsField lib column idx field)
    (candidates : OrdinalSet) (longitudes : Longitudes) (id : ℕ) :
    (idx.intersectLongitudes field candidates longitudes).contains id =
      (candidates.contains id && longitudes.holds lib (column id)) := by
  cases longitudes with
  | unbounded => simp [intersectLongitudes, Longitudes.holds]
  | around =>
    rw [intersectLongitudes, contains_intersect, h.present, Longitudes.holds]
  | crossing first last =>
    rw [intersectLongitudes, contains_intersect, contains_union,
      h.contains_numericRange, h.contains_numericRange, Longitudes.holds]
  | between first last =>
    rw [intersectLongitudes, contains_intersect, contains_intersect,
      h.contains_numericRange, h.contains_numericRange, Longitudes.holds]

lemma Holds.contains_geoRadius (h : Holds lib rows idx) (radius : GeoRadius) (id : ℕ) :
    (idx.geoRadius lib radius).contains id = (rows id).any (radius.holds lib ·) := by
  have hlat := h.field radius.latField
  have hlon := h.field radius.lonField
  rw [geoRadius, contains_foldl_add, contains_blank, Bool.or_false, Bool.eq_iff_iff,
    decide_eq_true_iff, mem_filter, mem_setIDs, ← Bool.and_eq_true,
    hlon.contains_intersectLongitudes, contains_intersect, hlat.contains_numericRange,
    hlat.contains_numericRange, hlat.values, hlon.values]
  -- both columns are read off the one row
  cases hrow : rows id with
  | none => simp [columnOf, hrow, inRange]
  | some row => simp [columnOf, hrow, GeoRadius.holds]

/-! ### Expressions -/

mutual

lemma Holds.contains_evaluate (h : Holds lib rows idx) (id : ℕ) : ∀ expr : Expr,
    (idx.evaluate lib expr).contains id = (rows id).any (expr.holds lib ·)
  | .nil => by
      rw [evaluate, h.universeSet]
      cases rows id <;> simp [Expr.holds]
  | .predicate field test => by
      rw [evaluate, h.contains_predicate]
      simp only [Expr.holds]
  | .and children => by
      rw [evaluate, h.contains_evaluateAll id children fun hlive => by rwa [h.universeSet] at hlive,
        h.universeSet]
      cases rows id <;> simp [Expr.holds]
  | .or children => by
      rw [evaluate, h.contains_evaluateAny id, contains_blank, Bool.false_or]
      simp only [Expr.holds]
  | .not child => by
      rw [evaluate, contains_difference, h.universeSet, h.contains_evaluate id child]
      cases rows id <;> simp [Expr.holds]
  | .geo radius => by
      rw [evaluate, h.contains_geoRadius]
      simp only [Expr.holds]

lemma Holds.contains_evaluateAll (h : Holds lib rows idx) (id : ℕ) :
    ∀ {result : OrdinalSet} (children : List Expr),
      (result.contains id → (rows id).isSome) →
      (idx.evaluateAll lib result children).contains id =
        (result.contains id && (rows id).any (Expr.holdsAll lib · children))
  | result, [], hlive => by
      cases hrow : rows id <;> simp_all [evaluateAll, Expr.holdsAll]
  | result, child :: children, hlive => by
      rw [evaluateAll, h.contains_evaluateAll id children fun hboth => hlive (by
        rw [contains_intersect, Bool.and_eq_true] at hboth
        exact hboth.1), contains_intersect, h.contains_evaluate id child]
      cases rows id <;> simp [Expr.holdsAll, Bool.and_assoc]

lemma Holds.contains_evaluateAny (h : Holds lib rows idx) (id : ℕ) :
    ∀ {result : OrdinalSet} (children : List Expr),
      (idx.evaluateAny lib result children).contains id =
        (result.contains id || (rows id).any (Expr.holdsAny lib · children))
  | result, [] => by
      cases rows id <;> simp [evaluateAny, Expr.holdsAny]
  | result, child :: children => by
      rw [evaluateAny, h.contains_evaluateAny id, contains_union,
        h.contains_evaluate id child]
      cases rows id <;> simp [Expr.holdsAny, Bool.or_assoc]

end

lemma counted_evaluateAll {result : OrdinalSet} (hres : result.Counted)
    (children : List Expr) : (idx.evaluateAll lib result children).Counted := by
  induction children generalizing result with
  | nil => exact hres
  | cons child children ih => exact ih (counted_intersect _ _)

lemma counted_evaluateAny {result : OrdinalSet} (hres : result.Counted)
    (children : List Expr) : (idx.evaluateAny lib result children).Counted := by
  induction children generalizing result with
  | nil => exact hres
  | cons child children ih => exact ih (counted_union _ _)

lemma Holds.counted_evaluate (h : Holds lib rows idx) (expr : Expr) :
    (idx.evaluate lib expr).Counted := by
  cases expr with
  | nil => exact h.counted
  | predicate field test => exact h.counted_predicate field test
  | and children => exact counted_evaluateAll h.counted children
  | or children => exact counted_evaluateAny (counted_blank idx) children
  | not child => exact counted_difference _ _
  | geo radius => exact (counted_blank idx).foldl_add _

/-- The filter index equals a scan: after any run of updates a filter finds exactly the
live ordinals whose current metadata it holds of, and counts them right. -/
theorem evaluate_eq_scan (lib : Library) (updates : List Update) (expr : Expr) :
    (∀ id, ((run lib updates).evaluate lib expr).contains id = true ↔
      ∃ metadata, recordsOf updates id = some metadata ∧ expr.holds lib (scalar lib metadata) = true) ∧
    ((run lib updates).evaluate lib expr).len =
      Set.ncard {id | ((run lib updates).evaluate lib expr).contains id = true} := by
  have h := holds_run lib updates
  refine ⟨fun id => ?_, ?_⟩
  · rw [h.contains_evaluate id, rowsOf, Option.any_map, Option.any_eq_true]
  · exact (h.counted_evaluate expr).len_eq_ncard

end Index

end GideonDB.Metadata
