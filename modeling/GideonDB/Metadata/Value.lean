/-
Metadata values: which of them are scalars, which are numbers, how they are compared and
what their canonical text is (`validateScalar`, `number`, `compare`, `canonical` and the
word functions of `metadata/filter.go`).

What the standard library does with numbers and letters is left open (`Library`).  A finite
`float64` is ordered by its bits, sign and magnitude, so that the two zeros are different
values that compare as equal.
-/
import GideonDB.Go.Format
import GideonDB.Go.Map

namespace GideonDB.Metadata

open Go

/-! ### Floating-point numbers -/

/-- Neither NaN nor an infinity: the exponent is not all ones. -/
def isFinite (bits : BitVec 64) : Bool := bits.extractLsb 62 52 != BitVec.allOnes 11

/-- A finite `float64`, by its bits. -/
structure Float64 where
  /-- `math.Float64bits`. -/
  bits : BitVec 64
  finite : isFinite bits = true
deriving DecidableEq

namespace Float64

/-- The position of a number among all of them: its magnitude with its sign.  Both zeros
are at the same place. -/
def key (x : Float64) : ℤ :=
  if x.bits.msb then -((x.bits.toNat % 2 ^ 63 : ℕ) : ℤ) else (x.bits.toNat % 2 ^ 63 : ℕ)

def lt (a b : Float64) : Bool := a.key < b.key

def le (a b : Float64) : Bool := a.key ≤ b.key

def eq (a b : Float64) : Bool := a.key = b.key

/-- The number with the given bits, unless they stand for no finite number. -/
def ofBits (bits : BitVec 64) : Option Float64 :=
  if h : isFinite bits = true then some ⟨bits, h⟩ else none

end Float64

/-! ### Values -/

/-- A value, by its Go type. -/
inductive Value
  /-- JSON `null`. -/
  | nil
  | string (s : GoString)
  | bool (b : Bool)
  /-- A value of one of the ten integer types. -/
  | integer (n : ℤ)
  | float32 (bits : BitVec 32)
  | float64 (bits : BitVec 64)
  /-- A `json.Number`. -/
  | jsonNumber (text : GoString)
  /-- Anything else, with what `fmt.Sprint` makes of it. -/
  | other (text : GoString)
deriving DecidableEq

/-- `GeoRadius`: a place, a distance, and the fields in which a record has its own place. -/
structure GeoRadius where
  latField : GoString
  lonField : GoString
  lat : Float64
  lon : Float64
  meters : Float64

/-- The longitudes of a bounding box, by the case of `geoRadius` that finds them. -/
inductive Longitudes
  /-- The box reaches a pole, and longitudes are not looked at. -/
  | unbounded
  /-- The box goes around the globe. -/
  | around
  /-- The box crosses the date line. -/
  | crossing (first last : Float64)
  | between (first last : Float64)

/-- The functions of the language and the standard library that the index rests on. -/
structure Library where
  /-- The conversion `float64(n)` of an integer. -/
  floatOfInt : ℤ → BitVec 64
  /-- The conversion `float64(x)` of a `float32`. -/
  floatOfFloat32 : BitVec 32 → BitVec 64
  /-- `json.Number.Float64`, with `none` for its errors. -/
  parseFloat : GoString → Option (BitVec 64)
  /-- `strconv.ParseInt` in base 10 with 64 bits, with `none` for its errors. -/
  parseInt : GoString → Option ℤ
  /-- `strconv.ParseUint` in base 10 with 64 bits, with `none` for its errors. -/
  parseUint : GoString → Option ℤ
  /-- `strconv.FormatFloat` with format `'g'`, precision -1 and 32 bits. -/
  formatFloat32 : BitVec 32 → GoString
  /-- `strconv.FormatFloat` with format `'g'`, precision -1 and 64 bits. -/
  formatFloat64 : BitVec 64 → GoString
  /-- `strings.ToLower`. -/
  toLower : GoString → GoString
  /-- `strings.FieldsFunc`, cutting at everything that is no letter and no digit. -/
  fields : GoString → List GoString
  /-- The latitudes of the bounding box in `geoRadius`. -/
  geoLatitudes : GeoRadius → Float64 × Float64
  /-- The longitudes of that box. -/
  geoLongitudes : GeoRadius → Longitudes
  /-- `haversineMeters` from the place to a latitude and a longitude is at most the distance. -/
  geoWithin : GeoRadius → Float64 → Float64 → Bool

/-- A library for samples.  It prints numbers as given and knows no other number, word or place. -/
def Library.sample (formatFloat64 : BitVec 64 → GoString) : Library where
  floatOfInt _ := 0
  floatOfFloat32 _ := 0
  parseFloat _ := none
  parseInt _ := none
  parseUint _ := none
  formatFloat32 _ := []
  formatFloat64 := formatFloat64
  toLower := id
  fields _ := []
  geoLatitudes geo := (geo.lat, geo.lat)
  geoLongitudes _ := .unbounded
  geoWithin _ _ _ := false

/-- `strconv.FormatInt` in base 10. -/
def formatInt (n : ℤ) : GoString :=
  if n < 0 then 45 :: formatUint n.natAbs else formatUint n.natAbs

namespace Library

variable (lib : Library)

/-- `number`: the value as a finite `float64`. -/
def number : Value → Option Float64
  | .float64 bits => Float64.ofBits bits
  | .float32 bits => Float64.ofBits (lib.floatOfFloat32 bits)
  | .integer n => Float64.ofBits (lib.floatOfInt n)
  | .jsonNumber text => (lib.parseFloat text).bind Float64.ofBits
  | _ => none

/-- `validateScalar` finds nothing to object to. -/
def isScalar : Value → Bool
  | .nil | .string _ | .bool _ | .integer _ => true
  | .float32 bits => (lib.number (.float32 bits)).isSome
  | .float64 bits => (lib.number (.float64 bits)).isSome
  | .jsonNumber text => (lib.number (.jsonNumber text)).isSome
  | .other _ => false

/-- `canonical`: the text under which a value is found by equality. -/
def canonical : Value → GoString
  | .nil => bytes "n:"
  | .string s => bytes "s:" ++ s
  | .bool b => bytes "b:" ++ bytes (if b then "true" else "false")
  | .integer n => bytes "d:" ++ formatInt n
  | .float32 bits => bytes "d:" ++ lib.formatFloat32 bits
  | .float64 bits => bytes "d:" ++ lib.formatFloat64 bits
  | .jsonNumber text =>
    match lib.parseInt text, lib.parseUint text, lib.parseFloat text with
    | some n, _, _ => bytes "d:" ++ formatInt n
    | none, some n, _ => bytes "d:" ++ formatInt n
    | none, none, some bits => bytes "d:" ++ lib.formatFloat64 bits
    | none, none, none => bytes "?:" ++ text
  | .other text => bytes "?:" ++ text

/-- `compare`: the order of two numbers or two strings, `none` if the values are not
comparable. -/
def compare (left right : Value) : Option Ordering :=
  match lib.number left with
  | some a =>
    match lib.number right with
    | none => none
    | some b => if a.lt b then some .lt else if b.lt a then some .gt else some .eq
  | none =>
    match left, right with
    | .string a, .string b =>
      some (if a = b then .eq else if leString a b then .lt else .gt)
    | _, _ => none

/-- `textWords`. -/
def textWords (text : GoString) : List GoString := lib.fields (lib.toLower text)

/-- `containsWords`. -/
def containsWords (value : GoString) (words : List GoString) : Bool :=
  words.all fun word => word ∈ lib.textWords value

end Library

end GideonDB.Metadata
