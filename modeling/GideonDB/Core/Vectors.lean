/-
Vectors and the precision at which named vector fields store them (`core/vectors.go`).

A `float32` is its bit pattern; nothing here computes with the numbers except the
conversions to and from the two half-precision formats, which the source writes on the
bits.
-/
import Mathlib.Data.Nat.Log

namespace GideonDB.Core

/-- A vector of `float32` values, each by its bits.  A nil slice is the empty list. -/
abbrev FloatVector := List (BitVec 32)

/-- `Datatype`. -/
inductive Datatype
  | float32 | float16 | bfloat16
deriving DecidableEq, Repr

/-- `IndexType`. -/
inductive IndexType
  | flat | hnsw | diskann
deriving DecidableEq, Repr

/-- A declared named vector field, normalized (`core.VectorField`).  The metric and the
search parameters of its index are left out: no write reads them. -/
structure VectorField where
  dimension : ℕ
  indexType : IndexType
  datatype : Datatype
  multiVector : Bool
deriving DecidableEq, Repr

/-! ### Half precision -/

/-- `Float32ToBFloat16`: round to nearest even; a NaN stays a quiet NaN. -/
def float32ToBFloat16 (bits : BitVec 32) : BitVec 16 :=
  if bits &&& 0x7fffffff > 0x7f800000 then (bits >>> 16).setWidth 16 ||| 0x40
  else ((bits + (0x7fff + (bits >>> 16 &&& 1))) >>> 16).setWidth 16

def bfloat16ToFloat32 (code : BitVec 16) : BitVec 32 := code.setWidth 32 <<< 16

/-- One more if the bits dropped by a shift are above one half, or are one half and the
kept number is odd. -/
def roundHalfEven (half remainder midpoint : BitVec 32) : BitVec 32 :=
  if remainder > midpoint ∨ (remainder = midpoint ∧ half &&& 1 = 1) then half + 1 else half

def float32ToFloat16 (bits : BitVec 32) : BitVec 16 :=
  let sign : BitVec 16 := (bits >>> 16).setWidth 16 &&& 0x8000
  let exponent : ℤ := (bits >>> 23 &&& 0xff).toNat - 127 + 15
  let mantissa := bits &&& 0x7fffff
  if bits &&& 0x7fffffff > 0x7f800000 then sign ||| 0x7e00
  else if exponent ≥ 0x1f then sign ||| 0x7c00
  else if exponent ≤ 0 then
    -- a subnormal half: the implicit bit is shifted in with the mantissa
    if exponent < -10 then sign
    else
      let mantissa := mantissa ||| 0x800000
      let shift := (14 - exponent).toNat
      let half := mantissa >>> shift
      let remainder := mantissa &&& (1 <<< shift - 1)
      sign ||| (roundHalfEven half remainder (1 <<< (shift - 1))).setWidth 16
  else
    let half := BitVec.ofInt 32 exponent <<< 10 ||| mantissa >>> 13
    sign ||| (roundHalfEven half (mantissa &&& 0x1fff) 0x1000).setWidth 16

/-- The bits of `float32(mantissa) / (1 << 24)` for `0 < mantissa < 1024`; the quotient is
exact. -/
def subnormalToFloat32 (mantissa : BitVec 32) : BitVec 32 :=
  let top := Nat.log 2 mantissa.toNat
  BitVec.ofNat 32 (top + 103) <<< 23 ||| (mantissa <<< (23 - top) &&& 0x7fffff)

def float16ToFloat32 (code : BitVec 16) : BitVec 32 :=
  let sign : BitVec 32 := (code &&& 0x8000).setWidth 32 <<< 16
  let exponent : BitVec 32 := (code >>> 10).setWidth 32 &&& 0x1f
  let mantissa : BitVec 32 := (code &&& 0x3ff).setWidth 32
  if exponent = 0x1f then sign ||| 0x7f800000 ||| mantissa <<< 13
  else if exponent = 0 then
    if mantissa = 0 then sign else sign ||| subnormalToFloat32 mantissa
  else sign ||| (exponent + 127 - 15) <<< 23 ||| mantissa <<< 13

def roundToDatatype : Datatype → FloatVector → FloatVector
  | .float16, vector => vector.map fun value => float16ToFloat32 (float32ToFloat16 value)
  | .bfloat16, vector => vector.map fun value => bfloat16ToFloat32 (float32ToBFloat16 value)
  | .float32, vector => vector

/-- One third is not a half-precision number, one half is. -/
example : roundToDatatype .float16 [0x3eaaaaab, 0x3f000000] = [0x3eaaa000, 0x3f000000] ∧
    roundToDatatype .bfloat16 [0x3eaaaaab, 0x3f000000] = [0x3eab0000, 0x3f000000] := by
  decide +kernel

end GideonDB.Core
