/-
Fixed-width numbers in byte slices: `binary.LittleEndian`, and the slice expression `s[i:j]`.

Writing a number in `width` bytes keeps it modulo `256 ^ width`.
-/
import GideonDB.Go.Strings

namespace GideonDB.Go

/-- `binary.LittleEndian.PutUint16`, `PutUint32` and `PutUint64`, for 2, 4 and 8 bytes. -/
def littleEndian : ℕ → ℕ → GoString
  | 0, _ => []
  | width + 1, n => UInt8.ofNat n :: littleEndian width (n / 256)

/-- `binary.LittleEndian.Uint16`, `Uint32` and `Uint64`. -/
def ofLittleEndian : GoString → ℕ
  | [] => 0
  | b :: rest => b.toNat + 256 * ofLittleEndian rest

@[simp] lemma ofLittleEndian_littleEndian (width n : ℕ) :
    ofLittleEndian (littleEndian width n) = n % 256 ^ width := by
  induction width generalizing n with
  | zero => simp [littleEndian, ofLittleEndian, Nat.mod_one]
  | succ width ih =>
    have hpow : 256 ^ (width + 1) = 256 * 256 ^ width := pow_succ' 256 width
    rw [littleEndian, ofLittleEndian, ih, UInt8.toNat_ofNat', hpow, Nat.mod_mul]

/-- `s[i:j]`. -/
def slice (s : GoString) (i j : ℕ) : GoString := (s.take j).drop i

end GideonDB.Go
