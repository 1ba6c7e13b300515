import Mathlib.Tactic

/-!
# Numbers as bytes

A number on the wire is a fixed count of bytes, the most significant one first or last.  The encoder
takes bytes off a two's complement number by shifts, so that negative numbers are encoded as well;
the decoder reads them as a natural number or, with the top bit as the sign, as an integer.

* `byteOf`, `toBytes` — the low byte of a number, and its `k` low bytes.
* `ofBytes`, `ofBytesSigned` — the two ways to read bytes.
* `ofBytes_toBytes`, `ofBytesSigned_toBytes` — the round trips.
* `toBytesLE`, `ofBytesLE` — the same with the least significant byte first.
-/

namespace OsmoTrx

/-- The low byte of a number, as of a conversion to `char`. -/
def byteOf (x : ℤ) : UInt8 := UInt8.ofNat (x % 256).toNat

theorem byteOf_toNat (x : ℤ) : ((byteOf x).toNat : ℤ) = x % 256 := by
  have hlo := Int.emod_nonneg x (show (256 : ℤ) ≠ 0 by norm_num)
  have hhi := Int.emod_lt_of_pos x (show (0 : ℤ) < 256 by norm_num)
  rw [byteOf, UInt8.toNat_ofNat']
  omega

/-- The `k` low bytes of a number, the most significant one first. -/
def toBytes : ℕ → ℤ → List UInt8
  | 0, _ => []
  | k + 1, x => toBytes k (x >>> (8 : ℕ)) ++ [byteOf x]

@[simp] theorem length_toBytes (k : ℕ) (x : ℤ) : (toBytes k x).length = k := by
  induction k generalizing x with
  | zero => rfl
  | succ k ih => simp [toBytes, ih]

/-- The number that bytes stand for, the most significant one first. -/
def ofBytes (l : List UInt8) : ℕ := l.foldl (fun n b => 256 * n + b.toNat) 0

theorem ofBytes_concat (l : List UInt8) (b : UInt8) :
    ofBytes (l ++ [b]) = 256 * ofBytes l + b.toNat := by
  simp [ofBytes]

/-- **Bytes of a number** read as a natural number. -/
theorem ofBytes_toBytes (k : ℕ) (x : ℤ) : (ofBytes (toBytes k x) : ℤ) = x % 256 ^ k := by
  induction k generalizing x with
  | zero => simp [toBytes, ofBytes]
  | succ k ih =>
    have hsplit : x % (256 * 256 ^ k) = x % 256 + 256 * (x / 256 % 256 ^ k) := by
      rw [Int.emod_def x (256 * 256 ^ k), Int.emod_def x 256, Int.emod_def (x / 256) (256 ^ k),
        ← Int.ediv_ediv_of_nonneg (by norm_num : (0 : ℤ) ≤ 256)]
      ring
    rw [toBytes, ofBytes_concat, pow_succ', hsplit]
    push_cast
    rw [ih, byteOf_toNat, Int.shiftRight_eq_div_pow, add_comm]
    norm_num

/-- The number that bytes stand for if the top bit is the sign. -/
def ofBytesSigned (l : List UInt8) : ℤ := Int.bmod (ofBytes l) (256 ^ l.length)

/-- **Bytes of a number** read as an integer. -/
theorem ofBytesSigned_toBytes {k : ℕ} {x : ℤ} (hlo : -(256 ^ k : ℕ) ≤ 2 * x)
    (hhi : 2 * x < (256 ^ k : ℕ)) : ofBytesSigned (toBytes k x) = x := by
  have hmod := ofBytes_toBytes k x
  rw [ofBytesSigned, length_toBytes, hmod]
  have hbmod := Int.emod_bmod x (256 ^ k)
  push_cast at hbmod
  rw [hbmod]
  exact Int.bmod_eq_of_le_mul_two (by omega) (by omega)

/-! ## The least significant byte first -/

/-- The `k` low bytes of a number, the least significant one first. -/
def toBytesLE (k : ℕ) (x : ℤ) : List UInt8 := (toBytes k x).reverse

/-- The number that bytes stand for, the least significant one first. -/
def ofBytesLE (l : List UInt8) : ℕ := ofBytes l.reverse

@[simp] theorem length_toBytesLE (k : ℕ) (x : ℤ) : (toBytesLE k x).length = k := by
  rw [toBytesLE, List.length_reverse, length_toBytes]

theorem ofBytesLE_toBytesLE (k : ℕ) (x : ℤ) : (ofBytesLE (toBytesLE k x) : ℤ) = x % 256 ^ k := by
  rw [ofBytesLE, toBytesLE, List.reverse_reverse, ofBytes_toBytes]

/-- A number of `k` bytes survives. -/
theorem ofBytesLE_toBytesLE_of_lt {k n : ℕ} (h : n < 256 ^ k) : ofBytesLE (toBytesLE k n) = n := by
  have hmod := ofBytesLE_toBytesLE k n
  rw [Int.emod_eq_of_lt (Int.natCast_nonneg n) (by exact_mod_cast h)] at hmod
  exact_mod_cast hmod

end OsmoTrx
