import Mathlib.Tactic

/-!
# Machine words

The conversions of C between unbounded integers and the fixed-width types the
program computes in.  A value of a fixed-width type is the integer it stands for;
every operation that can leave the range of the type is followed by its conversion.

* `i32`, `u32`, `u64` — conversion to 32-bit `int` and `unsigned`, and to 64-bit words.
* `add64`, `sub64` — addition and subtraction of 64-bit unsigned words.
* `truncate`, `roundAway` — from floating point to integers; `truncate_add_half_iff` says when
  adding a half before truncation rounds to a nearest integer.
-/

namespace OsmoTrx

/-- Conversion to a 32-bit `int`. -/
def i32 (x : ℤ) : ℤ := Int.bmod x (2 ^ 32)

/-- Conversion to a 32-bit `unsigned`. -/
def u32 (x : ℤ) : ℤ := x % 2 ^ 32

/-- Conversion to a 64-bit unsigned word. -/
def u64 (x : ℤ) : ℤ := x % 2 ^ 64

theorem i32_eq_self {x : ℤ} (hlo : -2 ^ 31 ≤ x) (hhi : x < 2 ^ 31) : i32 x = x := by
  unfold i32
  exact Int.bmod_eq_of_le_mul_two (by omega) (by omega)

theorem i32_natCast {n : ℕ} (h : n < 2 ^ 31) : i32 n = n := i32_eq_self (by omega) (by omega)

theorem i32_range (x : ℤ) : -2 ^ 31 ≤ i32 x ∧ i32 x < 2 ^ 31 := by
  have h1 := Int.le_bmod (x := x) (m := 2 ^ 32) (by norm_num)
  have h2 := Int.bmod_lt (x := x) (m := 2 ^ 32) (by norm_num)
  unfold i32
  norm_num at h1 h2 ⊢
  exact ⟨h1, h2⟩

theorem u32_eq_self {x : ℤ} (hlo : 0 ≤ x) (hhi : x < 2 ^ 32) : u32 x = x :=
  Int.emod_eq_of_lt hlo hhi

theorem u64_eq_self {x : ℤ} (hlo : 0 ≤ x) (hhi : x < 2 ^ 64) : u64 x = x :=
  Int.emod_eq_of_lt hlo hhi

/-- A difference of `unsigned` values as an `int`. -/
theorem i32_sub_u32 (a b : ℤ) : i32 (u32 (u32 a - u32 b)) = i32 (a - b) := by
  unfold i32 u32
  rw [Int.emod_sub_emod, Int.sub_emod_emod]
  exact_mod_cast Int.emod_bmod (x := a - b) (n := 2 ^ 32)

/-- The result of an `int` operation, if it is one: overflow is undefined. -/
def checkedInt (x : ℤ) : Option ℤ := if -2 ^ 31 ≤ x ∧ x < 2 ^ 31 then some x else none

/-- Addition of 64-bit unsigned words. -/
def add64 (a b : ℕ) : ℕ := (a + b) % 2 ^ 64

/-- Subtraction of 64-bit unsigned words. -/
def sub64 (a b : ℕ) : ℕ := (a + (2 ^ 64 - b % 2 ^ 64)) % 2 ^ 64

theorem add64_eq {a b : ℕ} (h : a + b < 2 ^ 64) : add64 a b = a + b := Nat.mod_eq_of_lt h

theorem sub64_eq {a b : ℕ} (hle : b ≤ a) (ha : a < 2 ^ 64) : sub64 a b = a - b := by
  unfold sub64
  rw [Nat.mod_eq_of_lt (show b < 2 ^ 64 by omega),
    show a + (2 ^ 64 - b) = a - b + 2 ^ 64 by omega, Nat.add_mod_right]
  exact Nat.mod_eq_of_lt (by omega)

/-! ## From floating point -/

/-- Conversion to an integer type, which drops the fraction. -/
def truncate (x : ℚ) : ℤ := if 0 ≤ x then ⌊x⌋ else ⌈x⌉

/-- `round`, which takes halves away from zero. -/
def roundAway (x : ℚ) : ℤ := if 0 ≤ x then ⌊x + 1 / 2⌋ else ⌈x - 1 / 2⌉

theorem abs_truncate_le (x : ℚ) : |(truncate x : ℚ)| ≤ |x| := by
  unfold truncate
  split_ifs with h
  · have hfloor : (0 : ℚ) ≤ ⌊x⌋ := by exact_mod_cast Int.floor_nonneg.mpr h
    rw [abs_of_nonneg hfloor, abs_of_nonneg h]
    exact Int.floor_le x
  · have hceil : ((⌈x⌉ : ℤ) : ℚ) ≤ 0 := by
      exact_mod_cast Int.ceil_le.mpr (by exact_mod_cast (not_le.mp h).le)
    rw [abs_of_nonpos hceil, abs_of_neg (not_le.mp h)]
    exact neg_le_neg (Int.le_ceil x)

theorem abs_floor_add_half_sub_le (x : ℚ) : |(⌊x + 1 / 2⌋ : ℚ) - x| ≤ 1 / 2 := by
  have hlo := Int.floor_le (x + 1 / 2)
  have hhi := Int.lt_floor_add_one (x + 1 / 2)
  rw [abs_le]
  constructor <;> linarith

theorem abs_roundAway_sub_le (x : ℚ) : |(roundAway x : ℚ) - x| ≤ 1 / 2 := by
  unfold roundAway
  split_ifs
  · exact abs_floor_add_half_sub_le x
  · have hlo := Int.le_ceil (x - 1 / 2)
    have hhi := Int.ceil_lt_add_one (x - 1 / 2)
    rw [abs_le]
    constructor <;> linarith

/-- **Adding a half and truncating** rounds to a nearest integer where the sum is not negative, or
is an integer. -/
theorem truncate_add_half_iff (x : ℚ) :
    |(truncate (x + 1 / 2) : ℚ) - x| ≤ 1 / 2 ↔ 0 ≤ x + 1 / 2 ∨ (⌈x + 1 / 2⌉ : ℚ) = x + 1 / 2 := by
  unfold truncate
  split_ifs with h
  · simp only [h, true_or, iff_true]
    exact abs_floor_add_half_sub_le x
  · have hceil := Int.le_ceil (x + 1 / 2)
    simp only [h, false_or]
    constructor
    · intro habs
      have hle := (abs_le.mp habs).2
      linarith
    · intro heq
      rw [heq, abs_le]
      constructor <;> linarith

end OsmoTrx
