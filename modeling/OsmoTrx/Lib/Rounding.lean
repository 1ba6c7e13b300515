import Mathlib.Data.Int.Log
import OsmoTrx.Lib.Word

/-!
# Rounding to even

The default rounding of floating-point units, on rational numbers, beside the conversion of C that
drops the fraction.

* `roundEven`, `floatOfInt` — to an integer, and from an integer to single precision.
* `roundFloat` — to single precision; `roundFloat_relative` bounds its error, and
  `ceil_roundFloat_div` says that rounding a quotient up is not disturbed by it.
* `roundEven_mem`, `truncate_mem` — neither leaves a range between integers.
* `roundEven_eq_truncate_iff` — **when rounding and dropping the fraction agree**.
-/

namespace OsmoTrx

/-- Rounding to a nearest integer, from between two to the even one. -/
def roundEven (x : ℚ) : ℤ :=
  if Int.fract x < 1 / 2 then ⌊x⌋
  else if 1 / 2 < Int.fract x then ⌊x⌋ + 1
  else if Even ⌊x⌋ then ⌊x⌋ else ⌊x⌋ + 1

/-- An integer as a `float`, which has 24 bits for it. -/
def floatOfInt (x : ℤ) : ℚ :=
  let ulp : ℕ := 2 ^ (x.natAbs.log2 - 23)
  roundEven (x / ulp) * ulp

@[simp] theorem roundEven_intCast (n : ℤ) : roundEven n = n := by
  rw [roundEven, Int.fract_intCast, if_pos (by norm_num), Int.floor_intCast]

@[simp] theorem truncate_intCast (n : ℤ) : truncate n = n := by
  rw [truncate, Int.floor_intCast, Int.ceil_intCast, ite_self]

/-- Integers of 24 bits are exact. -/
theorem floatOfInt_eq_self {x : ℤ} (h : x.natAbs < 2 ^ 24) : floatOfInt x = x := by
  have hlog : x.natAbs.log2 - 23 = 0 := by
    rcases Nat.eq_zero_or_pos x.natAbs with h0 | hpos
    · rw [h0]
      rfl
    · have := (Nat.log2_lt hpos.ne').mpr h
      omega
  rw [floatOfInt, hlog]
  simp

theorem floor_le_roundEven (x : ℚ) : ⌊x⌋ ≤ roundEven x ∧ roundEven x ≤ ⌊x⌋ + 1 := by
  unfold roundEven
  split_ifs <;> omega

/-- Rounding does not leave a range between integers. -/
theorem roundEven_mem {x : ℚ} {a b : ℤ} (ha : (a : ℚ) ≤ x) (hb : x ≤ b) :
    a ≤ roundEven x ∧ roundEven x ≤ b := by
  have hfloor : a ≤ ⌊x⌋ := Int.le_floor.mpr ha
  refine ⟨hfloor.trans (floor_le_roundEven x).1, ?_⟩
  rcases hb.lt_or_eq with hlt | rfl
  · have hlt' : ⌊x⌋ < b := Int.floor_lt.mpr hlt
    have hhi := (floor_le_roundEven x).2
    omega
  · rw [roundEven_intCast]

theorem truncate_mem {x : ℚ} {a b : ℤ} (ha : (a : ℚ) ≤ x) (hb : x ≤ b) :
    a ≤ truncate x ∧ truncate x ≤ b := by
  unfold truncate
  split_ifs
  · refine ⟨Int.le_floor.mpr ha, ?_⟩
    exact_mod_cast (Int.floor_le x).trans hb
  · refine ⟨?_, Int.ceil_le.mpr hb⟩
    exact_mod_cast ha.trans (Int.le_ceil x)

/-- What rounding and dropping the fraction agree on: a fraction below a half, or a half next to an
even integer. -/
def SmallFraction (x : ℚ) : Prop :=
  |x - truncate x| < 1 / 2 ∨ |x - truncate x| = 1 / 2 ∧ Even (truncate x)

theorem roundEven_eq_floor_iff (x : ℚ) :
    roundEven x = ⌊x⌋ ↔ Int.fract x < 1 / 2 ∨ Int.fract x = 1 / 2 ∧ Even ⌊x⌋ := by
  unfold roundEven
  split_ifs with hlt hgt heven
  · exact iff_of_true rfl (Or.inl hlt)
  · refine iff_of_false (by omega) ?_
    rintro (h | ⟨h, -⟩) <;> linarith
  · exact iff_of_true rfl (Or.inr ⟨by linarith, heven⟩)
  · exact iff_of_false (by omega) (by tauto)

theorem roundEven_eq_floor_add_one_iff (x : ℚ) :
    roundEven x = ⌊x⌋ + 1 ↔ 1 / 2 < Int.fract x ∨ Int.fract x = 1 / 2 ∧ Even (⌊x⌋ + 1) := by
  unfold roundEven
  split_ifs with hlt hgt heven
  · refine iff_of_false (by omega) ?_
    rintro (h | ⟨h, -⟩) <;> linarith
  · exact iff_of_true rfl (Or.inl hgt)
  · refine iff_of_false (by omega) ?_
    rintro (h | ⟨-, h⟩)
    · exact hgt h
    · exact absurd h (Int.not_even_iff_odd.mpr heven.add_one)
  · exact iff_of_true rfl (Or.inr ⟨by linarith, (Int.not_even_iff_odd.mp heven).add_one⟩)

/-- **Rounding and dropping the fraction** agree on small fractions only. -/
theorem roundEven_eq_truncate_iff (x : ℚ) : roundEven x = truncate x ↔ SmallFraction x := by
  have hfract := Int.self_sub_floor x
  have hpos := Int.fract_nonneg x
  have hone := Int.fract_lt_one x
  unfold SmallFraction truncate
  split_ifs with h0
  · rw [hfract, abs_of_nonneg hpos, roundEven_eq_floor_iff]
  · rcases hpos.eq_or_lt with hzero | hpos
    · -- an integer
      have hx : x = ⌊x⌋ := by linarith
      rw [hx]
      simp
    · have hceil : ⌈x⌉ = ⌊x⌋ + 1 := by
        rw [Int.ceil_eq_iff]
        push_cast
        constructor <;> linarith
      have habs : |x - (⌊x⌋ + 1)| = 1 - Int.fract x := by
        rw [abs_of_nonpos (by linarith)]
        linarith
      have hlt : 1 - Int.fract x < 1 / 2 ↔ 1 / 2 < Int.fract x := by
        constructor <;> intro h <;> linarith
      have heq : 1 - Int.fract x = 1 / 2 ↔ Int.fract x = 1 / 2 := by
        constructor <;> intro h <;> linarith
      rw [hceil, roundEven_eq_floor_add_one_iff]
      push_cast
      rw [habs, hlt, heq]

/-! ## Single precision -/

/-- The exponent of the last bit that a `float` keeps of `x`. -/
def floatExponent (x : ℚ) : ℤ := max (Int.log 2 |x| - 23) (-149)

/-- The `float` nearest to a number of its range, from between two the even one. -/
def roundFloat (x : ℚ) : ℚ := roundEven (x / 2 ^ floatExponent x) * 2 ^ floatExponent x

/-- A finite `float`. -/
def IsFloat (x : ℚ) : Prop := roundFloat x = x ∧ |x| < 2 ^ 128

instance (x : ℚ) : Decidable (IsFloat x) := inferInstanceAs (Decidable (_ ∧ _))

theorem abs_roundEven_sub_le (x : ℚ) : |roundEven x - x| ≤ 1 / 2 := by
  have hfract := Int.self_sub_floor x
  have hpos := Int.fract_nonneg x
  have hone := Int.fract_lt_one x
  unfold roundEven
  rw [abs_le]
  split_ifs <;> push_cast <;> constructor <;> linarith

/-- The error is half a unit in the last place at most. -/
theorem abs_roundFloat_sub_le (x : ℚ) : |roundFloat x - x| ≤ 2 ^ floatExponent x / 2 := by
  have hunit : (0 : ℚ) < 2 ^ floatExponent x := by positivity
  have hscale : x = x / 2 ^ floatExponent x * 2 ^ floatExponent x :=
    (div_mul_cancel₀ x hunit.ne').symm
  calc |roundFloat x - x|
      = |(roundEven (x / 2 ^ floatExponent x) - x / 2 ^ floatExponent x) *
          2 ^ floatExponent x| := by
        rw [sub_mul, ← hscale, roundFloat]
    _ = |roundEven (x / 2 ^ floatExponent x) - x / 2 ^ floatExponent x| * 2 ^ floatExponent x := by
        rw [abs_mul, abs_of_pos hunit]
    _ ≤ 1 / 2 * 2 ^ floatExponent x :=
        mul_le_mul_of_nonneg_right (abs_roundEven_sub_le _) hunit.le
    _ = 2 ^ floatExponent x / 2 := by ring

/-- Of a number that is not subnormal 24 bits are right. -/
theorem roundFloat_relative {x : ℚ} (h : (2 : ℚ) ^ (-126 : ℤ) ≤ |x|) :
    |roundFloat x - x| ≤ |x| / 2 ^ 24 := by
  have hpos : 0 < |x| := lt_of_lt_of_le (by positivity) h
  have hlog : -126 ≤ Int.log 2 |x| := (Int.zpow_le_iff_le_log (by decide) hpos).mp h
  have hexp : floatExponent x = Int.log 2 |x| - 23 := max_eq_left (by omega)
  calc |roundFloat x - x| ≤ 2 ^ floatExponent x / 2 := abs_roundFloat_sub_le x
    _ = 2 ^ Int.log 2 |x| / 2 ^ 24 := by
        rw [hexp, zpow_sub₀ (by norm_num), div_div]
        norm_num
    _ ≤ |x| / 2 ^ 24 := by
        have := Int.zpow_log_le_self (b := 2) (by decide) hpos
        gcongr
        exact_mod_cast this

/-- Integers of 24 bits are exact. -/
theorem roundFloat_intCast {n : ℤ} (h : n.natAbs < 2 ^ 24) : roundFloat n = n := by
  have hexp : floatExponent n ≤ 0 := by
    refine max_le ?_ (by decide)
    rw [← Int.cast_abs, Int.abs_eq_natAbs, Int.cast_natCast, Int.log_natCast]
    have := Nat.log_mono_right (b := 2) (show n.natAbs ≤ 2 ^ 24 - 1 by omega)
    have h24 : Nat.log 2 (2 ^ 24 - 1) = 23 := by decide +kernel
    omega
  obtain ⟨k, hk⟩ := Int.eq_ofNat_of_zero_le (neg_nonneg.mpr hexp)
  have hint : (n : ℚ) / 2 ^ floatExponent n = ((n * 2 ^ k : ℤ) : ℚ) := by
    rw [show floatExponent n = -(k : ℤ) by omega, zpow_neg, div_inv_eq_mul, zpow_natCast]
    push_cast
    rfl
  rw [roundFloat, hint, roundEven_intCast, ← hint]
  exact div_mul_cancel₀ _ (by positivity)

@[simp] theorem roundFloat_zero : roundFloat 0 = 0 := by
  rw [roundFloat, zero_div, show (0 : ℚ) = ((0 : ℤ) : ℚ) by norm_num, roundEven_intCast]
  norm_num

/-- **Multiples of a power of a half** with 24 bits are exact. -/
theorem roundFloat_dyadic {m : ℤ} {k : ℕ} (hk : k ≤ 149) (hm : |m| < 2 ^ 24) :
    roundFloat (m / 2 ^ k) = m / 2 ^ k := by
  rcases eq_or_ne m 0 with rfl | hne
  · rw [Int.cast_zero, zero_div, roundFloat_zero]
  have hexp : floatExponent (m / 2 ^ k) ≤ -k := by
    refine max_le ?_ (by omega)
    have hpos : 0 < |(m : ℚ) / 2 ^ k| := abs_pos.mpr (by positivity)
    have hlt : |(m : ℚ) / 2 ^ k| < 2 ^ (24 - (k : ℤ)) := by
      rw [abs_div, abs_of_pos (by positivity : (0 : ℚ) < 2 ^ k), zpow_sub₀ two_ne_zero,
        zpow_natCast]
      gcongr
      exact_mod_cast hm
    have hlog := (Int.lt_zpow_iff_log_lt (b := 2) (by decide) hpos).mp hlt
    omega
  obtain ⟨j, hj⟩ := Int.eq_ofNat_of_zero_le (show 0 ≤ -(k : ℤ) - floatExponent (m / 2 ^ k) by omega)
  have hint : (m : ℚ) / 2 ^ k / 2 ^ floatExponent (m / 2 ^ k) = ((m * 2 ^ j : ℤ) : ℚ) := by
    rw [show floatExponent ((m : ℚ) / 2 ^ k) = -((k + j : ℕ) : ℤ) by push_cast; omega, zpow_neg,
      div_inv_eq_mul, zpow_natCast, pow_add]
    push_cast
    field_simp
  rw [roundFloat, hint, roundEven_intCast, ← hint]
  exact div_mul_cancel₀ _ (by positivity)

/-- **A quotient of integers rounded to single precision and then up** is the quotient rounded
up: the error is smaller than what is missing to the next integer. -/
theorem ceil_roundFloat_div {m d : ℕ} (hd : 0 < d) (hm : m < 2 ^ 24) (hd' : d < 2 ^ 24) :
    ⌈roundFloat ((m : ℚ) / d)⌉ = ⌈(m : ℚ) / d⌉ := by
  have hdpos : (0 : ℚ) < d := by exact_mod_cast hd
  rcases Nat.eq_zero_or_pos m with rfl | hmpos
  · rw [Nat.cast_zero, zero_div, roundFloat_zero]
  have hm1 : (1 : ℚ) ≤ m := by exact_mod_cast hmpos
  have hx : (0 : ℚ) < m / d := by positivity
  set k := ⌈(m : ℚ) / d⌉ with hk
  obtain ⟨hlo, hhi⟩ := Int.ceil_eq_iff.mp hk.symm
  have hlo' : ((k : ℚ) - 1) * d < m := (lt_div_iff₀ hdpos).mp hlo
  have hhi' : (m : ℚ) ≤ k * d := (div_le_iff₀ hdpos).mp hhi
  have hsmall : (m : ℚ) / d / 2 ^ 24 < 1 / d := by
    rw [div_div, mul_comm, ← div_div]
    gcongr
    rw [div_lt_one (by positivity)]
    exact_mod_cast hm
  have hnormal : (2 : ℚ) ^ (-126 : ℤ) ≤ |(m : ℚ) / d| := by
    rw [abs_of_pos hx, le_div_iff₀ hdpos]
    have hdle : (d : ℚ) ≤ 2 ^ 24 := by exact_mod_cast hd'.le
    calc (2 : ℚ) ^ (-126 : ℤ) * d ≤ 2 ^ (-126 : ℤ) * 2 ^ 24 := by gcongr
      _ ≤ 1 := by norm_num
      _ ≤ m := hm1
  have herr := roundFloat_relative hnormal
  rw [abs_of_pos hx, abs_le] at herr
  rcases hhi.eq_or_lt with heq | hlt
  · -- an integer of 24 bits
    have hkm : k ≤ m := by
      have hd1 : (1 : ℚ) ≤ d := by exact_mod_cast hd
      have : (k : ℚ) ≤ m := by
        rw [← heq]
        exact div_le_self (by positivity) hd1
      exact_mod_cast this
    have hkpos : 0 < k := Int.ceil_pos.mpr hx
    rw [heq, roundFloat_intCast (by omega), Int.ceil_intCast]
  · -- at least `1 / d` away from the integers on both sides
    have hupper : (m : ℚ) / d ≤ k - 1 / d := by
      have hlt' : (m : ℚ) < k * d := (div_lt_iff₀ hdpos).mp hlt
      have hint : (m : ℤ) + 1 ≤ k * d := by exact_mod_cast hlt'
      have hcast : (m : ℚ) + 1 ≤ k * d := by exact_mod_cast hint
      rw [le_sub_iff_add_le, ← add_div, div_le_iff₀ hdpos]
      exact hcast
    have hlower : (k : ℚ) - 1 + 1 / d ≤ m / d := by
      have hint : (k - 1) * (d : ℤ) + 1 ≤ m := by
        have : (k - 1) * (d : ℤ) < m := by exact_mod_cast hlo'
        omega
      have hcast : ((k : ℚ) - 1) * d + 1 ≤ m := by exact_mod_cast hint
      rw [le_div_iff₀ hdpos, add_mul, one_div_mul_cancel hdpos.ne']
      exact hcast
    rw [Int.ceil_eq_iff]
    constructor <;> linarith [herr.1, herr.2]

end OsmoTrx
