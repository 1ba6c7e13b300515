import Mathlib.Algebra.QuadraticAlgebra.Basic
import Mathlib.Tactic

/-!
# Complex arithmetic

The operators of `Complex.h`, over a field in place of `Real`: those of two complex numbers, those
with a real on either side, and the assignments, which are given by what they leave in `*this`.

* `toRing` — the operators of two complex numbers are those of the ring `K[i]`.
* `div_inverts_iff` — division undoes multiplication unless the norm of the divisor vanishes.
* `mulAssign_iff`, `divAssign_iff`, `realSub_iff` — the three operators that compute something
  else, and when that makes no difference.
* `coherent_iff` — **which operators agree**, all of them.
-/

namespace OsmoTrx
namespace Dsp

/-- `Complex`. -/
@[ext] structure Complex (K : Type*) where
  r : K
  i : K
  deriving DecidableEq, Repr

namespace Complex

variable {K : Type*} [Field K]

/-! ## The operators -/

/-- `Complex(real)`. -/
def ofReal (real : K) : Complex K := ⟨real, 0⟩

def norm2 (z : Complex K) : K := z.i * z.i + z.r * z.r

def inv (z : Complex K) : Complex K :=
  let nVal := z.norm2
  ⟨z.r / nVal, -z.i / nVal⟩

/-- `operator+`, `operator-`, `operator*` and `operator/` of two complex numbers. -/
def add (z a : Complex K) : Complex K := ⟨z.r + a.r, z.i + a.i⟩

def sub (z a : Complex K) : Complex K := ⟨z.r - a.r, z.i - a.i⟩

def mul (z a : Complex K) : Complex K := ⟨z.r * a.r - z.i * a.i, z.r * a.i + z.i * a.r⟩

def div (z a : Complex K) : Complex K := z.mul a.inv

/-- The same operators with a real on the right. -/
def addReal (z : Complex K) (a : K) : Complex K := ⟨z.r + a, z.i⟩

def subReal (z : Complex K) (a : K) : Complex K := ⟨z.r - a, z.i⟩

def mulReal (z : Complex K) (a : K) : Complex K := ⟨z.r * a, z.i * a⟩

def divReal (z : Complex K) (a : K) : Complex K := ⟨z.r / a, z.i / a⟩

/-- `operator+=` and its companions: what is in `*this` afterwards. -/
def addAssign (z a : Complex K) : Complex K := { r := z.r + a.r, i := z.i + a.i }

/-- The product is not kept. -/
def mulAssign (z a : Complex K) : Complex K :=
  let _ := z.mul a
  z

def subAssign (z a : Complex K) : Complex K := { r := z.r - a.r, i := z.i - a.i }

/-- The quotient is not kept. -/
def divAssign (z a : Complex K) : Complex K :=
  let _ := z.div a
  z

/-- The assignments with a real on the right. -/
def addAssignReal (z : Complex K) (a : K) : Complex K := { z with r := z.r + a }

def mulAssignReal (z : Complex K) (a : K) : Complex K := { r := z.r * a, i := z.i * a }

def subAssignReal (z : Complex K) (a : K) : Complex K := { z with r := z.r - a }

def divAssignReal (z : Complex K) (a : K) : Complex K := { r := z.r / a, i := z.i / a }

/-- The operators with a real on the left. -/
def realMul (a : K) (z : Complex K) : Complex K := ⟨z.r * a, z.i * a⟩

def realAdd (a : K) (z : Complex K) : Complex K := ⟨z.r + a, z.i⟩

def realSub (a : K) (z : Complex K) : Complex K := ⟨z.r - a, z.i⟩

/-! ## The ring of complex numbers -/

/-- A complex number in the ring `K[i]`, where `i² = -1`. -/
def toRing (z : Complex K) : QuadraticAlgebra K (-1) 0 := ⟨z.r, z.i⟩

theorem toRing_injective : Function.Injective (toRing : Complex K → _) := fun _ _ h =>
  Complex.ext (congrArg QuadraticAlgebra.re h) (congrArg QuadraticAlgebra.im h)

variable (a z : Complex K) (x : K)

@[simp] theorem toRing_ofReal : (ofReal x).toRing = algebraMap K _ x := rfl

@[simp] theorem toRing_add : (a.add z).toRing = a.toRing + z.toRing := rfl

@[simp] theorem toRing_sub : (a.sub z).toRing = a.toRing - z.toRing := rfl

@[simp] theorem toRing_mul : (a.mul z).toRing = a.toRing * z.toRing := by
  ext
  · simp only [toRing, mul, QuadraticAlgebra.re_mul]
    ring
  · simp only [toRing, mul, QuadraticAlgebra.im_mul]
    ring

variable {a z}

/-- The inverse is one where the norm does not vanish. -/
theorem toRing_inv_mul (h : z.norm2 ≠ 0) : z.inv.toRing * z.toRing = 1 := by
  rw [← toRing_mul]
  refine (congrArg toRing ?_).trans (toRing_ofReal (1 : K))
  ext
  · calc z.r / z.norm2 * z.r - -z.i / z.norm2 * z.i = z.norm2 / z.norm2 := by
          rw [norm2]
          ring
      _ = 1 := div_self h
  · simp only [mul, inv, ofReal]
    ring

theorem inv_of_norm2_eq_zero (h : z.norm2 = 0) : z.inv = ofReal 0 := by
  simp only [inv, h, div_zero, ofReal]

theorem div_of_norm2_eq_zero (h : z.norm2 = 0) : a.div z = ofReal 0 := by
  refine toRing_injective ?_
  rw [div, inv_of_norm2_eq_zero h, toRing_mul, toRing_ofReal, map_zero, mul_zero]

/-- **Division undoes multiplication**, and is undone by it, unless the norm vanishes. -/
theorem div_inverts_iff :
    (∀ a : Complex K, (a.mul z).div z = a ∧ (a.div z).mul z = a) ↔ z.norm2 ≠ 0 := by
  constructor
  · intro hall h
    have hone := (hall (ofReal 1)).1
    rw [div_of_norm2_eq_zero h] at hone
    exact zero_ne_one (congrArg r hone)
  · intro h a
    constructor
    · refine toRing_injective ?_
      rw [div, toRing_mul, toRing_mul, mul_assoc, mul_comm z.toRing, toRing_inv_mul h, mul_one]
    · refine toRing_injective ?_
      rw [div, toRing_mul, toRing_mul, mul_assoc, toRing_inv_mul h, mul_one]

/-! ## The operators that differ -/

/-- Multiplication by `z` leaves `a` as it is: the product of `a` and `z - 1` vanishes. -/
def Fixes (a z : Complex K) : Prop :=
  a.r * (z.r - 1) = a.i * z.i ∧ a.r * z.i + a.i * (z.r - 1) = 0

theorem fixes_iff : Fixes a z ↔ a.toRing * z.toRing = a.toRing := by
  rw [← toRing_mul, toRing_injective.eq_iff, Complex.ext_iff, Fixes]
  simp only [mul]
  constructor
  · rintro ⟨hre, him⟩
    constructor
    · linear_combination hre
    · linear_combination him
  · rintro ⟨hre, him⟩
    constructor
    · linear_combination hre
    · linear_combination him

/-- `a *= z` leaves the product just if that is `a` itself. -/
theorem mulAssign_iff : a.mulAssign z = a.mul z ↔ Fixes a z := by
  rw [fixes_iff, ← toRing_mul, toRing_injective.eq_iff, eq_comm]
  rfl

/-- `a /= z` leaves the quotient just if that is `a` itself. -/
theorem divAssign_iff :
    a.divAssign z = a.div z ↔
      (z.norm2 ≠ 0 ∧ Fixes a z) ∨ (z.norm2 = 0 ∧ a = ofReal 0) := by
  by_cases h : z.norm2 = 0
  · rw [div_of_norm2_eq_zero h]
    simp [h, divAssign]
  · simp only [h, ne_eq, not_false_eq_true, true_and, false_and, or_false]
    rw [fixes_iff, ← toRing_injective.eq_iff, div, toRing_mul]
    constructor
    · intro hdiv
      have hfix : a.toRing = a.toRing * z.inv.toRing := hdiv
      nth_rewrite 1 [hfix]
      rw [mul_assoc, toRing_inv_mul h, mul_one]
    · intro hfix
      change a.toRing = _
      nth_rewrite 2 [← hfix]
      rw [mul_assoc, mul_comm z.toRing, toRing_inv_mul h, mul_one]

/-- `x - z` is `z - x`. -/
theorem realSub_iff : realSub x z = (ofReal x).sub z ↔ 2 * z.r = 2 * x ∧ 2 * z.i = 0 := by
  rw [Complex.ext_iff]
  simp only [realSub, sub, ofReal]
  constructor
  · rintro ⟨hre, him⟩
    constructor
    · linear_combination hre
    · linear_combination him
  · rintro ⟨hre, him⟩
    constructor
    · linear_combination hre
    · linear_combination him

/-- In a field where the norm only vanishes at zero, one of the factors is trivial. -/
theorem fixes_iff_of_norm2 (h : ∀ w : Complex K, w.norm2 = 0 → w = ofReal 0) :
    Fixes a z ↔ a = ofReal 0 ∨ z = ofReal 1 := by
  constructor
  · intro hfix
    by_cases hz : (z.sub (ofReal 1)).norm2 = 0
    · refine Or.inr (toRing_injective ?_)
      have hsub := congrArg toRing (h _ hz)
      rw [toRing_sub, toRing_ofReal (0 : K), map_zero] at hsub
      exact sub_eq_zero.mp hsub
    · refine Or.inl (toRing_injective ?_)
      have hvanish : a.toRing * (z.sub (ofReal 1)).toRing = 0 := by
        rw [toRing_sub, toRing_ofReal, map_one, mul_sub, fixes_iff.mp hfix, mul_one, sub_self]
      calc a.toRing = a.toRing * (z.sub (ofReal 1)).toRing * (z.sub (ofReal 1)).inv.toRing := by
            rw [mul_assoc, mul_comm (z.sub (ofReal 1)).toRing, toRing_inv_mul hz, mul_one]
        _ = 0 := by rw [hvanish, zero_mul]
        _ = (ofReal 0 : Complex K).toRing := by rw [toRing_ofReal, map_zero]
  · rintro (rfl | rfl)
    · simp [Fixes, ofReal]
    · simp [Fixes, ofReal]

variable (a z)

/-- The assignments that leave what the binary operators give, whatever the operands. -/
structure Assigns : Prop where
  add : a.addAssign z = a.add z
  sub : a.subAssign z = a.sub z
  addReal : a.addAssignReal x = a.addReal x
  subReal : a.subAssignReal x = a.subReal x
  mulReal : a.mulAssignReal x = a.mulReal x
  divReal : a.divAssignReal x = a.divReal x

/-- The mixed operators that agree with those of two complex numbers, whatever the operands. -/
structure Mixes : Prop where
  addReal : a.addReal x = a.add (ofReal x)
  subReal : a.subReal x = a.sub (ofReal x)
  mulReal : a.mulReal x = a.mul (ofReal x)
  divReal : a.divReal x = a.div (ofReal x)
  realAdd : realAdd x z = (ofReal x).add z
  realMul : realMul x z = (ofReal x).mul z

theorem assigns : Assigns a z x := ⟨rfl, rfl, rfl, rfl, rfl, rfl⟩

theorem divReal_eq : a.divReal x = a.div (ofReal x) := by
  by_cases hx : x = 0
  · rw [hx, div_of_norm2_eq_zero (by simp [norm2, ofReal])]
    simp [divReal, ofReal]
  · have hre : (ofReal x).inv = ofReal x⁻¹ := by
      simp only [inv, ofReal, norm2, neg_zero, zero_div, mul_zero, zero_add]
      field_simp
    rw [div, hre]
    simp [divReal, mul, ofReal, div_eq_mul_inv]

theorem mixes : Mixes a z x where
  addReal := by simp [addReal, add, ofReal]
  subReal := by simp [subReal, sub, ofReal]
  mulReal := by simp [mulReal, mul, ofReal]
  divReal := divReal_eq a x
  realAdd := by simp [realAdd, add, ofReal, add_comm]
  realMul := by simp [realMul, mul, ofReal, mul_comm]

/-- **Which operators agree**: all but three, and division undoes multiplication where the norm of
the divisor does not vanish. -/
theorem coherent_iff :
    Assigns a z x ∧ Mixes a z x ∧
      (a.mulAssign z = a.mul z ↔ Fixes a z) ∧
      (a.divAssign z = a.div z ↔ (z.norm2 ≠ 0 ∧ Fixes a z) ∨ (z.norm2 = 0 ∧ a = ofReal 0)) ∧
      (realSub x z = (ofReal x).sub z ↔ 2 * z.r = 2 * x ∧ 2 * z.i = 0) ∧
      ((∀ b : Complex K, (b.mul z).div z = b ∧ (b.div z).mul z = b) ↔ z.norm2 ≠ 0) ∧
      ((∀ w : Complex K, w.norm2 = 0 → w = ofReal 0) →
        (Fixes a z ↔ a = ofReal 0 ∨ z = ofReal 1)) :=
  ⟨assigns a z x, mixes a z x, mulAssign_iff, divAssign_iff, realSub_iff x, div_inverts_iff,
    fixes_iff_of_norm2⟩

/-- Twice one, half of one, and one minus two, as the assignments and the mixed operator have it. -/
theorem not_coherent_two :
    (ofReal 1 : Complex ℚ).mulAssign (ofReal 2) ≠ (ofReal 1).mul (ofReal 2) ∧
      (ofReal 1 : Complex ℚ).divAssign (ofReal 2) ≠ (ofReal 1).div (ofReal 2) ∧
      realSub 1 (ofReal 2 : Complex ℚ) ≠ (ofReal 1).sub (ofReal 2) := by
  decide +kernel

end Complex
end Dsp
end OsmoTrx
