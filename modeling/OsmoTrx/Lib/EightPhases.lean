import Mathlib.Analysis.SpecialFunctions.Trigonometric.Basic
import Mathlib.Tactic

/-!
# Eight phases

A constellation of eight points on the unit circle, one at each multiple of an eighth of a turn,
with three bits for each so that neighbours differ in one of them, and a slicer that takes the
bits from three signs.

* `Angles` — the cosine and the sine of half a step, and the cosine of a whole one.
* `symbol`, `slice` — the points, and the three soft bits of a sample.
* `slice_iff_nearest` — **the signs are those of a point exactly if no other point is as near.**
* `nearest_of_close` — a sample whose distance from a multiple of a point is below the sine of half
  a step is nearest to this point.
-/

namespace OsmoTrx
namespace EightPhases

variable {K : Type*} [Field K] [LinearOrder K]

/-- The cosine `c` and the sine `s` of half the angle between neighbours, and the cosine `h` of the
angle itself. -/
structure Angles (K : Type*) [Field K] [LinearOrder K] where
  c : K
  s : K
  h : K
  pos : 0 < s
  lt : s < c
  unit : c * c + s * s = 1
  add : h * (c + s) = c
  sub : h * (c - s) = s

/-- Three bits, the lowest first. -/
abbrev Bits := Bool × Bool × Bool

variable (A : Angles K)

/-- The point for some bits. -/
def symbol : Bits → K × K
  | (false, false, false) => (-A.h, A.h)
  | (true, false, false) => (0, -1)
  | (false, true, false) => (0, 1)
  | (true, true, false) => (A.h, -A.h)
  | (false, false, true) => (-1, 0)
  | (true, false, true) => (-A.h, -A.h)
  | (false, true, true) => (A.h, A.h)
  | (true, true, true) => (1, 0)

/-- A sample turned back by half a step. -/
def turned (z : K × K) : K × K := (z.1 * A.c + z.2 * A.s, z.2 * A.c - z.1 * A.s)

/-- The soft bits of a sample: the signs of its turned parts, and which of these is the greater. -/
def slice (z : K × K) : K × K × K :=
  (-(turned A z).2, (turned A z).1, A.h * (|(turned A z).1| - |(turned A z).2|))

/-- A soft bit speaks for a bit. -/
def Speaks (b : Bool) (v : K) : Prop := if b then 0 < v else v < 0

/-- All three soft bits speak for their bits. -/
def Decides (b : Bits) (v : K × K × K) : Prop :=
  Speaks b.1 v.1 ∧ Speaks b.2.1 v.2.1 ∧ Speaks b.2.2 v.2.2

/-- The square of the distance. -/
def dist2 (z w : K × K) : K := (z.1 - w.1) * (z.1 - w.1) + (z.2 - w.2) * (z.2 - w.2)

/-- No other point is as near as that for `b`. -/
def Nearest (b : Bits) (z : K × K) : Prop :=
  ∀ b', b' ≠ b → dist2 z (symbol A b) < dist2 z (symbol A b')

/-! ## The angles -/

section Angles

variable [IsStrictOrderedRing K]

theorem Angles.h_sq : A.h * A.h + A.h * A.h = 1 := by
  have hsum : A.h * (A.c + A.s) * (A.h * (A.c + A.s)) + A.h * (A.c - A.s) * (A.h * (A.c - A.s)) =
      1 := by
    rw [A.add, A.sub, A.unit]
  linear_combination hsum - 2 * A.h * A.h * A.unit

theorem Angles.h_pos : 0 < A.h := by
  have hprod : 0 < A.h * (A.c + A.s) := by
    rw [A.add]
    exact A.pos.trans A.lt
  exact pos_of_mul_pos_left hprod (by linarith [A.pos, A.lt])

/-- The cosine of the double angle, … -/
theorem Angles.cos_double : A.c * A.c - A.s * A.s = A.h := by
  have hsum : A.c + A.s = 2 * A.h * A.c := by linear_combination -A.add - A.sub
  have hdiff : A.c - A.s = 2 * A.h * A.s := by linear_combination -A.add + A.sub
  linear_combination A.c * hsum / 2 + A.s * hdiff / 2 + A.h * A.unit +
    (-(A.c + A.s + 2 * A.h * A.c) * hsum - 2 * A.c * A.c * A.h_sq) / 2

/-- … and its sine. -/
theorem Angles.sin_double : 2 * A.c * A.s = A.h := by
  have hsum : A.c + A.s = 2 * A.h * A.c := by linear_combination -A.add - A.sub
  linear_combination A.cos_double + (A.c + A.s + 2 * A.h * A.c) * hsum + 2 * A.c * A.c * A.h_sq

end Angles

/-! ## Points and signs -/

/-- `x` or its negative, so that it is positive if the bit is right about its sign. -/
def signed (b : Bool) (x : K) : K := if b then x else -x

/-- How far a sample with the turned parts `u` and `-v` goes along a point. -/
def along (b : Bits) (u v : K) : K :=
  (if b.2.2 then A.c else A.s) * signed b.2.1 u + (if b.2.2 then A.s else A.c) * signed b.1 v

omit [LinearOrder K] in
theorem signed_eq (b b' : Bool) (x : K) :
    signed b' x = if b' = b then signed b x else -signed b x := by
  cases b <;> cases b' <;> simp [signed]

theorem speaks_iff_signed [IsStrictOrderedRing K] (b : Bool) (x : K) :
    Speaks b x ↔ 0 < signed b x := by
  cases b <;> simp [Speaks, signed]

theorem abs_eq_signed [IsStrictOrderedRing K] {b : Bool} {x : K} (h : 0 < signed b x) :
    |x| = signed b x := by
  cases b with
  | false =>
    simp only [signed, Bool.false_eq_true, if_false] at h ⊢
    exact abs_of_neg (neg_pos.mp h)
  | true => exact abs_of_pos h

section Slicer

variable [IsStrictOrderedRing K]

/-- A point has length one. -/
theorem symbol_unit (b : Bits) :
    (symbol A b).1 * (symbol A b).1 + (symbol A b).2 * (symbol A b).2 = 1 := by
  have hsq := A.h_sq
  rcases b with ⟨_ | _, _ | _, _ | _⟩ <;> simp only [symbol] <;>
    first | ring1 | linear_combination hsq

/-- A sample goes along a point as the turned sample does along the turned point. -/
theorem inner_symbol (b : Bits) (z : K × K) :
    z.1 * (symbol A b).1 + z.2 * (symbol A b).2 =
      along A b (turned A z).1 (-(turned A z).2) := by
  have hunit := A.unit
  have hcos := A.cos_double
  have hsin := A.sin_double
  rcases b with ⟨_ | _, _ | _, _ | _⟩ <;>
    simp only [symbol, along, signed, turned, Bool.false_eq_true, if_false, if_true]
  · linear_combination z.1 * hsin - z.2 * hcos
  · linear_combination z.1 * hunit
  · linear_combination -z.2 * hunit
  · linear_combination -z.1 * hcos - z.2 * hsin
  · linear_combination z.2 * hunit
  · linear_combination z.1 * hcos + z.2 * hsin
  · linear_combination -z.1 * hsin + z.2 * hcos
  · linear_combination -z.1 * hunit

/-- The point that is nearest is the one that a sample goes along farthest. -/
theorem nearest_iff_along (b : Bits) (z : K × K) :
    Nearest A b z ↔ ∀ b', b' ≠ b →
      along A b' (turned A z).1 (-(turned A z).2) < along A b (turned A z).1 (-(turned A z).2) := by
  have hdist (b' : Bits) : dist2 z (symbol A b') = z.1 * z.1 + z.2 * z.2 + 1 -
      2 * along A b' (turned A z).1 (-(turned A z).2) := by
    rw [← inner_symbol, dist2]
    linear_combination symbol_unit A b'
  refine forall₂_congr fun b' _ => ?_
  rw [hdist, hdist]
  constructor <;> intro h <;> linarith

/-- **Three signs decide for the farthest point.** -/
theorem along_lt_iff (b : Bits) (u v : K) :
    (∀ b', b' ≠ b → along A b' u v < along A b u v) ↔ Decides b (v, u, A.h * (|u| - |v|)) := by
  obtain ⟨b0, b1, b2⟩ := b
  have hs := A.pos
  have hc : 0 < A.c := hs.trans A.lt
  have hgap : 0 < A.c - A.s := sub_pos.mpr A.lt
  simp only [Decides, speaks_iff_signed, Ne, Prod.forall]
  set P := signed b1 u with hP
  set Q := signed b0 v with hQ
  -- the farthest point has the signs of the parts, and the greater part has the greater weight
  have hweight (hu : 0 < P) (hv : 0 < Q) :
      0 < signed b2 (A.h * (|u| - |v|)) ↔ 0 < (A.c - A.s) * signed b2 (P - Q) := by
    rw [abs_eq_signed hu, abs_eq_signed hv, ← hP, ← hQ, mul_pos_iff_of_pos_left hgap]
    cases b2 <;> simp only [signed, Bool.false_eq_true, if_false, if_true, ← mul_neg] <;>
      rw [mul_pos_iff_of_pos_left A.h_pos]
  have halong (b0' b1' b2' : Bool) : along A (b0', b1', b2') u v =
      (if b2' then A.c else A.s) * (if b1' = b1 then P else -P) +
        (if b2' then A.s else A.c) * (if b0' = b0 then Q else -Q) := by
    rw [along, signed_eq b1 b1' u, signed_eq b0 b0' v]
  constructor
  · intro h
    have hflip1 := h b0 (!b1) b2 (by simp)
    have hflip0 := h (!b0) b1 b2 (by simp)
    have hflip2 := h b0 b1 (!b2) (by simp)
    rw [halong, halong] at hflip0 hflip1 hflip2
    have hu : 0 < P := by
      cases b2 <;> simp at hflip1 <;> nlinarith
    have hv : 0 < Q := by
      cases b2 <;> simp at hflip0 <;> nlinarith
    refine ⟨hv, hu, (hweight hu hv).mpr ?_⟩
    cases b2 <;> simp [signed] at hflip2 ⊢ <;> linarith
  · rintro ⟨hv, hu, hw⟩ b0' b1' b2' hne
    have hgreater := (hweight hu hv).mp hw
    have hcP := mul_pos hc hu
    have hsP := mul_pos hs hu
    have hcQ := mul_pos hc hv
    have hsQ := mul_pos hs hv
    have hother : b1' = b1 → b0' = b0 → b2' ≠ b2 := by
      rintro rfl rfl rfl
      exact hne rfl
    rw [halong, halong, if_pos rfl, if_pos rfl]
    cases b2 <;> cases b2' <;>
      simp only [signed, Bool.false_eq_true, if_false, if_true] at hgreater ⊢ <;>
      split_ifs with h1 h0 h0 <;>
      first | linarith | exact absurd rfl (hother h1 h0)

/-- **The slicer decides for the nearest point**: its three soft bits speak for the bits of a point
exactly if every other point is farther away. -/
theorem slice_iff_nearest (b : Bits) (z : K × K) : Decides b (slice A z) ↔ Nearest A b z := by
  rw [nearest_iff_along, along_lt_iff, slice, abs_neg]

/-- Two points are twice the sine of half a step apart, or more. -/
theorem dist2_symbol {b b' : Bits} (h : b' ≠ b) :
    4 * (A.s * A.s) ≤ dist2 (symbol A b) (symbol A b') := by
  have hsq := A.h_sq
  have hpos := A.h_pos
  have hsin : 4 * (A.s * A.s) = 2 - 2 * A.h := by linear_combination 2 * A.unit - 2 * A.cos_double
  have hone : A.h ≤ 1 := by nlinarith [A.pos]
  rw [hsin]
  rcases b with ⟨_ | _, _ | _, _ | _⟩ <;> rcases b' with ⟨_ | _, _ | _, _ | _⟩ <;>
    first | exact absurd rfl h | (simp only [dist2, symbol]; linarith)

/-- **A sample close to a multiple of a point** is nearest to that point. -/
theorem nearest_of_close {b : Bits} {z : K × K} {g : K} (hg : 0 < g)
    (hclose : dist2 z (g * (symbol A b).1, g * (symbol A b).2) < g * A.s * (g * A.s)) :
    Nearest A b z := by
  intro b' hne
  have hunit := symbol_unit A b
  have hunit' := symbol_unit A b'
  have hfar := dist2_symbol A hne
  set d := symbol A b
  set d' := symbol A b'
  set M := dist2 d d' with hM
  -- the error along the way from the one point to the other is less than half of the way
  set e := (z.1 - g * d.1) * (d.1 - d'.1) + (z.2 - g * d.2) * (d.2 - d'.2) with he
  have hcauchy : e * e ≤ dist2 z (g * d.1, g * d.2) * M := by
    have hcross := mul_self_nonneg
      ((z.1 - g * d.1) * (d.2 - d'.2) - (z.2 - g * d.2) * (d.1 - d'.1))
    rw [he, hM, dist2, dist2]
    linarith
  have hMpos : 0 < M := lt_of_lt_of_le (mul_pos (by norm_num) (mul_pos A.pos A.pos)) hfar
  have hhalf : e * e < g * M / 2 * (g * M / 2) :=
    calc e * e ≤ dist2 z (g * d.1, g * d.2) * M := hcauchy
      _ < g * A.s * (g * A.s) * M := mul_lt_mul_of_pos_right hclose hMpos
      _ = g * g * M * (A.s * A.s) := by ring
      _ ≤ g * g * M * (M / 4) :=
        mul_le_mul_of_nonneg_left (by linarith) (mul_pos (mul_pos hg hg) hMpos).le
      _ = g * M / 2 * (g * M / 2) := by ring
  have hlow : -(g * M / 2) < e :=
    (abs_lt_of_sq_lt_sq' (by rw [sq, sq]; exact hhalf) (by positivity)).1
  have hway : g * M = 2 * g * (d.1 * (d.1 - d'.1) + d.2 * (d.2 - d'.2)) := by
    rw [hM, dist2]
    linear_combination g * hunit' - g * hunit
  have hgain : dist2 z d' - dist2 z d = g * M + 2 * e := by
    rw [hway, he, dist2, dist2]
    linear_combination hunit' - hunit
  linarith

end Slicer

/-! ## Real angles -/

/-- A turn by one and a half times the angle between neighbours, `i` times. -/
noncomputable def turnAngle (i : ℕ) : ℝ := 3 * Real.pi / 8 * i

/-- The angles themselves. -/
noncomputable def realAngles : Angles ℝ where
  c := Real.cos (Real.pi / 8)
  s := Real.sin (Real.pi / 8)
  h := Real.cos (Real.pi / 4)
  pos := Real.sin_pos_of_pos_of_lt_pi (by positivity) (by linarith [Real.pi_pos])
  lt := by
    rw [← Real.sin_pi_div_two_sub]
    exact Real.sin_lt_sin_of_lt_of_le_pi_div_two (by linarith [Real.pi_pos])
      (by linarith [Real.pi_pos]) (by linarith [Real.pi_pos])
  unit := by
    have h := Real.cos_sq_add_sin_sq (Real.pi / 8)
    linarith
  add := by
    have h := Real.cos_sub (Real.pi / 4) (Real.pi / 8)
    rw [Real.sin_pi_div_four, ← Real.cos_pi_div_four,
      show Real.pi / 4 - Real.pi / 8 = Real.pi / 8 by ring] at h
    linarith
  sub := by
    have h := Real.sin_sub (Real.pi / 4) (Real.pi / 8)
    rw [Real.sin_pi_div_four, ← Real.cos_pi_div_four,
      show Real.pi / 4 - Real.pi / 8 = Real.pi / 8 by ring] at h
    linarith

end EightPhases
end OsmoTrx
