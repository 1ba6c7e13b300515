import OsmoTrx.Lib.Loop

/-!
# Convolution

`convolve_base.c`: the plain convolution of complex samples with a real or a complex
filter, over a commutative ring in place of `float`.  An array is a function from the
integers, so that a pointer into it may be moved back to its history; a complex number
takes two neighbouring cells, and a real tap the first of its two.

* `dotReal`, `dotComplex` — one sample of the result.
* `realConvolution`, `complexConvolution` — what a convolution is to compute, with the
  arguments it refuses.
* `baseConvolveReal_eq`, `baseConvolveComplex_eq` — the plain loops compute it.
-/

namespace OsmoTrx
namespace Dsp

variable {R : Type*} [CommRing R]

/-! ## The code -/

/-- The pointer `&x[k]`. -/
def ptr (x : ℤ → R) (k : ℤ) : ℤ → R := fun j => x (k + j)

/-- `mac_real`: base multiply and accumulate complex-real. -/
def macReal (x h : ℤ → R) (y : R × R) : R × R :=
  (y.1 + x 0 * h 0, y.2 + x 1 * h 0)

/-- `mac_cmplx`: base multiply and accumulate complex-complex. -/
def macCmplx (x h : ℤ → R) (y : R × R) : R × R :=
  (y.1 + (x 0 * h 0 - x 1 * h 1), y.2 + (x 0 * h 1 + x 1 * h 0))

/-- `mac_real_vec_n`. -/
def macRealVecN (x h : ℤ → R) (y : R × R) (len : ℤ) : R × R :=
  Loop.upTo len.toNat (fun i y => macReal (ptr x (2 * i)) (ptr h (2 * i)) y) y

/-- `mac_cmplx_vec_n`. -/
def macCmplxVecN (x h : ℤ → R) (y : R × R) (len : ℤ) : R × R :=
  Loop.upTo len.toNat (fun i y => macCmplx (ptr x (2 * i)) (ptr h (2 * i)) y) y

/-- `_base_convolve_real`: its result and the contents of `y`. -/
def baseConvolveRealLoop (x : ℤ → R) (_xLen : ℤ) (h : ℤ → R) (hLen : ℤ) (y : ℤ → R)
    (_yLen start len : ℤ) : ℤ × (ℤ → R) :=
  (len, Loop.upTo len.toNat (fun i y =>
    Loop.storePair y (2 * i)
      (macRealVecN (ptr x (2 * (i - (hLen - 1) + start))) h (Loop.loadPair y (2 * i)) hLen)) y)

/-- `_base_convolve_complex`. -/
def baseConvolveComplexLoop (x : ℤ → R) (_xLen : ℤ) (h : ℤ → R) (hLen : ℤ) (y : ℤ → R)
    (_yLen start len : ℤ) : ℤ × (ℤ → R) :=
  (len, Loop.upTo len.toNat (fun i y =>
    Loop.storePair y (2 * i)
      (macCmplxVecN (ptr x (2 * (i - (hLen - 1) + start))) h (Loop.loadPair y (2 * i)) hLen)) y)

/-- `bounds_check`. -/
def boundsCheck (xLen hLen yLen start len : ℤ) : ℤ :=
  if xLen < 1 ∨ hLen < 1 ∨ yLen < 1 ∨ len < 1 then -1
  else if start + len > xLen ∨ len > yLen ∨ xLen < hLen then -1
  else 0

/-- `memset(y, 0, n * sizeof(float))`. -/
def clear (y : ℤ → R) (n : ℤ) : ℤ → R := fun j => if 0 ≤ j ∧ j < n then 0 else y j

/-- `base_convolve_real`. -/
def baseConvolveReal (x : ℤ → R) (xLen : ℤ) (h : ℤ → R) (hLen : ℤ) (y : ℤ → R)
    (yLen start len : ℤ) : ℤ × (ℤ → R) :=
  if boundsCheck xLen hLen yLen start len < 0 then (-1, y)
  else baseConvolveRealLoop x xLen h hLen (clear y (len * 2)) yLen start len

/-- `base_convolve_complex`. -/
def baseConvolveComplex (x : ℤ → R) (xLen : ℤ) (h : ℤ → R) (hLen : ℤ) (y : ℤ → R)
    (yLen start len : ℤ) : ℤ × (ℤ → R) :=
  if boundsCheck xLen hLen yLen start len < 0 then (-1, y)
  else baseConvolveComplexLoop x xLen h hLen (clear y (len * 2)) yLen start len

/-! ## What it computes -/

/-- The sum of `n` complex samples, each times a real tap. -/
def dotReal (x h : ℤ → R) (n : ℕ) : R × R :=
  (∑ k ∈ Finset.range n, x (2 * k) * h (2 * k), ∑ k ∈ Finset.range n, x (2 * k + 1) * h (2 * k))

/-- The sum of `n` complex samples, each times a complex tap. -/
def dotComplex (x h : ℤ → R) (n : ℕ) : R × R :=
  (∑ k ∈ Finset.range n, (x (2 * k) * h (2 * k) - x (2 * k + 1) * h (2 * k + 1)),
    ∑ k ∈ Finset.range n, (x (2 * k) * h (2 * k + 1) + x (2 * k + 1) * h (2 * k)))

/-- The samples that sample `i` of the result depends on: `hLen` of them, the last being
sample `start + i`. -/
def window (x : ℤ → R) (hLen start : ℤ) (i : ℕ) : ℤ → R := ptr x (2 * (i - (hLen - 1) + start))

/-- **Convolution with a real filter**: refused arguments leave `y` alone, others set its
first `len` samples. -/
def realConvolution (x : ℤ → R) (xLen : ℤ) (h : ℤ → R) (hLen : ℤ) (y : ℤ → R)
    (yLen start len : ℤ) : ℤ × (ℤ → R) :=
  if boundsCheck xLen hLen yLen start len < 0 then (-1, y)
  else (len, Loop.pairs len.toNat (fun i => dotReal (window x hLen start i) h hLen.toNat) y)

/-- **Convolution with a complex filter.** -/
def complexConvolution (x : ℤ → R) (xLen : ℤ) (h : ℤ → R) (hLen : ℤ) (y : ℤ → R)
    (yLen start len : ℤ) : ℤ × (ℤ → R) :=
  if boundsCheck xLen hLen yLen start len < 0 then (-1, y)
  else (len, Loop.pairs len.toNat (fun i => dotComplex (window x hLen start i) h hLen.toNat) y)

/-! ## The plain loops -/

theorem macRealVecN_eq (x h : ℤ → R) (y : R × R) (len : ℤ) :
    macRealVecN x h y len = y + dotReal x h len.toNat := by
  have hmac : (fun (i : ℕ) (y : R × R) => macReal (ptr x (2 * i)) (ptr h (2 * i)) y) =
      fun (i : ℕ) y => y + (x (2 * i) * h (2 * i), x (2 * i + 1) * h (2 * i)) := by
    funext i y
    simp only [macReal, ptr, add_zero]
    rfl
  rw [macRealVecN, hmac, Loop.upTo_accumulate]
  congr 1
  ext <;> simp [dotReal, Prod.fst_sum, Prod.snd_sum]

theorem macCmplxVecN_eq (x h : ℤ → R) (y : R × R) (len : ℤ) :
    macCmplxVecN x h y len = y + dotComplex x h len.toNat := by
  have hmac : (fun (i : ℕ) (y : R × R) => macCmplx (ptr x (2 * i)) (ptr h (2 * i)) y) =
      fun (i : ℕ) y => y + (x (2 * i) * h (2 * i) - x (2 * i + 1) * h (2 * i + 1),
        x (2 * i) * h (2 * i + 1) + x (2 * i + 1) * h (2 * i)) := by
    funext i y
    simp only [macCmplx, ptr, add_zero]
    rfl
  rw [macCmplxVecN, hmac, Loop.upTo_accumulate]
  congr 1
  ext <;> simp [dotComplex, Prod.fst_sum, Prod.snd_sum]

theorem loadPair_clear (y : ℤ → R) {n : ℤ} {i : ℕ} (hi : i < n.toNat) :
    Loop.loadPair (clear y (n * 2)) (2 * i) = 0 := by
  rw [Loop.loadPair, clear, clear, if_pos (by omega), if_pos (by omega)]
  rfl

/-- Filling the pairs of a cleared array gives the same as filling them where they are. -/
theorem pairs_clear (y : ℤ → R) (n : ℤ) (f : ℕ → R × R) :
    Loop.pairs n.toNat f (clear y (n * 2)) = Loop.pairs n.toNat f y := by
  funext j
  by_cases hj : 0 ≤ j ∧ j < 2 * (n.toNat : ℤ)
  · simp only [Loop.pairs, if_pos hj]
  · rw [Loop.pairs, Loop.pairs, if_neg hj, if_neg hj, clear, if_neg (by omega)]

section Base

variable (x : ℤ → R) (xLen : ℤ) (h : ℤ → R) (hLen : ℤ) (y : ℤ → R) (yLen start len : ℤ)

theorem baseConvolveRealLoop_eq :
    baseConvolveRealLoop x xLen h hLen (clear y (len * 2)) yLen start len =
      (len, Loop.pairs len.toNat (fun i => dotReal (window x hLen start i) h hLen.toNat) y) := by
  rw [baseConvolveRealLoop, ← pairs_clear]
  congr 1
  refine Loop.upTo_fill fun i hi m' hm => ?_
  rw [hm, loadPair_clear y hi, macRealVecN_eq, zero_add, window]

theorem baseConvolveComplexLoop_eq :
    baseConvolveComplexLoop x xLen h hLen (clear y (len * 2)) yLen start len =
      (len, Loop.pairs len.toNat (fun i => dotComplex (window x hLen start i) h hLen.toNat) y) := by
  rw [baseConvolveComplexLoop, ← pairs_clear]
  congr 1
  refine Loop.upTo_fill fun i hi m' hm => ?_
  rw [hm, loadPair_clear y hi, macCmplxVecN_eq, zero_add, window]

/-- **The plain loop computes the convolution.** -/
theorem baseConvolveReal_eq : baseConvolveReal x xLen h hLen y yLen start len =
    realConvolution x xLen h hLen y yLen start len := by
  rw [baseConvolveReal, realConvolution, baseConvolveRealLoop_eq]

theorem baseConvolveComplex_eq : baseConvolveComplex x xLen h hLen y yLen start len =
    complexConvolution x xLen h hLen y yLen start len := by
  rw [baseConvolveComplex, complexConvolution, baseConvolveComplexLoop_eq]

/-- The arguments that are not refused have a filter of at least one tap. -/
theorem one_le_of_boundsCheck {xLen hLen yLen start len : ℤ}
    (hb : ¬ boundsCheck xLen hLen yLen start len < 0) : 1 ≤ hLen := by
  unfold boundsCheck at hb
  by_contra hlt
  rw [if_pos (by omega)] at hb
  exact hb (by norm_num)

end Base

end Dsp
end OsmoTrx
