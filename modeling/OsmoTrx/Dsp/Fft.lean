import OsmoTrx.Dsp.SignalVector

/-!
# Fourier transforms

`fft.c`, a wrapper for the advanced interface of FFTW.  That library is a parameter: what planning
leaves in the two buffers, and what a plan does to them.

* `initFft`, `cxvecFft` — the code.
* `dft`, `Fftw.Computes` — what a plan is to compute, and where.
* `direct_computes` — writing the sums to where the plan wants them computes it.
-/

namespace OsmoTrx
namespace Dsp

open Resampler

variable {R : Type*}

/-! ## The code -/

/-- `FFTW_FORWARD` and `FFTW_BACKWARD`. -/
inductive FftDirection
  | FORWARD
  | BACKWARD
  deriving DecidableEq, Repr

/-- The arguments of `fftwf_plan_many_dft`, in complex numbers; the output starts at `ooffset`. -/
structure FftwPlan where
  n : ℕ
  howmany : ℕ
  istride : ℕ
  idist : ℕ
  ostride : ℕ
  odist : ℕ
  ooffset : ℕ
  direction : FftDirection
  deriving DecidableEq, Repr

/-- `fft_in` and `fft_out`. -/
structure FftBuffers (R : Type*) where
  input : ℤ → R
  output : ℤ → R

/-- The library: planning with `FFTW_MEASURE`, which writes to the buffers, and
`fftwf_execute`. -/
structure Fftw (R : Type*) where
  measure : FftwPlan → FftBuffers R → FftBuffers R
  execute : FftwPlan → FftBuffers R → FftBuffers R

/-- `init_fft`: the handle and the buffers. -/
def initFft (f : Fftw R) (reverse : Bool) (m istride ostride : ℕ) (b : FftBuffers R)
    (ooffset : ℕ) : FftwPlan × FftBuffers R :=
  let plan : FftwPlan :=
    { n := m
      howmany := istride
      istride := istride
      idist := 1
      ostride := ostride
      odist := 1
      ooffset := ooffset
      direction := if reverse then .BACKWARD else .FORWARD }
  (plan, f.measure plan b)

/-- `cxvec_fft`. -/
def cxvecFft (f : Fftw R) (hdl : FftwPlan) (b : FftBuffers R) : ℤ × FftBuffers R :=
  (0, f.execute hdl b)

/-! ## What is computed -/

variable [CommRing R]

/-- A power of a complex number. -/
def cpow (w : R × R) : ℕ → R × R
  | 0 => (1, 0)
  | n + 1 => cmul (cpow w n) w

/-- Term `k` of the transform of `n` samples, `w` being the root of unity. -/
def dft (w : R × R) (n : ℕ) (x : ℕ → R × R) (k : ℕ) : R × R :=
  ∑ j ∈ Finset.range n, cmul (x j) (cpow w (j * k))

example : dft (0, -1) 4 (fun j => ((j : ℤ), 0)) 1 = (-2, 2) := by decide

/-- The root for a direction, of which `w` is the forward one. -/
def FftDirection.root (w : R × R) : FftDirection → R × R
  | .FORWARD => w
  | .BACKWARD => (w.1, -w.2)

/-- Sample `j` of transform `c` of a plan. -/
def FftwPlan.column (p : FftwPlan) (input : ℤ → R) (c j : ℕ) : R × R :=
  samplesOf input (c * p.idist + j * p.istride)

/-- **The plan is carried out**: every transform, at the strides of the plan; elsewhere the buffers
may hold anything. -/
def Fftw.Computes (f : Fftw R) (w : R × R) (p : FftwPlan) : Prop :=
  ∀ b, ∀ c < p.howmany, ∀ k < p.n,
    samplesOf (f.execute p b).output (p.ooffset + (c * p.odist + k * p.ostride)) =
      dft (p.direction.root w) p.n (p.column b.input c) k

/-! ## The sums themselves -/

omit [CommRing R] in
/-- The floats of a stream of samples. -/
def floatsOf (x : ℤ → R × R) (j : ℤ) : R := if j % 2 = 0 then (x (j / 2)).1 else (x (j / 2)).2

omit [CommRing R] in
@[simp] theorem samplesOf_floatsOf (x : ℤ → R × R) (t : ℤ) : samplesOf (floatsOf x) t = x t := by
  rw [samplesOf, Loop.loadPair, floatsOf, floatsOf, if_pos (by omega), if_neg (by omega),
    show 2 * t / 2 = t by omega, show (2 * t + 1) / 2 = t by omega]

/-- The library with the sums in place of fast transforms, for distance 1. -/
def Fftw.direct (w : R × R) : Fftw R where
  measure _ _ := ⟨fun _ => 0, fun _ => 0⟩
  execute p b :=
    { b with
      output := floatsOf fun t =>
        let u := t - p.ooffset
        if 0 ≤ u ∧ u < p.n * p.ostride ∧ u % p.ostride < p.howmany then
          dft (p.direction.root w) p.n (p.column b.input (u % p.ostride).toNat)
            (u / p.ostride).toNat
        else samplesOf b.output t }

theorem Fftw.direct_computes (w : R × R) {p : FftwPlan} (hdist : p.odist = 1)
    (hstride : p.howmany ≤ p.ostride) : (Fftw.direct w).Computes w p := by
  intro b c hc k hk
  have hlt : c + k * p.ostride < p.n * p.ostride := by
    calc c + k * p.ostride < p.ostride + k * p.ostride := by omega
      _ = (k + 1) * p.ostride := by ring
      _ ≤ p.n * p.ostride := Nat.mul_le_mul_right _ hk
  have hdiv : (((c + k * p.ostride : ℕ) : ℤ) / p.ostride).toNat = k := by
    rw [← Int.natCast_ediv, Int.toNat_natCast, Nat.add_mul_div_right _ _ (by omega),
      Nat.div_eq_of_lt (by omega), zero_add]
  have hmod : ((c + k * p.ostride : ℕ) : ℤ) % p.ostride = c := by
    rw [← Int.natCast_emod, Nat.add_mul_mod_self_right, Nat.mod_eq_of_lt (by omega)]
  have hcell : (p.ooffset : ℤ) + (c * p.odist + k * p.ostride) - p.ooffset =
      (c + k * p.ostride : ℕ) := by
    rw [hdist]
    push_cast
    ring
  rw [Fftw.direct]
  simp only [samplesOf_floatsOf, hcell, hdiv, hmod]
  rw [if_pos ⟨by omega, by exact_mod_cast hlt, by exact_mod_cast hc⟩, Int.toNat_natCast]

end Dsp
end OsmoTrx
