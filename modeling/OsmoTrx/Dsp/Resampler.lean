import OsmoTrx.Dsp.ConvolveSse
import OsmoTrx.Lib.Resample
import OsmoTrx.Lib.Word

/-!
# The rational resampler

`Resampler.cpp` over a commutative ring in place of `float`.  The prototype filter and the
factor it is scaled by are computed in floating point and are parameters here.

* `rotate` — the commutator: output `i` is one tap set of the filterbank at one input sample.
* `checkVecLen_iff` — the accepted lengths are the same multiple of `q` and `p`.
* `rotate_eq` — **rotating a block resamples it**, with the samples in front of the block as
  its history.
* `Reads`, `rotate_congr` — the samples that an output is computed from, and no others.
-/

namespace OsmoTrx
namespace Dsp

variable {R : Type*} [CommRing R]

/-! ## The code -/

def MAX_OUTPUT_LEN : ℕ := 4096

/-- `class Resampler`. -/
structure Resampler (R : Type*) where
  p : ℕ
  q : ℕ
  filtLen : ℕ
  inIndex : ℕ → ℕ
  outPath : ℕ → ℕ
  partitions : ℕ → ℤ → R

/-- The coefficients that the prototype filter has after scaling. -/
def prototypeTap (proto : ℕ → R) (scale : R) (k : ℕ) : R := proto k * scale

namespace Resampler

/-- The constructor. -/
def new (p q filtLen : ℕ) : Resampler R where
  p := p
  q := q
  filtLen := filtLen
  inIndex _ := 0
  outPath _ := 0
  partitions _ _ := 0

/-- `initFilters`: every `p`-th coefficient, as a complex number, in reverse. -/
def initFilters (s : Resampler R) (proto : ℕ → R) (scale : R) : Resampler R :=
  let populated (n i : ℕ) : R × R := (prototypeTap proto scale (i * s.p + n), 0)
  { s with
    partitions := fun n =>
      Loop.pairs s.filtLen (fun i => populated n (s.filtLen - 1 - i)) (s.partitions n) }

/-- `init`. -/
def init (s : Resampler R) (proto : ℕ → R) (scale : R) : Bool × Resampler R :=
  if s.p = 0 ∨ s.q = 0 ∨ s.filtLen = 0 then (false, s)
  else
    (true,
      { s.initFilters proto scale with
        inIndex := fun i => s.q * i / s.p
        outPath := fun i => s.q * i % s.p })

/-- `len`. -/
def len (s : Resampler R) : ℕ := s.filtLen

/-- `check_vec_len`, of `int`s.  It is undefined where it divides by zero. -/
def checkVecLen (inLen outLen p q : ℤ) : Bool :=
  if inLen.tmod q ≠ 0 then false
  else if outLen.tmod p ≠ 0 then false
  else if inLen.tdiv q ≠ outLen.tdiv p then false
  else if outLen > MAX_OUTPUT_LEN then false
  else true

/-- What an array holds after `y` has been left behind the pointer `&out[k]`. -/
def through (k : ℤ) (y : ℤ → R) : ℤ → R := fun j => y (j - k)

/-- `rotate`: its result and the contents of `out`.  The check and the kernel take the sizes as
`int`s, the loop does not. -/
def rotate (c : ConvolveCpuContext R) (s : Resampler R) (inp : ℤ → R) (inLen : ℕ) (out : ℤ → R)
    (outLen : ℕ) : ℤ × (ℤ → R) :=
  if !checkVecLen (i32 inLen) (i32 outLen) (i32 s.p) (i32 s.q) then (-1, out)
  else
    (i32 outLen, Loop.upTo outLen (fun i out =>
      let n := i32 (s.inIndex i)
      let path := i32 (s.outPath i)
      through (2 * i) (convolveReal c inp (i32 inLen) (s.partitions path.toNat) (i32 s.filtLen)
        (ptr out (2 * i)) (i32 (outLen - i)) n 1).2) out)

/-- A complex array as a stream of samples. -/
def samplesOf (x : ℤ → R) (t : ℤ) : R × R := Loop.loadPair x (2 * t)

/-! ## Rotating a block -/

/-- A filter whose taps are stored in reverse, over the samples up to number `n`. -/
theorem dotReal_reversed (x : ℤ → R) {taps : ℕ} (f : ℕ → R) (m : ℤ → R) (n : ℕ) :
    dotReal (window x taps n 0) (Loop.pairs taps (fun i => (f (taps - 1 - i), 0)) m) taps =
      ∑ i ∈ Finset.range taps, f i • samplesOf x (n - i) := by
  have hcell : ∀ i < taps, Loop.pairs taps (fun i => (f (taps - 1 - i), (0 : R))) m (2 * i) =
      f (taps - 1 - i) := by
    intro i hi
    rw [Loop.pairs, if_pos (by omega), if_pos (by omega), show (2 * (i : ℤ) / 2).toNat = i by omega]
  have hpos : ∀ i < taps, ∀ d : ℤ, window x taps n 0 (2 * (i : ℕ) + d) =
      x (2 * ((n : ℤ) - (taps - 1 - i : ℕ)) + d) := by
    intro i hi d
    rw [window, ptr]
    congr 1
    push_cast [Nat.sub_sub, Nat.cast_sub (show 1 + i ≤ taps by omega)]
    ring
  have hdot : dotReal (window x taps n 0)
      (Loop.pairs taps (fun i => (f (taps - 1 - i), 0)) m) taps =
      ∑ i ∈ Finset.range taps, f (taps - 1 - i) • samplesOf x (n - (taps - 1 - i : ℕ)) := by
    refine Prod.ext ?_ ?_
    · simp only [dotReal, Prod.fst_sum]
      refine Finset.sum_congr rfl fun i hi => ?_
      have hi := Finset.mem_range.mp hi
      have h0 := hpos i hi 0
      rw [add_zero, add_zero] at h0
      rw [hcell i hi, h0, mul_comm]
      rfl
    · simp only [dotReal, Prod.snd_sum]
      refine Finset.sum_congr rfl fun i hi => ?_
      have hi := Finset.mem_range.mp hi
      rw [hcell i hi, hpos i hi 1, mul_comm]
      rfl
  rw [hdot, Finset.sum_range_reflect fun i => f i • samplesOf x (n - (i : ℕ))]

omit [CommRing R] in
/-- One sample through a pointer is one pair of the array. -/
theorem through_pairs_one (out : ℤ → R) (k : ℕ) (f : R × R) :
    through (2 * k) (Loop.pairs 1 (fun _ => f) (ptr out (2 * k))) =
      Loop.storePair out (2 * k) f := by
  funext j
  rcases eq_or_ne j (2 * k) with rfl | h0
  · have hne : (2 * k : ℤ) ≠ 2 * k + 1 := by omega
    rw [through, sub_self, Loop.storePair, Function.update_of_ne hne, Function.update_self]
    rfl
  · rcases eq_or_ne j (2 * k + 1) with rfl | h1
    · rw [through, add_sub_cancel_left, Loop.storePair, Function.update_self]
      rfl
    · rw [Loop.storePair_of_ne _ _ h0 h1, through, Loop.pairs, if_neg (by omega), ptr,
        add_sub_cancel]

/-- **The accepted lengths**: as many times `q` samples as there are times `p` outputs. -/
theorem checkVecLen_iff {p q inLen outLen : ℕ} (hp : 0 < p) (hq : 0 < q) :
    checkVecLen inLen outLen p q = true ↔
      ∃ b, inLen = q * b ∧ outLen = p * b ∧ p * b ≤ MAX_OUTPUT_LEN := by
  have htmod : ∀ a b : ℕ, (a : ℤ).tmod b = (a % b : ℕ) := fun a b => (Int.ofNat_tmod a b).symm
  have htdiv : ∀ a b : ℕ, (a : ℤ).tdiv b = (a / b : ℕ) := fun a b => (Int.ofNat_tdiv a b).symm
  simp only [checkVecLen, htmod, htdiv, ne_eq, Nat.cast_inj, Nat.cast_eq_zero, gt_iff_lt,
    Nat.cast_lt]
  constructor
  · intro h
    split_ifs at h with hin hout hblocks hmax
    obtain ⟨b, rfl⟩ := Nat.dvd_of_mod_eq_zero hin
    obtain ⟨b', rfl⟩ := Nat.dvd_of_mod_eq_zero hout
    rw [Nat.mul_div_cancel_left _ hq, Nat.mul_div_cancel_left _ hp] at hblocks
    subst hblocks
    exact ⟨b, rfl, rfl, not_lt.mp hmax⟩
  · rintro ⟨b, rfl, rfl, hmax⟩
    rw [Nat.mul_mod_right, Nat.mul_mod_right, Nat.mul_div_cancel_left _ hq,
      Nat.mul_div_cancel_left _ hp, if_neg (by simp), if_neg (by simp), if_neg (by simp),
      if_neg (by omega)]

@[simp] theorem init_filtLen (s : Resampler R) (proto : ℕ → R) (scale : R) :
    (s.init proto scale).2.filtLen = s.filtLen := by
  unfold init
  split_ifs <;> rfl

@[simp] theorem init_len (s : Resampler R) (proto : ℕ → R) (scale : R) :
    (s.init proto scale).2.len = s.filtLen :=
  init_filtLen s proto scale

theorem init_inIndex {p q taps : ℕ} (hp : 0 < p) (hq : 0 < q) (htaps : 0 < taps) (proto : ℕ → R)
    (scale : R) (i : ℕ) : ((new p q taps).init proto scale).2.inIndex i = q * i / p := by
  rw [init, if_neg (by simp only [new]; omega)]
  rfl

/-- **Rotating a block resamples it**, the samples in front of the block being its
history; nothing behind the block of outputs is written. -/
theorem rotate_eq {p q taps b : ℕ} (hp : 0 < p) (hq : 0 < q) (htaps : 0 < taps)
    (hlen : p * b ≤ MAX_OUTPUT_LEN) (hin : taps ≤ q * b) (hint : q * b < 2 ^ 31) (sse3 : Bool)
    (proto : ℕ → R) (scale : R) (inp out : ℤ → R) :
    rotate (convolveInit sse3) ((new p q taps).init proto scale).2 inp (q * b) out (p * b) =
      (((p * b : ℕ) : ℤ), Loop.pairs (p * b)
        (resample p q taps (prototypeTap proto scale) (samplesOf inp)) out) := by
  have hinit : ((new p q taps).init proto scale).2 =
      { (new p q taps).initFilters proto scale with
        inIndex := fun i => q * i / p
        outPath := fun i => q * i % p } := by
    rw [init, if_neg (by simp only [new]; omega)]
    rfl
  have hb : 0 < b := Nat.pos_of_ne_zero (by rintro rfl; omega)
  have hple : p ≤ p * b := Nat.le_mul_of_pos_right p hb
  have hqle : q ≤ q * b := Nat.le_mul_of_pos_right q hb
  have hmax : MAX_OUTPUT_LEN < 2 ^ 31 := by decide
  have hcheck := (checkVecLen_iff hp hq).mpr ⟨b, rfl, rfl, hlen⟩
  rw [hinit, rotate]
  simp only [initFilters, new, i32_natCast hint, i32_natCast (hlen.trans_lt hmax),
    i32_natCast ((hple.trans hlen).trans_lt hmax), i32_natCast (hqle.trans_lt hint),
    i32_natCast (hin.trans_lt hint), hcheck, Bool.not_true, Bool.false_eq_true, if_false]
  congr 1
  refine Loop.upTo_fill fun i hi m _ => ?_
  have hindex : q * i / p < q * b := resample_index_lt hp hq hi
  have hpath : q * i % p < p := Nat.mod_lt _ hp
  have hrest : i32 (((p * b : ℕ) : ℤ) - i) = ((p * b : ℕ) : ℤ) - i :=
    i32_eq_self (by omega) (by omega)
  rw [i32_natCast (hindex.trans hint), i32_natCast (show q * i % p < 2 ^ 31 by omega), hrest]
  have hbounds : ¬ boundsCheck ((q * b : ℕ) : ℤ) taps (((p * b : ℕ) : ℤ) - i)
      ((q * i / p : ℕ) : ℤ) 1 < 0 := by
    rw [boundsCheck, if_neg (by omega), if_neg (by omega)]
    exact lt_irrefl 0
  rw [convolveReal_eq, realConvolution, if_neg hbounds, ← through_pairs_one,
    resample_polyphase hp]
  refine congrArg (through (2 * (i : ℤ))) ?_
  simp only [Int.toNat_one, Int.toNat_natCast]
  refine Loop.pairs_congr (ptr m (2 * (i : ℤ))) fun k hk => ?_
  obtain rfl : k = 0 := Nat.lt_one_iff.mp hk
  rw [dotReal_reversed inp fun k => prototypeTap proto scale (k * p + q * i % p)]
  refine Finset.sum_congr rfl fun k _ => ?_
  rw [Nat.mul_comm k p]

/-- What `rotate` returns for lengths that it accepts. -/
theorem rotate_fst (c : ConvolveCpuContext R) (s : Resampler R) (inp out : ℤ → R)
    {inLen outLen : ℕ}
    (hcheck : checkVecLen (i32 inLen) (i32 outLen) (i32 s.p) (i32 s.q) = true) :
    (s.rotate c inp inLen out outLen).1 = i32 outLen := by
  rw [rotate, if_neg (by rw [hcheck]; exact Bool.false_ne_true)]

/-! ## What is read -/

omit [CommRing R] in
/-- Output `i` is computed from sample `t`. -/
def Reads (s : Resampler R) (i : ℕ) (t : ℤ) : Prop :=
  ∃ k : ℕ, (k : ℤ) < i32 s.filtLen ∧ t = i32 (s.inIndex i) - k

/-- The sum over a window depends on the samples in it. -/
theorem dotReal_window_congr {x y : ℤ → R} (h : ℤ → R) {taps : ℕ} {n : ℤ}
    (heq : ∀ k < taps, samplesOf x (n - k) = samplesOf y (n - k)) :
    dotReal (window x taps n 0) h taps = dotReal (window y taps n 0) h taps := by
  have hcell : ∀ i < taps, Loop.loadPair x (2 * (((0 : ℕ) : ℤ) - (taps - 1) + n) + 2 * i) =
      Loop.loadPair y (2 * (((0 : ℕ) : ℤ) - (taps - 1) + n) + 2 * i) := by
    intro i hi
    have hpos : 2 * (((0 : ℕ) : ℤ) - (taps - 1) + n) + 2 * i = 2 * (n - (taps - 1 - i : ℕ)) := by
      omega
    rw [hpos]
    exact heq (taps - 1 - i) (by omega)
  unfold dotReal
  refine congrArg₂ Prod.mk (Finset.sum_congr rfl fun i hi => ?_)
    (Finset.sum_congr rfl fun i hi => ?_)
  · exact congrArg (· * h (2 * i)) (congrArg Prod.fst (hcell i (Finset.mem_range.mp hi)))
  · have hsnd := congrArg Prod.snd (hcell i (Finset.mem_range.mp hi))
    simp only [Loop.loadPair, add_assoc] at hsnd
    exact congrArg (· * h (2 * i)) hsnd

/-- **`rotate` depends on no sample but those that it reads.** -/
theorem rotate_congr (sse3 : Bool) (s : Resampler R) {inp inp' : ℤ → R} (inLen outLen : ℕ)
    (out : ℤ → R)
    (h : ∀ i < outLen, ∀ t, s.Reads i t → samplesOf inp t = samplesOf inp' t) :
    s.rotate (convolveInit sse3) inp inLen out outLen =
      s.rotate (convolveInit sse3) inp' inLen out outLen := by
  unfold rotate
  split_ifs with hlen
  · rfl
  · refine congrArg (Prod.mk _) (Loop.upTo_congr fun i hi m => ?_)
    simp only [convolveReal_eq, realConvolution, Int.toNat_one]
    split_ifs with hbounds
    · rfl
    · refine congrArg (through (2 * (i : ℤ))) ?_
      simp only
      refine Loop.pairs_congr _ fun j hj => ?_
      obtain rfl : j = 0 := Nat.lt_one_iff.mp hj
      -- a kernel that is not refused has a tap at least
      obtain ⟨taps, htaps⟩ := Int.eq_ofNat_of_zero_le
        (zero_le_one.trans (one_le_of_boundsCheck hbounds))
      have hread : ∀ k < taps, samplesOf inp (i32 (s.inIndex i) - k) =
          samplesOf inp' (i32 (s.inIndex i) - k) :=
        fun k hk => h i hi _ ⟨k, by omega, rfl⟩
      rw [htaps, Int.toNat_natCast]
      exact dotReal_window_congr _ hread

end Resampler

end Dsp
end OsmoTrx
