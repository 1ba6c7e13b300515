import OsmoTrx.Dsp.ConvolveSse
import OsmoTrx.Lib.Rounding

/-!
# Conversion of samples

`convert_base.c`, the kernels of `convert_sse_3.c` and `convert_sse_4_1.c`, and their selection in
`convert.c`.  The values of `float`s are rational numbers, and a product is exact.

* `convertSi16Lo_eq`, `convertSi16Hi_eq` — four samples of a register, and the four in its other
  half after the swap.
* `sseConvertSi16Ps16n_eq`, `sseConvertSi16Ps_eq` — from `short` to `float`.
* `convertShortFloat_eq` — **with or without the kernels, the same samples** from `short`.
* `pack`, `castShort` — what a vector kernel and a loop of C make of a scaled sample.
* `convertFloatShort_eq` — which of the two each sample of a call goes through.
* `uniform_iff` — **when a call does not show the path** that its samples took.
-/

namespace OsmoTrx
namespace Dsp

/-! ## Registers -/

/-- `__m128i`, eight lanes of 16 bits, lane 0 first. -/
abbrev M128i := Fin 8 → BitVec 16

namespace M128i

/-- A lane of 32 bits is two of 16, the low one first. -/
def lane32 (m : M128i) (d : Fin 4) : BitVec 32 :=
  m ⟨2 * d + 1, by omega⟩ ++ m ⟨2 * d, by omega⟩

/-- The register with the given lanes of 32 bits. -/
def ofLanes32 (a : Fin 4 → BitVec 32) : M128i := fun j =>
  (a ⟨j / 2, by omega⟩).extractLsb' (16 * (j % 2)) 16

end M128i

/-- `_mm_loadu_si128`. -/
def mmLoaduSi128 (p : ℤ → BitVec 16) (k : ℤ) : M128i := fun j => p (k + (j : ℕ))

/-- `_mm_cvtepi16_epi32`: the four low lanes, sign-extended. -/
def mmCvtepi16Epi32 (m : M128i) : M128i :=
  M128i.ofLanes32 fun d => (m ⟨d, by omega⟩).signExtend 32

/-- `_mm_shuffle_epi32`: lanes of 32 bits, two bits of the mask for each. -/
def mmShuffleEpi32 (m : M128i) (imm : ℕ) : M128i :=
  M128i.ofLanes32 fun d => m.lane32 ⟨imm / 4 ^ (d : ℕ) % 4, Nat.mod_lt _ (by norm_num)⟩

/-- `_mm_cvtepi32_ps`. -/
def mmCvtepi32Ps (m : M128i) : M128 ℚ :=
  ⟨floatOfInt (m.lane32 0).toInt, floatOfInt (m.lane32 1).toInt, floatOfInt (m.lane32 2).toInt,
    floatOfInt (m.lane32 3).toInt⟩

/-- `_mm_storeu_ps`. -/
def mmStoreuPs (y : ℤ → ℚ) (k : ℤ) (a : M128 ℚ) : ℤ → ℚ :=
  Function.update (Function.update (Function.update (Function.update y k a.v0) (k + 1) a.v1)
    (k + 2) a.v2) (k + 3) a.v3

/-- `_mm_load1_ps`. -/
def mmLoad1Ps (s : ℚ) : M128 ℚ := ⟨s, s, s, s⟩

/-- One lane of `_mm_cvtps_epi32`: the default rounding, and the indefinite integer for what does
not fit. -/
def cvtps (v : ℚ) : BitVec 32 :=
  if -2 ^ 31 ≤ roundEven v ∧ roundEven v < 2 ^ 31 then BitVec.ofInt 32 (roundEven v)
  else BitVec.intMin 32

/-- `_mm_cvtps_epi32`. -/
def mmCvtpsEpi32 (a : M128 ℚ) : M128i :=
  M128i.ofLanes32 fun d => cvtps (a.lane d)

/-- One lane of `_mm_packs_epi32`: saturation. -/
def packs (b : BitVec 32) : BitVec 16 :=
  BitVec.ofInt 16 (max (-2 ^ 15) (min (2 ^ 15 - 1) b.toInt))

/-- `_mm_packs_epi32`: the lanes of the first register, then those of the second. -/
def mmPacksEpi32 (a b : M128i) : M128i := fun j =>
  if h : (j : ℕ) < 4 then packs (a.lane32 ⟨j, h⟩) else packs (b.lane32 ⟨j - 4, by omega⟩)

/-- `_mm_storeu_si128`. -/
def mmStoreuSi128 (y : ℤ → BitVec 16) (k : ℤ) (m : M128i) : ℤ → BitVec 16 :=
  Loop.upTo 8 (fun j y => if h : j < 8 then Function.update y (k + j) (m ⟨j, h⟩) else y) y

/-! ## From short to float -/

/-- `_sse_convert_si16_ps_16n`. -/
def sseConvertSi16Ps16n (out : ℤ → ℚ) (inp : ℤ → BitVec 16) (len : ℤ) : ℤ → ℚ :=
  Loop.upTo (len.tdiv 16).toNat (fun i out =>
    let m0 := mmLoaduSi128 inp (16 * i + 0)
    let m1 := mmLoaduSi128 inp (16 * i + 8)
    let m2 := mmCvtepi16Epi32 m0
    let m4 := mmCvtepi16Epi32 m1
    let m0 := mmShuffleEpi32 m0 (mmShuffle 1 0 3 2)
    let m1 := mmShuffleEpi32 m1 (mmShuffle 1 0 3 2)
    let m3 := mmCvtepi16Epi32 m0
    let m5 := mmCvtepi16Epi32 m1
    let m6 := mmCvtepi32Ps m2
    let m7 := mmCvtepi32Ps m3
    let m8 := mmCvtepi32Ps m4
    let m9 := mmCvtepi32Ps m5
    let out := mmStoreuPs out (16 * i + 0) m6
    let out := mmStoreuPs out (16 * i + 4) m7
    let out := mmStoreuPs out (16 * i + 8) m8
    mmStoreuPs out (16 * i + 12) m9) out

/-- `_sse_convert_si16_ps`. -/
def sseConvertSi16Ps (out : ℤ → ℚ) (inp : ℤ → BitVec 16) (len : ℤ) : ℤ → ℚ :=
  let start := len.tdiv 16 * 16
  let out := sseConvertSi16Ps16n out inp len
  Loop.upTo (len.tmod 16).toNat
    (fun i out => Function.update out (start + i) (floatOfInt (inp (start + i)).toInt)) out

/-- `base_convert_short_float`. -/
def baseConvertShortFloat (out : ℤ → ℚ) (inp : ℤ → BitVec 16) (len : ℤ) : ℤ → ℚ :=
  Loop.upTo len.toNat (fun i out => Function.update out i (floatOfInt (inp i).toInt)) out

/-! ## From float to short -/

/-- A `float` as a `short` in C: the fraction is dropped.  What does not fit is undefined. -/
def castShort (v : ℚ) : BitVec 16 := BitVec.ofInt 16 (truncate v)

/-- `_sse_convert_scale_ps_si16_8n`. -/
def sseConvertScalePsSi168n (out : ℤ → BitVec 16) (inp : ℤ → ℚ) (scale : ℚ) (len : ℤ) :
    ℤ → BitVec 16 :=
  Loop.upTo (len.tdiv 8).toNat (fun i out =>
    let m0 := mmLoaduPs inp (8 * i + 0)
    let m1 := mmLoaduPs inp (8 * i + 4)
    let m2 := mmLoad1Ps scale
    let m0 := mmMulPs m0 m2
    let m1 := mmMulPs m1 m2
    let m4 := mmCvtpsEpi32 m0
    let m5 := mmCvtpsEpi32 m1
    let m5 := mmPacksEpi32 m4 m5
    mmStoreuSi128 out (8 * i) m5) out

/-- `_sse_convert_scale_ps_si16`. -/
def sseConvertScalePsSi16 (out : ℤ → BitVec 16) (inp : ℤ → ℚ) (scale : ℚ) (len : ℤ) :
    ℤ → BitVec 16 :=
  let start := len.tdiv 8 * 8
  let out := sseConvertScalePsSi168n out inp scale len
  Loop.upTo (len.tmod 8).toNat
    (fun i out => Function.update out (start + i) (castShort (inp (start + i) * scale))) out

/-- `_sse_convert_scale_ps_si16_16n`. -/
def sseConvertScalePsSi1616n (out : ℤ → BitVec 16) (inp : ℤ → ℚ) (scale : ℚ) (len : ℤ) :
    ℤ → BitVec 16 :=
  Loop.upTo (len.tdiv 16).toNat (fun i out =>
    let m0 := mmLoaduPs inp (16 * i + 0)
    let m1 := mmLoaduPs inp (16 * i + 4)
    let m2 := mmLoaduPs inp (16 * i + 8)
    let m3 := mmLoaduPs inp (16 * i + 12)
    let m4 := mmLoad1Ps scale
    let m0 := mmMulPs m0 m4
    let m1 := mmMulPs m1 m4
    let m2 := mmMulPs m2 m4
    let m3 := mmMulPs m3 m4
    let m5 := mmCvtpsEpi32 m0
    let m6 := mmCvtpsEpi32 m1
    let m7 := mmCvtpsEpi32 m2
    let m8 := mmCvtpsEpi32 m3
    let m5 := mmPacksEpi32 m5 m6
    let m7 := mmPacksEpi32 m7 m8
    let out := mmStoreuSi128 out (16 * i + 0) m5
    mmStoreuSi128 out (16 * i + 8) m7) out

/-- `base_convert_float_short`. -/
def baseConvertFloatShort (out : ℤ → BitVec 16) (inp : ℤ → ℚ) (scale : ℚ) (len : ℤ) :
    ℤ → BitVec 16 :=
  Loop.upTo len.toNat (fun i out => Function.update out i (castShort (inp i * scale))) out

/-! ## The selection -/

/-- `struct convert_cpu_context`. -/
structure ConvertCpuContext where
  convertSi16Ps16n : (ℤ → ℚ) → (ℤ → BitVec 16) → ℤ → ℤ → ℚ
  convertSi16Ps : (ℤ → ℚ) → (ℤ → BitVec 16) → ℤ → ℤ → ℚ
  convertScalePsSi1616n : (ℤ → BitVec 16) → (ℤ → ℚ) → ℚ → ℤ → ℤ → BitVec 16
  convertScalePsSi168n : (ℤ → BitVec 16) → (ℤ → ℚ) → ℚ → ℤ → ℤ → BitVec 16
  convertScalePsSi16 : (ℤ → BitVec 16) → (ℤ → ℚ) → ℚ → ℤ → ℤ → BitVec 16

/-- `convert_init`, with what `__builtin_cpu_supports` says of the two extensions. -/
def convertInit (sse3 sse41 : Bool) : ConvertCpuContext where
  convertSi16Ps16n := if sse41 then sseConvertSi16Ps16n else baseConvertShortFloat
  convertSi16Ps := if sse41 then sseConvertSi16Ps else baseConvertShortFloat
  convertScalePsSi1616n := if sse3 then sseConvertScalePsSi1616n else baseConvertFloatShort
  convertScalePsSi168n := if sse3 then sseConvertScalePsSi168n else baseConvertFloatShort
  convertScalePsSi16 := if sse3 then sseConvertScalePsSi16 else baseConvertFloatShort

/-- `convert_float_short`. -/
def convertFloatShort (c : ConvertCpuContext) (out : ℤ → BitVec 16) (inp : ℤ → ℚ) (scale : ℚ)
    (len : ℤ) : ℤ → BitVec 16 :=
  if len.tmod 16 = 0 then c.convertScalePsSi1616n out inp scale len
  else if len.tmod 8 = 0 then c.convertScalePsSi168n out inp scale len
  else c.convertScalePsSi16 out inp scale len

/-- `convert_short_float`. -/
def convertShortFloat (c : ConvertCpuContext) (out : ℤ → ℚ) (inp : ℤ → BitVec 16) (len : ℤ) :
    ℤ → ℚ :=
  if len.tmod 16 = 0 then c.convertSi16Ps16n out inp len
  else c.convertSi16Ps out inp len

/-! ## Lanes -/

namespace M128i

@[simp] theorem lane32_ofLanes32 (a : Fin 4 → BitVec 32) (d : Fin 4) :
    (ofLanes32 a).lane32 d = a d := by
  have hhi : (2 * (d : ℕ) + 1) / 2 = d := by omega
  have hlo : 2 * (d : ℕ) / 2 = d := by omega
  have hhi' : (2 * (d : ℕ) + 1) % 2 = 1 := by omega
  have hlo' : 2 * (d : ℕ) % 2 = 0 := by omega
  simp only [lane32, ofLanes32, hhi, hlo, hhi', hlo', Fin.eta]
  exact BitVec.extractLsb'_append_extractLsb'

end M128i

/-- The swap of the halves brings the high lanes down. -/
theorem shuffleEpi32_swap (m : M128i) (d : Fin 4) :
    mmShuffleEpi32 m (mmShuffle 1 0 3 2) ⟨d, by omega⟩ = m ⟨4 + d, by omega⟩ := by
  fin_cases d
  · exact BitVec.extractLsb'_append_eq_right
  · exact BitVec.extractLsb'_append_eq_left
  · exact BitVec.extractLsb'_append_eq_right
  · exact BitVec.extractLsb'_append_eq_left

/-- A `short` is exact as a `float`. -/
theorem floatOfInt_short (s : BitVec 16) : floatOfInt s.toInt = s.toInt := by
  have hlo := BitVec.le_toInt s
  have hhi : s.toInt < 2 ^ 15 := BitVec.toInt_lt
  exact floatOfInt_eq_self (by omega)

/-- The four low samples of a register. -/
theorem convertSi16Lo_eq (m : M128i) :
    mmCvtepi32Ps (mmCvtepi16Epi32 m) =
      ⟨(m 0).toInt, (m 1).toInt, (m 2).toInt, (m 3).toInt⟩ := by
  have hlane : ∀ d : Fin 4, floatOfInt ((mmCvtepi16Epi32 m).lane32 d).toInt =
      (m ⟨d, by omega⟩).toInt := by
    intro d
    rw [mmCvtepi16Epi32, M128i.lane32_ofLanes32, BitVec.toInt_signExtend_of_le (by norm_num),
      floatOfInt_short]
  simp only [mmCvtepi32Ps, hlane]
  rfl

/-- After the swap, the four samples of the other half. -/
theorem convertSi16Hi_eq (m : M128i) :
    mmCvtepi32Ps (mmCvtepi16Epi32 (mmShuffleEpi32 m (mmShuffle 1 0 3 2))) =
      ⟨(m 4).toInt, (m 5).toInt, (m 6).toInt, (m 7).toInt⟩ := by
  rw [convertSi16Lo_eq]
  have h0 := shuffleEpi32_swap m 0
  have h1 := shuffleEpi32_swap m 1
  have h2 := shuffleEpi32_swap m 2
  have h3 := shuffleEpi32_swap m 3
  ext
  · exact congrArg (fun s : BitVec 16 => (s.toInt : ℚ)) h0
  · exact congrArg (fun s : BitVec 16 => (s.toInt : ℚ)) h1
  · exact congrArg (fun s : BitVec 16 => (s.toInt : ℚ)) h2
  · exact congrArg (fun s : BitVec 16 => (s.toInt : ℚ)) h3

/-- A store behind the cells that are filled fills four more. -/
theorem mmStoreuPs_fill (n : ℕ) (f : ℕ → ℚ) (out : ℤ → ℚ) {k : ℤ} (hk : k = n) :
    mmStoreuPs (Loop.fill n f out) k ⟨f n, f (n + 1), f (n + 2), f (n + 3)⟩ =
      Loop.fill (n + 4) f out := by
  subst hk
  rw [mmStoreuPs, Loop.fill_succ n f out rfl, Loop.fill_succ (n + 1) f out (by push_cast; rfl),
    Loop.fill_succ (n + 2) f out (by push_cast; rfl),
    Loop.fill_succ (n + 3) f out (by push_cast; rfl)]

/-- A store behind the cells that are filled fills eight more. -/
theorem mmStoreuSi128_fill (n : ℕ) (f : ℕ → BitVec 16) (out : ℤ → BitVec 16) {k : ℤ} {m : M128i}
    (hk : k = n) (hm : ∀ j : Fin 8, m j = f (n + j)) :
    mmStoreuSi128 (Loop.fill n f out) k m = Loop.fill (n + 8) f out := by
  subst hk
  refine Loop.upTo_induction (P := fun j y => y = Loop.fill (n + j) f out) rfl ?_
  rintro j hj _ rfl
  rw [dif_pos hj, hm]
  exact Loop.fill_succ (n + j) f out (by push_cast; rfl)

/-- Truncating division cuts a length in two; a negative one has no parts. -/
theorem toNat_tdiv_tmod (len : ℤ) (c : ℕ) :
    (len.tdiv c).toNat = len.toNat / c ∧ (len.tmod c).toNat = len.toNat % c := by
  rcases le_or_gt 0 len with h | h
  · obtain ⟨n, rfl⟩ := Int.eq_ofNat_of_zero_le h
    rw [← Int.ofNat_tdiv, ← Int.ofNat_tmod, Int.toNat_natCast, Int.toNat_natCast, Int.toNat_natCast]
    exact ⟨rfl, rfl⟩
  · obtain ⟨n, hn⟩ := Int.eq_ofNat_of_zero_le (neg_nonneg.mpr h.le)
    obtain rfl : len = -n := by omega
    have hzero : ∀ m : ℕ, (-(m : ℤ)).toNat = 0 := fun m => by omega
    rw [Int.neg_tdiv, Int.neg_tmod, ← Int.ofNat_tdiv, ← Int.ofNat_tmod, hzero, hzero, hzero,
      Nat.zero_div, Nat.zero_mod]
    exact ⟨rfl, rfl⟩

/-! ## Short to float -/

section ShortFloat

variable (out : ℤ → ℚ) (inp : ℤ → BitVec 16) (len : ℤ)

/-- The samples as `float`s. -/
def floats (inp : ℤ → BitVec 16) (k : ℕ) : ℚ := ((inp k).toInt : ℚ)

theorem baseConvertShortFloat_eq :
    baseConvertShortFloat out inp len = Loop.fill len.toNat (floats inp) out := by
  refine Loop.upTo_induction (P := fun j y => y = Loop.fill j (floats inp) out) (by simp) ?_
  rintro j hj _ rfl
  rw [floatOfInt_short]
  exact Loop.fill_succ j (floats inp) out rfl

/-- The eight samples of a register, in two stores. -/
theorem convertSi16_fill (n : ℕ) {k l : ℤ} (hk : k = n) (hl : l = n + 4) :
    mmStoreuPs
      (mmStoreuPs (Loop.fill n (floats inp) out) k
        (mmCvtepi32Ps (mmCvtepi16Epi32 (mmLoaduSi128 inp k)))) l
      (mmCvtepi32Ps (mmCvtepi16Epi32 (mmShuffleEpi32 (mmLoaduSi128 inp k) (mmShuffle 1 0 3 2)))) =
    Loop.fill (n + 8) (floats inp) out := by
  subst hk
  have hlane : ∀ j : Fin 8, ((mmLoaduSi128 inp n j).toInt : ℚ) = floats inp (n + j) := by
    intro j
    simp only [mmLoaduSi128, floats, Nat.cast_add]
  rw [convertSi16Hi_eq, convertSi16Lo_eq]
  simp only [hlane]
  have hstore := mmStoreuPs_fill (n + 4) (floats inp) out (hl.trans (by push_cast; rfl))
  rw [← hstore, ← mmStoreuPs_fill n (floats inp) out rfl]
  rfl

/-- **The kernel** converts sixteen samples a turn. -/
theorem sseConvertSi16Ps16n_eq :
    sseConvertSi16Ps16n out inp len =
      Loop.fill (16 * (len.tdiv 16).toNat) (floats inp) out := by
  refine Loop.upTo_fill_groups fun i _ => ?_
  have hlo := convertSi16_fill out inp (16 * i) (k := 16 * i + 0) (l := 16 * i + 4)
    (by push_cast; ring) (by push_cast; ring)
  have hhi := convertSi16_fill out inp (16 * i + 8) (k := 16 * i + 8) (l := 16 * i + 12)
    (by push_cast; ring) (by push_cast; ring)
  simp only [hlo, hhi]

/-- The loop over the rest takes on where the kernel stops. -/
theorem sseConvertSi16Ps_eq :
    sseConvertSi16Ps out inp len = Loop.fill len.toNat (floats inp) out := by
  obtain ⟨hdiv, hmod⟩ := toNat_tdiv_tmod len 16
  have hfill := Loop.upTo_fill_from (16 * (len.toNat / 16)) (len.toNat % 16) (floats inp) out
  rw [Nat.div_add_mod] at hfill
  rw [sseConvertSi16Ps, sseConvertSi16Ps16n_eq, ← hfill]
  norm_num at hdiv hmod
  rw [hdiv, hmod]
  refine Loop.upTo_congr fun i hi m => ?_
  have hnonneg : 0 ≤ len.tdiv 16 := Int.tdiv_nonneg (by omega) (by norm_num)
  have hcell : len.tdiv 16 * 16 + (i : ℤ) = ((16 * (len.toNat / 16) : ℕ) : ℤ) + i := by
    push_cast
    omega
  rw [hcell, floatOfInt_short, floats]
  push_cast
  rfl

/-- **With or without the kernels, the same samples**: whatever the extensions, for every length
`convert_short_float` writes each sample of the input to its own place and nothing else, which is
what the plain loop does. -/
theorem convertShortFloat_eq (sse3 sse41 : Bool) :
    convertShortFloat (convertInit sse3 sse41) out inp len =
      (fun j => if 0 ≤ j ∧ j < len then ((inp j).toInt : ℚ) else out j) ∧
    convertShortFloat (convertInit sse3 sse41) out inp len = baseConvertShortFloat out inp len := by
  have hfill : convertShortFloat (convertInit sse3 sse41) out inp len =
      Loop.fill len.toNat (floats inp) out := by
    unfold convertShortFloat convertInit
    cases sse41 with
    | false => simp only [Bool.false_eq_true, if_false, ite_self, baseConvertShortFloat_eq]
    | true =>
      simp only [if_true, sseConvertSi16Ps16n_eq, sseConvertSi16Ps_eq]
      split_ifs with h16
      · obtain ⟨hdiv, hmod⟩ := toNat_tdiv_tmod len 16
        norm_num at hdiv hmod
        rw [hdiv]
        congr 1
        omega
      · rfl
  refine ⟨?_, by rw [hfill, baseConvertShortFloat_eq]⟩
  rw [hfill]
  funext j
  by_cases hj : 0 ≤ j ∧ j < len
  · rw [if_pos hj, Loop.fill, if_pos (by omega), floats, Int.toNat_of_nonneg hj.1]
  · rw [if_neg hj, Loop.fill, if_neg (by omega)]

end ShortFloat

/-! ## Float to short -/

section FloatShort

variable (out : ℤ → BitVec 16) (inp : ℤ → ℚ) (scale : ℚ) (len : ℤ)

/-- A scaled sample as the vector kernels convert it: rounded, then saturated. -/
def pack (v : ℚ) : BitVec 16 := packs (cvtps v)

theorem baseConvertFloatShort_eq :
    baseConvertFloatShort out inp scale len =
      Loop.fill len.toNat (fun k => castShort (inp k * scale)) out := by
  refine Loop.upTo_induction
    (P := fun j y => y = Loop.fill j (fun k => castShort (inp k * scale)) out) (by simp) ?_
  rintro j hj _ rfl
  exact Loop.fill_succ j (fun k => castShort (inp k * scale)) out rfl

/-- Eight samples, scaled, converted and packed into one register. -/
theorem packed_eq {k l : ℤ} (hl : l = k + 4) (j : Fin 8) :
    mmPacksEpi32 (mmCvtpsEpi32 (mmMulPs (mmLoaduPs inp k) (mmLoad1Ps scale)))
      (mmCvtpsEpi32 (mmMulPs (mmLoaduPs inp l) (mmLoad1Ps scale))) j =
    pack (inp (k + (j : ℕ)) * scale) := by
  subst hl
  simp only [mmPacksEpi32, mmCvtpsEpi32, M128i.lane32_ofLanes32]
  fin_cases j <;> simp [pack, mmMulPs, mmLoaduPs, mmLoad1Ps, M128.lane, add_assoc]

/-- One store of eight samples. -/
theorem packed_fill (n : ℕ) {k l : ℤ} (hk : k = n) (hl : l = n + 4) :
    mmStoreuSi128 (Loop.fill n (fun k => pack (inp k * scale)) out) k
      (mmPacksEpi32 (mmCvtpsEpi32 (mmMulPs (mmLoaduPs inp k) (mmLoad1Ps scale)))
        (mmCvtpsEpi32 (mmMulPs (mmLoaduPs inp l) (mmLoad1Ps scale)))) =
    Loop.fill (n + 8) (fun k => pack (inp k * scale)) out := by
  refine mmStoreuSi128_fill n _ out hk fun j => ?_
  rw [packed_eq inp scale (hl.trans (by rw [hk])) j, hk, Nat.cast_add]

theorem sseConvertScalePsSi168n_eq :
    sseConvertScalePsSi168n out inp scale len =
      Loop.fill (8 * (len.tdiv 8).toNat) (fun k => pack (inp k * scale)) out := by
  refine Loop.upTo_fill_groups fun i _ => ?_
  have hcell : (8 * (i : ℤ)) = 8 * i + 0 := by ring
  have hstore := packed_fill out inp scale (8 * i) (k := 8 * i + 0) (l := 8 * i + 4)
    (by push_cast; ring) (by push_cast; ring)
  rw [← hstore, ← hcell]

theorem sseConvertScalePsSi1616n_eq :
    sseConvertScalePsSi1616n out inp scale len =
      Loop.fill (16 * (len.tdiv 16).toNat) (fun k => pack (inp k * scale)) out := by
  refine Loop.upTo_fill_groups fun i _ => ?_
  have hlo := packed_fill out inp scale (16 * i) (k := 16 * i + 0) (l := 16 * i + 4)
    (by push_cast; ring) (by push_cast; ring)
  have hhi := packed_fill out inp scale (16 * i + 8) (k := 16 * i + 8) (l := 16 * i + 12)
    (by push_cast; ring) (by push_cast; ring)
  simp only [hlo, hhi]

/-- What sample `k` of a call becomes: `body` of them go through the registers. -/
def converted (inp : ℤ → ℚ) (scale : ℚ) (body k : ℕ) : BitVec 16 :=
  if k < body then pack (inp k * scale) else castShort (inp k * scale)

theorem sseConvertScalePsSi16_eq :
    sseConvertScalePsSi16 out inp scale len =
      Loop.fill len.toNat (converted inp scale (8 * (len.toNat / 8))) out := by
  obtain ⟨hdiv, hmod⟩ := toNat_tdiv_tmod len 8
  norm_num at hdiv hmod
  have hbody : Loop.fill (8 * (len.toNat / 8)) (fun k => pack (inp k * scale)) out =
      Loop.fill (8 * (len.toNat / 8)) (converted inp scale (8 * (len.toNat / 8))) out :=
    Loop.fill_congr out fun k hk => by rw [converted, if_pos hk]
  have hfill := Loop.upTo_fill_from (8 * (len.toNat / 8)) (len.toNat % 8)
    (converted inp scale (8 * (len.toNat / 8))) out
  rw [Nat.div_add_mod] at hfill
  rw [sseConvertScalePsSi16, sseConvertScalePsSi168n_eq, hdiv, hbody, ← hfill, hmod]
  refine Loop.upTo_congr fun i hi m => ?_
  have hnonneg : 0 ≤ len.tdiv 8 := Int.tdiv_nonneg (by omega) (by norm_num)
  have hcell : len.tdiv 8 * 8 + (i : ℤ) = ((8 * (len.toNat / 8) : ℕ) : ℤ) + i := by
    push_cast
    omega
  rw [hcell, converted, if_neg (by omega)]
  push_cast
  rfl

/-- **The path of each sample**: with the extension, whole groups of eight go through the registers
and the rest through the loop of C; without it, all go through that loop. -/
theorem convertFloatShort_eq (sse3 sse41 : Bool) :
    convertFloatShort (convertInit sse3 sse41) out inp scale len =
      Loop.fill len.toNat
        (converted inp scale (if sse3 then 8 * (len.toNat / 8) else 0)) out := by
  unfold convertFloatShort convertInit
  cases sse3 with
  | false =>
    simp only [Bool.false_eq_true, if_false, ite_self, baseConvertFloatShort_eq]
    rfl
  | true =>
    simp only [if_true, sseConvertScalePsSi1616n_eq, sseConvertScalePsSi168n_eq,
      sseConvertScalePsSi16_eq]
    obtain ⟨hdiv, hmod⟩ := toNat_tdiv_tmod len 16
    obtain ⟨hdiv8, hmod8⟩ := toNat_tdiv_tmod len 8
    norm_num at hdiv hmod hdiv8 hmod8
    split_ifs with h16 h8
    · rw [hdiv, show 16 * (len.toNat / 16) = len.toNat by omega]
      exact Loop.fill_congr out fun k hk => by rw [converted, if_pos (by omega)]
    · rw [hdiv8, show 8 * (len.toNat / 8) = len.toNat by omega]
      exact Loop.fill_congr out fun k hk => by rw [converted, if_pos (by omega)]
    · rfl

theorem convertFloatShort_apply (sse3 sse41 : Bool) {i : ℕ} (hi : (i : ℤ) < len) :
    convertFloatShort (convertInit sse3 sse41) out inp scale len i =
      converted inp scale (if sse3 then 8 * (len.toNat / 8) else 0) i := by
  rw [convertFloatShort_eq, Loop.fill, if_pos (by omega), Int.toNat_natCast]

end FloatShort

/-! ## The two paths -/

/-- The values that a `short` has room for. -/
def InRange (v : ℚ) : Prop := -32768 ≤ v ∧ v ≤ 32767

/-- All scaled samples of a call are in range. -/
def AllInRange (inp : ℤ → ℚ) (scale : ℚ) (len : ℤ) : Prop :=
  ∀ i : ℕ, (i : ℤ) < len → InRange (inp i * scale)

/-- The call does not show the path that its samples took: each comes out as it would in any call
in range, of any length, at any position, with or without the extensions. -/
def Uniform (inp : ℤ → ℚ) (scale : ℚ) (len : ℤ) : Prop :=
  ∀ i : ℕ, (i : ℤ) < len → ∀ (sse3 sse41 sse3' sse41' : Bool) (out out' : ℤ → BitVec 16)
    (inp' : ℤ → ℚ) (scale' : ℚ) (len' : ℤ) (i' : ℕ), (i' : ℤ) < len' →
    AllInRange inp' scale' len' → inp' i' * scale' = inp i * scale →
    convertFloatShort (convertInit sse3 sse41) out inp scale len i =
      convertFloatShort (convertInit sse3' sse41') out' inp' scale' len' i'

/-- In range the registers hold the rounded value: nothing saturates. -/
theorem pack_eq {v : ℚ} (h : InRange v) : pack v = BitVec.ofInt 16 (roundEven v) := by
  obtain ⟨hlo, hhi⟩ := roundEven_mem (a := -32768) (b := 32767) (by exact_mod_cast h.1)
    (by exact_mod_cast h.2)
  have hint : (BitVec.ofInt 32 (roundEven v)).toInt = roundEven v := by
    rw [BitVec.toInt_ofInt]
    exact Int.bmod_eq_of_le_mul_two (by omega) (by omega)
  rw [pack, cvtps, if_pos (by omega), packs, hint]
  congr 1
  omega

/-- A `short` tells the integers in range apart. -/
theorem ofInt_short_inj {a b : ℤ} (ha : -32768 ≤ a ∧ a ≤ 32767) (hb : -32768 ≤ b ∧ b ≤ 32767) :
    BitVec.ofInt 16 a = BitVec.ofInt 16 b ↔ a = b := by
  refine ⟨fun h => ?_, fun h => by rw [h]⟩
  have hint := congrArg BitVec.toInt h
  rw [BitVec.toInt_ofInt, BitVec.toInt_ofInt, Int.bmod_eq_of_le_mul_two (by omega) (by omega),
    Int.bmod_eq_of_le_mul_two (by omega) (by omega)] at hint
  exact hint

/-- **The two paths agree** on small fractions only. -/
theorem pack_eq_castShort_iff {v : ℚ} (h : InRange v) : pack v = castShort v ↔ SmallFraction v := by
  have hlo : ((-32768 : ℤ) : ℚ) ≤ v := by exact_mod_cast h.1
  have hhi : v ≤ ((32767 : ℤ) : ℚ) := by exact_mod_cast h.2
  rw [pack_eq h, castShort, ofInt_short_inj (roundEven_mem hlo hhi) (truncate_mem hlo hhi),
    roundEven_eq_truncate_iff]

theorem converted_of_smallFraction {inp : ℤ → ℚ} {scale : ℚ} {body k : ℕ}
    (h : pack (inp k * scale) = castShort (inp k * scale)) :
    converted inp scale body k = castShort (inp k * scale) := by
  unfold converted
  split_ifs
  · exact h
  · rfl

/-- **When a call does not show the path** its samples took, for every length, scale and input in
range: when each scaled sample has a fraction below a half, or of a half next to an even integer. -/
theorem uniform_iff (inp : ℤ → ℚ) (scale : ℚ) (len : ℤ) (hrange : AllInRange inp scale len) :
    Uniform inp scale len ↔ ∀ i : ℕ, (i : ℤ) < len → SmallFraction (inp i * scale) := by
  constructor
  · intro h i hi
    have hv := hrange i hi
    -- the same value, once in a plain loop and once at the head of a register
    have hplain : converted inp scale 0 i = castShort (inp i * scale) := by
      rw [converted, if_neg (Nat.not_lt_zero i)]
    have hpack : converted (fun _ => inp i * scale) 1 8 0 = pack (inp i * scale) := by
      rw [converted, if_pos (by norm_num), mul_one]
    have hregister := h i hi false false true false (fun _ => 0) (fun _ => 0)
      (fun _ => inp i * scale) 1 8 0 (by norm_num) (fun j _ => by simpa using hv) (mul_one _)
    rw [convertFloatShort_apply _ _ _ _ _ _ hi,
      convertFloatShort_apply _ _ _ _ _ _ (by norm_num)] at hregister
    exact (pack_eq_castShort_iff hv).mp ((hplain.symm.trans hregister).trans hpack).symm
  · intro h i hi sse3 sse41 sse3' sse41' out out' inp' scale' len' i' hi' _ heq
    have hagree := (pack_eq_castShort_iff (hrange i hi)).mpr (h i hi)
    rw [convertFloatShort_apply _ _ _ _ _ _ hi, convertFloatShort_apply _ _ _ _ _ _ hi',
      converted_of_smallFraction hagree, converted_of_smallFraction (by rw [heq, hagree]), heq]

/-- Integers come out the same on each path. -/
theorem uniform_iff_integers :
    AllInRange (fun j => (j : ℚ)) 3 9 ∧ Uniform (fun j => (j : ℚ)) 3 9 := by
  have hrange : AllInRange (fun j => (j : ℚ)) 3 9 := by
    intro i hi
    have h0 : (0 : ℚ) ≤ i := Nat.cast_nonneg i
    have h9 : (i : ℚ) < 9 := by exact_mod_cast hi
    constructor <;> push_cast <;> linarith
  refine ⟨hrange, (uniform_iff _ _ _ hrange).mpr fun i _ => ?_⟩
  rw [← roundEven_eq_truncate_iff]
  have hint : (((i : ℤ) : ℚ) * 3) = ((3 * i : ℤ) : ℚ) := by push_cast; ring
  rw [hint, roundEven_intCast, truncate_intCast]

/-- Nine samples of the same value in one call: the first eight are rounded up, the ninth loses its
fraction. -/
theorem ninth_sample_differs :
    AllInRange (fun _ => 3 / 4) 1 9 ∧
      convertFloatShort (convertInit true true) (fun _ => 0) (fun _ => 3 / 4) 1 9 0 = 1 ∧
      convertFloatShort (convertInit true true) (fun _ => 0) (fun _ => 3 / 4) 1 9 8 = 0 := by
  refine ⟨fun i _ => ⟨by norm_num, by norm_num⟩, ?_, ?_⟩
  · decide +kernel
  · decide +kernel

end Dsp
end OsmoTrx
