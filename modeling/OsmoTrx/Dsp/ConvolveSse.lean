import OsmoTrx.Dsp.Convolve

/-!
# Convolution with vector instructions

The kernels of `convolve_sse_3.c` and their selection in `convolve.c`.  A register `__m128`
is four lanes of the ring; the registers of a kernel keep the names they have in the source.

* `evens`, `odds` — what a kernel makes of four complex numbers: the real and the imaginary
  parts, in another order.
* `sum_evens`, `sum_odds` — four taps at once; `dotReal_quads` cuts a filter into fours.
* `sseConvReal4_eq` to `sseConvCmplx8n_eq` — each kernel fills its result like the plain loop.
* `convolve_refines_base` — **with or without the kernels, the same result**, for all
  arguments.
-/

namespace OsmoTrx
namespace Dsp

variable {R : Type*} [CommRing R]

/-! ## Registers -/

/-- `__m128`, lane 0 first. -/
@[ext]
structure M128 (R : Type*) where
  v0 : R
  v1 : R
  v2 : R
  v3 : R

namespace M128

/-- The lane with a given number. -/
def lane (m : M128 R) : ℕ → R
  | 0 => m.v0
  | 1 => m.v1
  | 2 => m.v2
  | _ => m.v3

/-- The sum of the lanes. -/
def sum (m : M128 R) : R := m.v0 + m.v1 + m.v2 + m.v3

end M128

/-- `_MM_SHUFFLE`. -/
def mmShuffle (z y x w : ℕ) : ℕ := z * 64 + y * 16 + x * 4 + w

/-- `_mm_load_ps`: the address is aligned. -/
def mmLoadPs (p : ℤ → R) (k : ℤ) : M128 R := ⟨p k, p (k + 1), p (k + 2), p (k + 3)⟩

/-- `_mm_loadu_ps`: the address need not be aligned. -/
def mmLoaduPs (p : ℤ → R) (k : ℤ) : M128 R := ⟨p k, p (k + 1), p (k + 2), p (k + 3)⟩

/-- `_mm_setzero_ps`. -/
def mmSetzeroPs : M128 R := ⟨0, 0, 0, 0⟩

/-- `_mm_shuffle_ps`: two lanes of the first register, then two of the second, two bits of
the mask for each. -/
def mmShufflePs (a b : M128 R) (imm : ℕ) : M128 R :=
  ⟨a.lane (imm % 4), a.lane (imm / 4 % 4), b.lane (imm / 16 % 4), b.lane (imm / 64 % 4)⟩

/-- `_mm_mul_ps`. -/
def mmMulPs (a b : M128 R) : M128 R := ⟨a.v0 * b.v0, a.v1 * b.v1, a.v2 * b.v2, a.v3 * b.v3⟩

/-- `_mm_add_ps`. -/
def mmAddPs (a b : M128 R) : M128 R := ⟨a.v0 + b.v0, a.v1 + b.v1, a.v2 + b.v2, a.v3 + b.v3⟩

/-- `_mm_sub_ps`. -/
def mmSubPs (a b : M128 R) : M128 R := ⟨a.v0 - b.v0, a.v1 - b.v1, a.v2 - b.v2, a.v3 - b.v3⟩

/-- `_mm_hadd_ps`: the sums of neighbouring lanes. -/
def mmHaddPs (a b : M128 R) : M128 R := ⟨a.v0 + a.v1, a.v2 + a.v3, b.v0 + b.v1, b.v2 + b.v3⟩

/-- `_mm_store_ss`: store lane 0. -/
def mmStoreSs (y : ℤ → R) (k : ℤ) (a : M128 R) : ℤ → R := Function.update y k a.v0

/-! ## Kernels -/

/-- The parameters of a convolution and the contents of `y` afterwards. -/
abbrev Kernel (R : Type*) :=
  (x : ℤ → R) → (xLen : ℤ) → (h : ℤ → R) → (hLen : ℤ) → (y : ℤ → R) →
    (yLen start len : ℤ) → ℤ → R

/-- `sse_conv_real4`. -/
def sseConvReal4 : Kernel R := fun x _ h hLen y _ start len =>
  let x' := ptr x (2 * (-(hLen - 1) + start))
  let m0 := mmLoadPs h 0
  let m1 := mmLoadPs h 4
  let m7 := mmShufflePs m0 m1 (mmShuffle 0 2 0 2)
  Loop.upTo len.toNat (fun i y =>
    let m0 := mmLoaduPs x' (2 * i + 0)
    let m1 := mmLoaduPs x' (2 * i + 4)
    let m2 := mmShufflePs m0 m1 (mmShuffle 0 2 0 2)
    let m3 := mmShufflePs m0 m1 (mmShuffle 1 3 1 3)
    let m4 := mmMulPs m2 m7
    let m5 := mmMulPs m3 m7
    let m6 := mmHaddPs m4 m5
    let m0 := mmHaddPs m6 m6
    let y := mmStoreSs y (2 * i + 0) m0
    let m0 := mmShufflePs m0 m0 (mmShuffle 0 3 2 1)
    mmStoreSs y (2 * i + 1) m0) y

/-- `sse_conv_real8`. -/
def sseConvReal8 : Kernel R := fun x _ h hLen y _ start len =>
  let x' := ptr x (2 * (-(hLen - 1) + start))
  let m0 := mmLoadPs h 0
  let m1 := mmLoadPs h 4
  let m2 := mmLoadPs h 8
  let m3 := mmLoadPs h 12
  let m4 := mmShufflePs m0 m1 (mmShuffle 0 2 0 2)
  let m5 := mmShufflePs m2 m3 (mmShuffle 0 2 0 2)
  Loop.upTo len.toNat (fun i y =>
    let m0 := mmLoaduPs x' (2 * i + 0)
    let m1 := mmLoaduPs x' (2 * i + 4)
    let m2 := mmLoaduPs x' (2 * i + 8)
    let m3 := mmLoaduPs x' (2 * i + 12)
    let m6 := mmShufflePs m0 m1 (mmShuffle 0 2 0 2)
    let m7 := mmShufflePs m0 m1 (mmShuffle 1 3 1 3)
    let m8 := mmShufflePs m2 m3 (mmShuffle 0 2 0 2)
    let m9 := mmShufflePs m2 m3 (mmShuffle 1 3 1 3)
    let m6 := mmMulPs m6 m4
    let m7 := mmMulPs m7 m4
    let m8 := mmMulPs m8 m5
    let m9 := mmMulPs m9 m5
    let m6 := mmAddPs m6 m8
    let m7 := mmAddPs m7 m9
    let m6 := mmHaddPs m6 m7
    let m6 := mmHaddPs m6 m6
    let y := mmStoreSs y (2 * i + 0) m6
    let m6 := mmShufflePs m6 m6 (mmShuffle 0 3 2 1)
    mmStoreSs y (2 * i + 1) m6) y

/-- `sse_conv_real12`. -/
def sseConvReal12 : Kernel R := fun x _ h hLen y _ start len =>
  let x' := ptr x (2 * (-(hLen - 1) + start))
  let m0 := mmLoadPs h 0
  let m1 := mmLoadPs h 4
  let m2 := mmLoadPs h 8
  let m3 := mmLoadPs h 12
  let m4 := mmLoadPs h 16
  let m5 := mmLoadPs h 20
  let m12 := mmShufflePs m0 m1 (mmShuffle 0 2 0 2)
  let m13 := mmShufflePs m2 m3 (mmShuffle 0 2 0 2)
  let m14 := mmShufflePs m4 m5 (mmShuffle 0 2 0 2)
  Loop.upTo len.toNat (fun i y =>
    let m0 := mmLoaduPs x' (2 * i + 0)
    let m1 := mmLoaduPs x' (2 * i + 4)
    let m2 := mmLoaduPs x' (2 * i + 8)
    let m3 := mmLoaduPs x' (2 * i + 12)
    let m4 := mmShufflePs m0 m1 (mmShuffle 0 2 0 2)
    let m5 := mmShufflePs m0 m1 (mmShuffle 1 3 1 3)
    let m6 := mmShufflePs m2 m3 (mmShuffle 0 2 0 2)
    let m7 := mmShufflePs m2 m3 (mmShuffle 1 3 1 3)
    let m0 := mmLoaduPs x' (2 * i + 16)
    let m1 := mmLoaduPs x' (2 * i + 20)
    let m8 := mmShufflePs m0 m1 (mmShuffle 0 2 0 2)
    let m9 := mmShufflePs m0 m1 (mmShuffle 1 3 1 3)
    let m0 := mmMulPs m4 m12
    let m1 := mmMulPs m5 m12
    let m2 := mmMulPs m6 m13
    let m3 := mmMulPs m7 m13
    let m4 := mmMulPs m8 m14
    let m5 := mmMulPs m9 m14
    let m8 := mmAddPs m0 m2
    let m9 := mmAddPs m1 m3
    let m10 := mmAddPs m8 m4
    let m11 := mmAddPs m9 m5
    let m2 := mmHaddPs m10 m11
    let m3 := mmHaddPs m2 m2
    let y := mmStoreSs y (2 * i + 0) m3
    let m3 := mmShufflePs m3 m3 (mmShuffle 0 3 2 1)
    mmStoreSs y (2 * i + 1) m3) y

/-- `sse_conv_real16`. -/
def sseConvReal16 : Kernel R := fun x _ h hLen y _ start len =>
  let x' := ptr x (2 * (-(hLen - 1) + start))
  let m0 := mmLoadPs h 0
  let m1 := mmLoadPs h 4
  let m2 := mmLoadPs h 8
  let m3 := mmLoadPs h 12
  let m4 := mmLoadPs h 16
  let m5 := mmLoadPs h 20
  let m6 := mmLoadPs h 24
  let m7 := mmLoadPs h 28
  let m12 := mmShufflePs m0 m1 (mmShuffle 0 2 0 2)
  let m13 := mmShufflePs m2 m3 (mmShuffle 0 2 0 2)
  let m14 := mmShufflePs m4 m5 (mmShuffle 0 2 0 2)
  let m15 := mmShufflePs m6 m7 (mmShuffle 0 2 0 2)
  Loop.upTo len.toNat (fun i y =>
    let m0 := mmLoaduPs x' (2 * i + 0)
    let m1 := mmLoaduPs x' (2 * i + 4)
    let m2 := mmLoaduPs x' (2 * i + 8)
    let m3 := mmLoaduPs x' (2 * i + 12)
    let m4 := mmShufflePs m0 m1 (mmShuffle 0 2 0 2)
    let m5 := mmShufflePs m0 m1 (mmShuffle 1 3 1 3)
    let m6 := mmShufflePs m2 m3 (mmShuffle 0 2 0 2)
    let m7 := mmShufflePs m2 m3 (mmShuffle 1 3 1 3)
    let m0 := mmLoaduPs x' (2 * i + 16)
    let m1 := mmLoaduPs x' (2 * i + 20)
    let m2 := mmLoaduPs x' (2 * i + 24)
    let m3 := mmLoaduPs x' (2 * i + 28)
    let m8 := mmShufflePs m0 m1 (mmShuffle 0 2 0 2)
    let m9 := mmShufflePs m0 m1 (mmShuffle 1 3 1 3)
    let m10 := mmShufflePs m2 m3 (mmShuffle 0 2 0 2)
    let m11 := mmShufflePs m2 m3 (mmShuffle 1 3 1 3)
    let m0 := mmMulPs m4 m12
    let m1 := mmMulPs m5 m12
    let m2 := mmMulPs m6 m13
    let m3 := mmMulPs m7 m13
    let m4 := mmMulPs m8 m14
    let m5 := mmMulPs m9 m14
    let m6 := mmMulPs m10 m15
    let m7 := mmMulPs m11 m15
    let m8 := mmAddPs m0 m2
    let m9 := mmAddPs m1 m3
    let m10 := mmAddPs m4 m6
    let m11 := mmAddPs m5 m7
    let m0 := mmAddPs m8 m10
    let m1 := mmAddPs m9 m11
    let m2 := mmHaddPs m0 m1
    let m3 := mmHaddPs m2 m2
    let y := mmStoreSs y (2 * i + 0) m3
    let m3 := mmShufflePs m3 m3 (mmShuffle 0 3 2 1)
    mmStoreSs y (2 * i + 1) m3) y

/-- `sse_conv_real20`. -/
def sseConvReal20 : Kernel R := fun x _ h hLen y _ start len =>
  let x' := ptr x (2 * (-(hLen - 1) + start))
  let m0 := mmLoadPs h 0
  let m1 := mmLoadPs h 4
  let m2 := mmLoadPs h 8
  let m3 := mmLoadPs h 12
  let m4 := mmLoadPs h 16
  let m5 := mmLoadPs h 20
  let m6 := mmLoadPs h 24
  let m7 := mmLoadPs h 28
  let m8 := mmLoadPs h 32
  let m9 := mmLoadPs h 36
  let m11 := mmShufflePs m0 m1 (mmShuffle 0 2 0 2)
  let m12 := mmShufflePs m2 m3 (mmShuffle 0 2 0 2)
  let m13 := mmShufflePs m4 m5 (mmShuffle 0 2 0 2)
  let m14 := mmShufflePs m6 m7 (mmShuffle 0 2 0 2)
  let m15 := mmShufflePs m8 m9 (mmShuffle 0 2 0 2)
  Loop.upTo len.toNat (fun i y =>
    let m0 := mmLoaduPs x' (2 * i + 0)
    let m1 := mmLoaduPs x' (2 * i + 4)
    let m2 := mmLoaduPs x' (2 * i + 8)
    let m3 := mmLoaduPs x' (2 * i + 12)
    let m4 := mmLoaduPs x' (2 * i + 16)
    let m5 := mmLoaduPs x' (2 * i + 20)
    let m6 := mmShufflePs m0 m1 (mmShuffle 0 2 0 2)
    let m7 := mmShufflePs m0 m1 (mmShuffle 1 3 1 3)
    let m8 := mmShufflePs m2 m3 (mmShuffle 0 2 0 2)
    let m9 := mmShufflePs m2 m3 (mmShuffle 1 3 1 3)
    let m0 := mmShufflePs m4 m5 (mmShuffle 0 2 0 2)
    let m1 := mmShufflePs m4 m5 (mmShuffle 1 3 1 3)
    let m2 := mmMulPs m6 m11
    let m3 := mmMulPs m7 m11
    let m4 := mmMulPs m8 m12
    let m5 := mmMulPs m9 m12
    let m6 := mmMulPs m0 m13
    let m7 := mmMulPs m1 m13
    let m0 := mmAddPs m2 m4
    let m1 := mmAddPs m3 m5
    let m8 := mmAddPs m0 m6
    let m9 := mmAddPs m1 m7
    let m0 := mmLoaduPs x' (2 * i + 24)
    let m1 := mmLoaduPs x' (2 * i + 28)
    let m2 := mmLoaduPs x' (2 * i + 32)
    let m3 := mmLoaduPs x' (2 * i + 36)
    let m4 := mmShufflePs m0 m1 (mmShuffle 0 2 0 2)
    let m5 := mmShufflePs m0 m1 (mmShuffle 1 3 1 3)
    let m6 := mmShufflePs m2 m3 (mmShuffle 0 2 0 2)
    let m7 := mmShufflePs m2 m3 (mmShuffle 1 3 1 3)
    let m0 := mmMulPs m4 m14
    let m1 := mmMulPs m5 m14
    let m2 := mmMulPs m6 m15
    let m3 := mmMulPs m7 m15
    let m4 := mmAddPs m0 m2
    let m5 := mmAddPs m1 m3
    let m0 := mmAddPs m8 m4
    let m1 := mmAddPs m9 m5
    let m2 := mmHaddPs m0 m1
    let m3 := mmHaddPs m2 m2
    let y := mmStoreSs y (2 * i + 0) m3
    let m3 := mmShufflePs m3 m3 (mmShuffle 0 3 2 1)
    mmStoreSs y (2 * i + 1) m3) y

/-- The loop over the taps of `sse_conv_real4n`: the registers `m6` and `m7`. -/
def sseReal4nTaps (x' h : ℤ → R) (i taps : ℕ) : M128 R × M128 R :=
  Loop.upTo taps (fun n (m6, m7) =>
    let m0 := mmLoadPs h (8 * n + 0)
    let m1 := mmLoadPs h (8 * n + 4)
    let m2 := mmShufflePs m0 m1 (mmShuffle 0 2 0 2)
    let m0 := mmLoaduPs x' (2 * i + 8 * n + 0)
    let m1 := mmLoaduPs x' (2 * i + 8 * n + 4)
    let m4 := mmShufflePs m0 m1 (mmShuffle 0 2 0 2)
    let m5 := mmShufflePs m0 m1 (mmShuffle 1 3 1 3)
    let m0 := mmMulPs m2 m4
    let m1 := mmMulPs m2 m5
    (mmAddPs m6 m0, mmAddPs m7 m1)) (mmSetzeroPs, mmSetzeroPs)

/-- `sse_conv_real4n`. -/
def sseConvReal4n : Kernel R := fun x _ h hLen y _ start len =>
  let x' := ptr x (2 * (-(hLen - 1) + start))
  Loop.upTo len.toNat (fun i y =>
    let m := sseReal4nTaps x' h i (hLen.tdiv 4).toNat
    let m0 := mmHaddPs m.1 m.2
    let m0 := mmHaddPs m0 m0
    let y := mmStoreSs y (2 * i + 0) m0
    let m0 := mmShufflePs m0 m0 (mmShuffle 0 3 2 1)
    mmStoreSs y (2 * i + 1) m0) y

/-- The loop over the taps of `sse_conv_cmplx_4n`: the registers `m6` and `m7`. -/
def sseCmplx4nTaps (x' h : ℤ → R) (i taps : ℕ) : M128 R × M128 R :=
  Loop.upTo taps (fun n (m6, m7) =>
    let m0 := mmLoadPs h (8 * n + 0)
    let m1 := mmLoadPs h (8 * n + 4)
    let m2 := mmShufflePs m0 m1 (mmShuffle 0 2 0 2)
    let m3 := mmShufflePs m0 m1 (mmShuffle 1 3 1 3)
    let m0 := mmLoaduPs x' (2 * i + 8 * n + 0)
    let m1 := mmLoaduPs x' (2 * i + 8 * n + 4)
    let m4 := mmShufflePs m0 m1 (mmShuffle 0 2 0 2)
    let m5 := mmShufflePs m0 m1 (mmShuffle 1 3 1 3)
    let m0 := mmMulPs m2 m4
    let m1 := mmMulPs m3 m5
    let m2 := mmMulPs m2 m5
    let m3 := mmMulPs m3 m4
    let m0 := mmSubPs m0 m1
    let m2 := mmAddPs m2 m3
    (mmAddPs m6 m0, mmAddPs m7 m2)) (mmSetzeroPs, mmSetzeroPs)

/-- `sse_conv_cmplx_4n`. -/
def sseConvCmplx4n : Kernel R := fun x _ h hLen y _ start len =>
  let x' := ptr x (2 * (-(hLen - 1) + start))
  Loop.upTo len.toNat (fun i y =>
    let m := sseCmplx4nTaps x' h i (hLen.tdiv 4).toNat
    let m0 := mmHaddPs m.1 m.2
    let m0 := mmHaddPs m0 m0
    let y := mmStoreSs y (2 * i + 0) m0
    let m0 := mmShufflePs m0 m0 (mmShuffle 0 3 2 1)
    mmStoreSs y (2 * i + 1) m0) y

/-- The loop over the taps of `sse_conv_cmplx_8n`: the registers `m12` to `m15`. -/
def sseCmplx8nTaps (x' h : ℤ → R) (i taps : ℕ) : M128 R × M128 R × M128 R × M128 R :=
  Loop.upTo taps (fun n (m12, m13, m14, m15) =>
    let m0 := mmLoadPs h (16 * n + 0)
    let m1 := mmLoadPs h (16 * n + 4)
    let m2 := mmLoadPs h (16 * n + 8)
    let m3 := mmLoadPs h (16 * n + 12)
    let m4 := mmShufflePs m0 m1 (mmShuffle 0 2 0 2)
    let m5 := mmShufflePs m0 m1 (mmShuffle 1 3 1 3)
    let m6 := mmShufflePs m2 m3 (mmShuffle 0 2 0 2)
    let m7 := mmShufflePs m2 m3 (mmShuffle 1 3 1 3)
    let m0 := mmLoaduPs x' (2 * i + 16 * n + 0)
    let m1 := mmLoaduPs x' (2 * i + 16 * n + 4)
    let m2 := mmLoaduPs x' (2 * i + 16 * n + 8)
    let m3 := mmLoaduPs x' (2 * i + 16 * n + 12)
    let m8 := mmShufflePs m0 m1 (mmShuffle 0 2 0 2)
    let m9 := mmShufflePs m0 m1 (mmShuffle 1 3 1 3)
    let m10 := mmShufflePs m2 m3 (mmShuffle 0 2 0 2)
    let m11 := mmShufflePs m2 m3 (mmShuffle 1 3 1 3)
    let m0 := mmMulPs m4 m8
    let m1 := mmMulPs m5 m9
    let m2 := mmMulPs m6 m10
    let m3 := mmMulPs m7 m11
    let m4 := mmMulPs m4 m9
    let m5 := mmMulPs m5 m8
    let m6 := mmMulPs m6 m11
    let m7 := mmMulPs m7 m10
    let m0 := mmSubPs m0 m1
    let m2 := mmSubPs m2 m3
    let m4 := mmAddPs m4 m5
    let m6 := mmAddPs m6 m7
    (mmAddPs m12 m0, mmAddPs m13 m2, mmAddPs m14 m4, mmAddPs m15 m6))
    (mmSetzeroPs, mmSetzeroPs, mmSetzeroPs, mmSetzeroPs)

/-- `sse_conv_cmplx_8n`. -/
def sseConvCmplx8n : Kernel R := fun x _ h hLen y _ start len =>
  let x' := ptr x (2 * (-(hLen - 1) + start))
  Loop.upTo len.toNat (fun i y =>
    let m := sseCmplx8nTaps x' h i (hLen.tdiv 8).toNat
    let m0 := mmAddPs m.1 m.2.1
    let m1 := mmAddPs m.2.2.1 m.2.2.2
    let m2 := mmHaddPs m0 m1
    let m2 := mmHaddPs m2 m2
    let y := mmStoreSs y (2 * i + 0) m2
    let m2 := mmShufflePs m2 m2 (mmShuffle 0 3 2 1)
    mmStoreSs y (2 * i + 1) m2) y

/-! ## Selection -/

/-- `struct convolve_cpu_context`; the results of the plain loops are not looked at. -/
structure ConvolveCpuContext (R : Type*) where
  convCmplx4n : Kernel R
  convCmplx8n : Kernel R
  convCmplx : Kernel R
  convReal4 : Kernel R
  convReal8 : Kernel R
  convReal12 : Kernel R
  convReal16 : Kernel R
  convReal20 : Kernel R
  convReal4n : Kernel R
  convReal : Kernel R

/-- The plain loops as kernels. -/
def plainReal : Kernel R := fun x xLen h hLen y yLen start len =>
  (baseConvolveRealLoop x xLen h hLen y yLen start len).2

def plainComplex : Kernel R := fun x xLen h hLen y yLen start len =>
  (baseConvolveComplexLoop x xLen h hLen y yLen start len).2

/-- `convolve_init`, with or without SSE3. -/
def convolveInit (sse3 : Bool) : ConvolveCpuContext R :=
  let c : ConvolveCpuContext R :=
    { convCmplx4n := plainComplex
      convCmplx8n := plainComplex
      convCmplx := plainComplex
      convReal4 := plainReal
      convReal8 := plainReal
      convReal12 := plainReal
      convReal16 := plainReal
      convReal20 := plainReal
      convReal4n := plainReal
      convReal := plainReal }
  if sse3 then
    { c with
      convCmplx4n := sseConvCmplx4n
      convCmplx8n := sseConvCmplx8n
      convReal4 := sseConvReal4
      convReal8 := sseConvReal8
      convReal12 := sseConvReal12
      convReal16 := sseConvReal16
      convReal20 := sseConvReal20
      convReal4n := sseConvReal4n }
  else c

/-- The kernel `convolve_real` selects. -/
def selectReal (c : ConvolveCpuContext R) (hLen : ℤ) : Kernel R :=
  if hLen = 4 then c.convReal4
  else if hLen = 8 then c.convReal8
  else if hLen = 12 then c.convReal12
  else if hLen = 16 then c.convReal16
  else if hLen = 20 then c.convReal20
  else if hLen.tmod 4 = 0 then c.convReal4n
  else c.convReal

/-- The kernel `convolve_complex` selects. -/
def selectComplex (c : ConvolveCpuContext R) (hLen : ℤ) : Kernel R :=
  if hLen.tmod 8 = 0 then c.convCmplx8n
  else if hLen.tmod 4 = 0 then c.convCmplx4n
  else c.convCmplx

/-- `convolve_real`. -/
def convolveReal (c : ConvolveCpuContext R) (x : ℤ → R) (xLen : ℤ) (h : ℤ → R) (hLen : ℤ)
    (y : ℤ → R) (yLen start len : ℤ) : ℤ × (ℤ → R) :=
  if boundsCheck xLen hLen yLen start len < 0 then (-1, y)
  else (len, selectReal c hLen x xLen h hLen (clear y (len * 2)) yLen start len)

/-- `convolve_complex`. -/
def convolveComplex (c : ConvolveCpuContext R) (x : ℤ → R) (xLen : ℤ) (h : ℤ → R) (hLen : ℤ)
    (y : ℤ → R) (yLen start len : ℤ) : ℤ × (ℤ → R) :=
  if boundsCheck xLen hLen yLen start len < 0 then (-1, y)
  else (len, selectComplex c hLen x xLen h hLen (clear y (len * 2)) yLen start len)

/-! ## Four taps -/

/-- The real parts of four complex numbers, as the kernels arrange them. -/
def evens (p : ℤ → R) (k : ℤ) : M128 R := ⟨p (k + 2), p k, p (k + 6), p (k + 4)⟩

/-- The imaginary parts. -/
def odds (p : ℤ → R) (k : ℤ) : M128 R := ⟨p (k + 3), p (k + 1), p (k + 7), p (k + 5)⟩

omit [CommRing R] in
theorem mmLoaduPs_eq (p : ℤ → R) (k : ℤ) : mmLoaduPs p k = mmLoadPs p k := rfl

omit [CommRing R] in
theorem shuffle_evens (p : ℤ → R) {a b : ℤ} (h : b = a + 4) :
    mmShufflePs (mmLoadPs p a) (mmLoadPs p b) (mmShuffle 0 2 0 2) = evens p a := by
  subst h
  simp [mmShufflePs, mmShuffle, M128.lane, mmLoadPs, evens, add_assoc]

omit [CommRing R] in
theorem shuffle_odds (p : ℤ → R) {a b : ℤ} (h : b = a + 4) :
    mmShufflePs (mmLoadPs p a) (mmLoadPs p b) (mmShuffle 1 3 1 3) = odds p a := by
  subst h
  simp [mmShufflePs, mmShuffle, M128.lane, mmLoadPs, odds, add_assoc]

omit [CommRing R] in
/-- A load through the pointer a kernel sets up is a load from the window of the sample. -/
theorem mmLoadPs_window (x : ℤ → R) (hLen start : ℤ) (i : ℕ) (c : ℤ) :
    mmLoadPs (ptr x (2 * (-(hLen - 1) + start))) (2 * i + c) =
      mmLoadPs (window x hLen start i) c := by
  have hcell : ∀ j : ℤ, 2 * (-(hLen - 1) + start) + (2 * i + j) =
      2 * (i - (hLen - 1) + start) + j := fun j => by ring
  simp only [mmLoadPs, window, ptr, add_assoc (2 * (i : ℤ)), hcell]

@[simp] theorem M128.sum_add (a b : M128 R) : (mmAddPs a b).sum = a.sum + b.sum := by
  simp only [M128.sum, mmAddPs]
  ring

@[simp] theorem M128.sum_sub (a b : M128 R) : (mmSubPs a b).sum = a.sum - b.sum := by
  simp only [M128.sum, mmSubPs]
  ring

@[simp] theorem M128.sum_zero : (mmSetzeroPs : M128 R).sum = 0 := by
  simp [M128.sum, mmSetzeroPs]

theorem mmMulPs_comm (a b : M128 R) : mmMulPs a b = mmMulPs b a := by
  simp only [mmMulPs, mul_comm]

/-- The end of every kernel: the lanes are added up and the two sums stored. -/
theorem store_sums (y : ℤ → R) (i : ℕ) (a b : M128 R) :
    mmStoreSs (mmStoreSs y (2 * i + 0) (mmHaddPs (mmHaddPs a b) (mmHaddPs a b))) (2 * i + 1)
      (mmShufflePs (mmHaddPs (mmHaddPs a b) (mmHaddPs a b))
        (mmHaddPs (mmHaddPs a b) (mmHaddPs a b)) (mmShuffle 0 3 2 1)) =
    Loop.storePair y (2 * i) (a.sum, b.sum) := by
  simp [mmStoreSs, mmShufflePs, mmShuffle, M128.lane, mmHaddPs, M128.sum, Loop.storePair,
    add_assoc]

/-- Four taps of a real filter. -/
def quadReal (p q : ℤ → R) (k : ℤ) : R × R := dotReal (ptr p k) (ptr q k) 4

/-- Four taps of a complex filter. -/
def quadComplex (p q : ℤ → R) (k : ℤ) : R × R := dotComplex (ptr p k) (ptr q k) 4

theorem sum_evens (p q : ℤ → R) (k : ℤ) :
    (mmMulPs (evens p k) (evens q k)).sum = (quadReal p q k).1 := by
  simp [M128.sum, mmMulPs, evens, quadReal, dotReal, ptr, Finset.sum_range_succ]
  ring

theorem sum_odds (p q : ℤ → R) (k : ℤ) :
    (mmMulPs (odds p k) (evens q k)).sum = (quadReal p q k).2 := by
  simp [M128.sum, mmMulPs, evens, odds, quadReal, dotReal, ptr, Finset.sum_range_succ]
  ring

theorem sum_re (p q : ℤ → R) (k : ℤ) :
    (mmMulPs (evens q k) (evens p k)).sum - (mmMulPs (odds q k) (odds p k)).sum =
      (quadComplex p q k).1 := by
  simp [M128.sum, mmMulPs, evens, odds, quadComplex, dotComplex, ptr, Finset.sum_range_succ]
  ring

theorem sum_im (p q : ℤ → R) (k : ℤ) :
    (mmMulPs (evens q k) (odds p k)).sum + (mmMulPs (odds q k) (evens p k)).sum =
      (quadComplex p q k).2 := by
  simp [M128.sum, mmMulPs, evens, odds, quadComplex, dotComplex, ptr, Finset.sum_range_succ]
  ring

/-- **A filter cut into fours.** -/
theorem dotReal_quads (p q : ℤ → R) (n : ℕ) :
    dotReal p q (4 * n) = ∑ i ∈ Finset.range n, quadReal p q (8 * i) := by
  have hcell : ∀ i j : ℕ, (2 * ((4 * i + j : ℕ) : ℤ)) = 8 * i + 2 * j := fun i j => by
    push_cast
    ring
  refine Prod.ext ?_ ?_
  · simp only [Prod.fst_sum, dotReal, quadReal, ptr]
    rw [Loop.sum_range_mul]
    simp only [hcell]
  · simp only [Prod.snd_sum, dotReal, quadReal, ptr]
    rw [Loop.sum_range_mul]
    simp only [hcell, add_assoc]

theorem dotComplex_quads (p q : ℤ → R) (n : ℕ) :
    dotComplex p q (4 * n) = ∑ i ∈ Finset.range n, quadComplex p q (8 * i) := by
  have hcell : ∀ i j : ℕ, (2 * ((4 * i + j : ℕ) : ℤ)) = 8 * i + 2 * j := fun i j => by
    push_cast
    ring
  refine Prod.ext ?_ ?_
  · simp only [Prod.fst_sum, dotComplex, quadComplex, ptr]
    rw [Loop.sum_range_mul]
    simp only [hcell, add_assoc]
  · simp only [Prod.snd_sum, dotComplex, quadComplex, ptr]
    rw [Loop.sum_range_mul]
    simp only [hcell, add_assoc]

/-! ## The kernels -/

section Kernels

variable (x : ℤ → R) (xLen : ℤ) (h : ℤ → R) (hLen : ℤ) (y : ℤ → R) (yLen start len : ℤ)

theorem sseConvReal4_eq : sseConvReal4 x xLen h hLen y yLen start len =
    Loop.pairs len.toNat (fun i => dotReal (window x hLen start i) h 4) y := by
  refine Loop.upTo_fill fun i _ m _ => ?_
  have hq := dotReal_quads (window x hLen start i) h 1
  rw [Finset.sum_range_one] at hq
  simp (disch := norm_num) only [mmLoaduPs_eq, mmLoadPs_window, shuffle_evens, shuffle_odds,
    store_sums, sum_evens, sum_odds]
  exact congrArg (Loop.storePair m (2 * i)) hq.symm

theorem sseConvReal8_eq : sseConvReal8 x xLen h hLen y yLen start len =
    Loop.pairs len.toNat (fun i => dotReal (window x hLen start i) h 8) y := by
  refine Loop.upTo_fill fun i _ m _ => ?_
  have hq := dotReal_quads (window x hLen start i) h 2
  rw [Finset.sum_range_succ, Finset.sum_range_one] at hq
  simp (disch := norm_num) only [mmLoaduPs_eq, mmLoadPs_window, shuffle_evens, shuffle_odds,
    store_sums, M128.sum_add, sum_evens, sum_odds]
  exact congrArg (Loop.storePair m (2 * i)) hq.symm

theorem sseConvReal12_eq : sseConvReal12 x xLen h hLen y yLen start len =
    Loop.pairs len.toNat (fun i => dotReal (window x hLen start i) h 12) y := by
  refine Loop.upTo_fill fun i _ m _ => ?_
  have hq := dotReal_quads (window x hLen start i) h 3
  rw [Finset.sum_range_succ, Finset.sum_range_succ, Finset.sum_range_one] at hq
  simp (disch := norm_num) only [mmLoaduPs_eq, mmLoadPs_window, shuffle_evens, shuffle_odds,
    store_sums, M128.sum_add, sum_evens, sum_odds]
  exact congrArg (Loop.storePair m (2 * i)) hq.symm

theorem sseConvReal16_eq : sseConvReal16 x xLen h hLen y yLen start len =
    Loop.pairs len.toNat (fun i => dotReal (window x hLen start i) h 16) y := by
  refine Loop.upTo_fill fun i _ m _ => ?_
  have hq := dotReal_quads (window x hLen start i) h 4
  rw [Finset.sum_range_succ, Finset.sum_range_succ, Finset.sum_range_succ,
    Finset.sum_range_one, add_assoc] at hq
  simp (disch := norm_num) only [mmLoaduPs_eq, mmLoadPs_window, shuffle_evens, shuffle_odds,
    store_sums, M128.sum_add, sum_evens, sum_odds]
  exact congrArg (Loop.storePair m (2 * i)) hq.symm

theorem sseConvReal20_eq : sseConvReal20 x xLen h hLen y yLen start len =
    Loop.pairs len.toNat (fun i => dotReal (window x hLen start i) h 20) y := by
  refine Loop.upTo_fill fun i _ m _ => ?_
  have hq := dotReal_quads (window x hLen start i) h 5
  rw [Finset.sum_range_succ, Finset.sum_range_succ, Finset.sum_range_succ,
    Finset.sum_range_succ, Finset.sum_range_one, add_assoc] at hq
  simp (disch := norm_num) only [mmLoaduPs_eq, mmLoadPs_window, shuffle_evens, shuffle_odds,
    store_sums, M128.sum_add, sum_evens, sum_odds]
  exact congrArg (Loop.storePair m (2 * i)) hq.symm

/-- The registers after the loop over the taps add up to the sample. -/
theorem sseReal4nTaps_sum (i taps : ℕ) :
    let m := sseReal4nTaps (ptr x (2 * (-(hLen - 1) + start))) h i taps
    (m.1.sum, m.2.sum) = dotReal (window x hLen start i) h (4 * taps) := by
  rw [dotReal_quads]
  refine Loop.upTo_induction (P := fun n (m : M128 R × M128 R) => (m.1.sum, m.2.sum) =
    ∑ k ∈ Finset.range n, quadReal (window x hLen start i) h (8 * k)) ?_ ?_
  · simp
  · rintro n - ⟨m6, m7⟩ hm
    simp (disch := ring1) only [mmLoaduPs_eq, add_assoc (2 * (i : ℤ)), mmLoadPs_window,
      shuffle_evens, shuffle_odds, M128.sum_add, mmMulPs_comm (evens h _), sum_evens, sum_odds]
    rw [Finset.sum_range_succ, ← hm, add_zero]
    rfl

theorem sseConvReal4n_eq {n : ℕ} (hn : hLen = 4 * n) :
    sseConvReal4n x xLen h hLen y yLen start len =
    Loop.pairs len.toNat (fun i => dotReal (window x hLen start i) h hLen.toNat) y := by
  have htaps : hLen.tdiv 4 = n := by rw [hn, Int.mul_tdiv_cancel_left _ (by norm_num)]
  refine Loop.upTo_fill fun i _ m _ => ?_
  have hsum := sseReal4nTaps_sum x h hLen start i n
  simp only [htaps, Int.toNat_natCast, store_sums]
  rw [show hLen.toNat = 4 * n by omega]
  exact congrArg (Loop.storePair m (2 * i)) hsum

theorem sseCmplx4nTaps_sum (i taps : ℕ) :
    let m := sseCmplx4nTaps (ptr x (2 * (-(hLen - 1) + start))) h i taps
    (m.1.sum, m.2.sum) = dotComplex (window x hLen start i) h (4 * taps) := by
  rw [dotComplex_quads]
  refine Loop.upTo_induction (P := fun n (m : M128 R × M128 R) => (m.1.sum, m.2.sum) =
    ∑ k ∈ Finset.range n, quadComplex (window x hLen start i) h (8 * k)) ?_ ?_
  · simp
  · rintro n - ⟨m6, m7⟩ hm
    simp (disch := ring1) only [mmLoaduPs_eq, add_assoc (2 * (i : ℤ)), mmLoadPs_window,
      shuffle_evens, shuffle_odds, M128.sum_add, M128.sum_sub, sum_re, sum_im]
    rw [Finset.sum_range_succ, ← hm, add_zero]
    rfl

theorem sseConvCmplx4n_eq {n : ℕ} (hn : hLen = 4 * n) :
    sseConvCmplx4n x xLen h hLen y yLen start len =
      Loop.pairs len.toNat (fun i => dotComplex (window x hLen start i) h hLen.toNat) y := by
  have htaps : hLen.tdiv 4 = n := by rw [hn, Int.mul_tdiv_cancel_left _ (by norm_num)]
  refine Loop.upTo_fill fun i _ m _ => ?_
  have hsum := sseCmplx4nTaps_sum x h hLen start i n
  simp only [htaps, Int.toNat_natCast, store_sums]
  rw [show hLen.toNat = 4 * n by omega]
  exact congrArg (Loop.storePair m (2 * i)) hsum

theorem sseCmplx8nTaps_sum (i taps : ℕ) :
    let m := sseCmplx8nTaps (ptr x (2 * (-(hLen - 1) + start))) h i taps
    (m.1.sum + m.2.1.sum, m.2.2.1.sum + m.2.2.2.sum) =
      dotComplex (window x hLen start i) h (4 * (2 * taps)) := by
  rw [dotComplex_quads, Loop.sum_range_mul]
  refine Loop.upTo_induction (P := fun n (m : M128 R × M128 R × M128 R × M128 R) =>
    (m.1.sum + m.2.1.sum, m.2.2.1.sum + m.2.2.2.sum) = ∑ k ∈ Finset.range n,
      ∑ j ∈ Finset.range 2, quadComplex (window x hLen start i) h (8 * (2 * k + j : ℕ))) ?_ ?_
  · simp
  · rintro n - ⟨m12, m13, m14, m15⟩ hm
    have hlo : (16 * n + 0 : ℤ) = 8 * ((2 * n + 0 : ℕ) : ℤ) := by push_cast; ring
    have hhi : (16 * n + 8 : ℤ) = 8 * ((2 * n + 1 : ℕ) : ℤ) := by push_cast; ring
    simp (disch := ring1) only [mmLoaduPs_eq, add_assoc (2 * (i : ℤ)), mmLoadPs_window,
      shuffle_evens, shuffle_odds, M128.sum_add, M128.sum_sub, sum_re, sum_im]
    rw [hlo, hhi, Finset.sum_range_succ, ← hm, Finset.sum_range_succ, Finset.sum_range_one]
    refine Prod.ext ?_ ?_
    · simp only [Prod.fst_add]
      ring
    · simp only [Prod.snd_add]
      ring

theorem sseConvCmplx8n_eq {n : ℕ} (hn : hLen = 8 * n) :
    sseConvCmplx8n x xLen h hLen y yLen start len =
      Loop.pairs len.toNat (fun i => dotComplex (window x hLen start i) h hLen.toNat) y := by
  have htaps : hLen.tdiv 8 = n := by rw [hn, Int.mul_tdiv_cancel_left _ (by norm_num)]
  refine Loop.upTo_fill fun i _ m _ => ?_
  have hsum := sseCmplx8nTaps_sum x h hLen start i n
  simp only [htaps, Int.toNat_natCast, store_sums, M128.sum_add]
  rw [show hLen.toNat = 4 * (2 * n) by omega]
  exact congrArg (Loop.storePair m (2 * i)) hsum

/-! ## With or without the kernels -/

/-- Whatever kernel is selected, a cleared result is filled like by the plain loop. -/
theorem selectReal_eq (sse3 : Bool) (hpos : 1 ≤ hLen) :
    selectReal (convolveInit sse3) hLen x xLen h hLen (clear y (len * 2)) yLen start len =
      Loop.pairs len.toNat (fun i => dotReal (window x hLen start i) h hLen.toNat) y := by
  cases sse3 with
  | false =>
    have hplain : selectReal (convolveInit false) hLen = (plainReal : Kernel R) := by
      simp [selectReal, convolveInit]
    rw [hplain, plainReal, baseConvolveRealLoop_eq]
  | true =>
    simp only [selectReal, convolveInit, if_true]
    rw [← pairs_clear]
    split_ifs with h4 h8 h12 h16 h20 h4n
    · rw [sseConvReal4_eq, h4]
      rfl
    · rw [sseConvReal8_eq, h8]
      rfl
    · rw [sseConvReal12_eq, h12]
      rfl
    · rw [sseConvReal16_eq, h16]
      rfl
    · rw [sseConvReal20_eq, h20]
      rfl
    · obtain ⟨n, hn⟩ := Int.eq_ofNat_of_zero_le (by omega : 0 ≤ hLen / 4)
      have hdvd := Int.dvd_of_tmod_eq_zero h4n
      exact sseConvReal4n_eq x xLen h hLen _ yLen start len (n := n) (by omega)
    · rw [plainReal, baseConvolveRealLoop_eq, pairs_clear]

theorem selectComplex_eq (sse3 : Bool) (hpos : 1 ≤ hLen) :
    selectComplex (convolveInit sse3) hLen x xLen h hLen (clear y (len * 2)) yLen start len =
      Loop.pairs len.toNat (fun i => dotComplex (window x hLen start i) h hLen.toNat) y := by
  cases sse3 with
  | false =>
    have hplain : selectComplex (convolveInit false) hLen = (plainComplex : Kernel R) := by
      simp [selectComplex, convolveInit]
    rw [hplain, plainComplex, baseConvolveComplexLoop_eq]
  | true =>
    simp only [selectComplex, convolveInit, if_true]
    rw [← pairs_clear]
    split_ifs with h8n h4n
    · obtain ⟨n, hn⟩ := Int.eq_ofNat_of_zero_le (by omega : 0 ≤ hLen / 8)
      have hdvd := Int.dvd_of_tmod_eq_zero h8n
      exact sseConvCmplx8n_eq x xLen h hLen _ yLen start len (n := n) (by omega)
    · obtain ⟨n, hn⟩ := Int.eq_ofNat_of_zero_le (by omega : 0 ≤ hLen / 4)
      have hdvd := Int.dvd_of_tmod_eq_zero h4n
      exact sseConvCmplx4n_eq x xLen h hLen _ yLen start len (n := n) (by omega)
    · rw [plainComplex, baseConvolveComplexLoop_eq, pairs_clear]

/-- With or without the kernels, `convolve_real` computes the convolution. -/
theorem convolveReal_eq (sse3 : Bool) :
    convolveReal (convolveInit sse3) x xLen h hLen y yLen start len =
      realConvolution x xLen h hLen y yLen start len := by
  rw [convolveReal, realConvolution]
  split_ifs with hb
  · rfl
  · rw [selectReal_eq x xLen h hLen y yLen start len sse3 (one_le_of_boundsCheck hb)]

theorem convolveComplex_eq (sse3 : Bool) :
    convolveComplex (convolveInit sse3) x xLen h hLen y yLen start len =
      complexConvolution x xLen h hLen y yLen start len := by
  rw [convolveComplex, complexConvolution]
  split_ifs with hb
  · rfl
  · rw [selectComplex_eq x xLen h hLen y yLen start len sse3 (one_le_of_boundsCheck hb)]

end Kernels

end Dsp
end OsmoTrx
