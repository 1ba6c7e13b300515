import OsmoTrx.Dsp.Fft
import OsmoTrx.Lib.Filter
import OsmoTrx.Lib.Run

/-!
# Polyphase filterbanks

`ChannelizerBase.cpp`, `Channelizer.cpp` and `Synthesis.cpp`.  The two buffers of the Fourier
transform are the buffers of the filters, too, the other way round: the filters read rows of
`fftOutput`, each with its history in front, and write to rows of `fftInput`.

* `filterBranches` — the loop over the branches, which both classes have.
* `filterBranches_spec` — every branch is its row filtered behind its history, and the end of
  the row becomes the history.
* `filterbank_stream` — **the branches of the channelizer and the output of the synthesis filter
  are streams filtered as a whole**, however many blocks they arrive in.
-/

namespace OsmoTrx
namespace Dsp

open Resampler (samplesOf through)

variable {R : Type*} [CommRing R]

/-! ## The common part -/

/-- `class ChannelizerBase`; a pointer into a buffer is the number of the float. -/
structure ChannelizerBase (R : Type*) where
  m : ℕ
  hLen : ℕ
  blockLen : ℕ
  subFilters : ℕ → ℤ → R
  hInputs : ℕ → ℤ
  hOutputs : ℕ → ℤ
  hist : ℕ → ℤ → R
  fft : FftBuffers R
  fftHandle : Option FftwPlan

omit [CommRing R] in
/-- `memcpy(&dst[k], &src[j], n * sizeof(float))`. -/
def memcpy (dst : ℤ → R) (k : ℤ) (src : ℤ → R) (j : ℤ) (n : ℕ) : ℤ → R := fun x =>
  if k ≤ x ∧ x < k + n then src (j + (x - k)) else dst x

omit [CommRing R] in
/-- `reverse`. -/
def reverse (buf : ℤ → R) (len : ℕ) : ℤ → R :=
  Loop.upTo len
    (fun i b => Loop.storePair b (2 * i) (Loop.loadPair buf (2 * (len - 1 - i : ℕ)))) buf

namespace ChannelizerBase

/-- The constructor; the other members are set by `init`. -/
def new (m blockLen hLen : ℕ) : ChannelizerBase R where
  m := m
  hLen := hLen
  blockLen := blockLen
  subFilters _ _ := 0
  hInputs _ := 0
  hOutputs _ := 0
  hist _ _ := 0
  fft := ⟨fun _ => 0, fun _ => 0⟩
  fftHandle := none

/-- The loops of `initFilters` that populate the partition filters. -/
def populateFilters (m hLen : ℕ) (proto : ℕ → R) (scale : R) (sub : ℕ → ℤ → R) : ℕ → ℤ → R :=
  Loop.upTo hLen (fun i sub =>
    Loop.upTo m (fun n sub =>
      Function.update sub n
        (Loop.storePair (sub n) (2 * i) (prototypeTap proto scale (i * m + n), 0))) sub) sub

/-- `initFilters`, with the prototype filter and its scale as parameters; `mem` is what the
allocated memory holds. -/
def initFilters (s : ChannelizerBase R) (proto : ℕ → R) (scale : R) (mem : ℕ → ℤ → R) :
    ChannelizerBase R :=
  { s with
    subFilters := Loop.upTo s.m (fun i sub =>
      Function.update sub i (reverse (sub i) s.hLen))
        (populateFilters s.m s.hLen proto scale mem) }

/-- `initFFT`; the buffers are there if the handle is. -/
def initFFT (s : ChannelizerBase R) (f : Fftw R) : Bool × ChannelizerBase R :=
  if s.fftHandle.isSome then (false, s)
  else
    let r := initFft f false s.m s.blockLen (s.blockLen + s.hLen) ⟨fun _ => 0, fun _ => 0⟩ s.hLen
    (true, { s with fft := r.2, fftHandle := some r.1 })

omit [CommRing R] in
/-- `mapBuffers`. -/
def mapBuffers (s : ChannelizerBase R) : Bool × ChannelizerBase R :=
  if s.fftHandle.isNone then (false, s)
  else
    (true,
      { s with
        hInputs := fun i => 2 * (i * (s.blockLen + s.hLen) + s.hLen : ℕ)
        hOutputs := fun i => 2 * (i * s.blockLen : ℕ) })

/-- `init`. -/
def init (s : ChannelizerBase R) (f : Fftw R) (proto : ℕ → R) (scale : R) (mem : ℕ → ℤ → R) :
    Bool × ChannelizerBase R :=
  let s := { s.initFilters proto scale mem with hist := fun _ _ => 0 }
  let r := s.initFFT f
  if !r.1 then (false, r.2) else (true, r.2.mapBuffers.2)

omit [CommRing R] in
/-- `checkLen`. -/
def checkLen (s : ChannelizerBase R) (innerLen outerLen : ℕ) : Bool :=
  if outerLen ≠ innerLen * s.m then false
  else if innerLen ≠ s.blockLen then false
  else true

/-- A turn of the loop over the branches: the history is put in front of the row, the end of the
row is saved, and the row is filtered. -/
def filterBranch (c : ConvolveCpuContext R) (i : ℕ) (s : ChannelizerBase R) : ChannelizerBase R :=
  let hSize := 2 * s.hLen
  let output := memcpy s.fft.output (s.hInputs i + 2 * -(s.hLen : ℤ)) (s.hist i) 0 hSize
  let saved := memcpy (s.hist i) 0 output (s.hInputs i + 2 * ((s.blockLen : ℤ) - s.hLen)) hSize
  let input := through (s.hOutputs i) (convolveReal c (ptr output (s.hInputs i)) s.blockLen
    (s.subFilters i) s.hLen (ptr s.fft.input (s.hOutputs i)) s.blockLen 0 s.blockLen).2
  { s with fft := ⟨input, output⟩, hist := Function.update s.hist i saved }

/-- The loop over the branches. -/
def filterBranches (c : ConvolveCpuContext R) (s : ChannelizerBase R) : ChannelizerBase R :=
  Loop.upTo s.m (filterBranch c) s

omit [CommRing R] in
/-- `cxvec_fft(fftHandle)`; `none` is a null handle. -/
def transform (f : Fftw R) (s : ChannelizerBase R) : Option (ChannelizerBase R) :=
  s.fftHandle.map fun hdl => { s with fft := (cxvecFft f hdl s.fft).2 }

end ChannelizerBase

open ChannelizerBase

/-! ## The two filterbanks -/

namespace Channelizer

omit [CommRing R] in
/-- `deinterleave`, into the buffer that the pointers `out` point into. -/
def deinterleave (inp : ℤ → R) (_ilen : ℕ) (buf : ℤ → R) (out : ℕ → ℤ) (olen m : ℕ) : ℤ → R :=
  Loop.upTo olen (fun i buf =>
    Loop.upTo m (fun n buf =>
      Loop.storePair buf (out (m - 1 - n) + 2 * i) (Loop.loadPair inp (2 * (i * m + n : ℕ)))) buf)
    buf

omit [CommRing R] in
/-- `inputLen`. -/
def inputLen (s : ChannelizerBase R) : ℕ := s.blockLen * s.m

/-- `rotate` up to the transform. -/
def filter (c : ConvolveCpuContext R) (s : ChannelizerBase R) (inp : ℤ → R) (len : ℕ) :
    ChannelizerBase R :=
  filterBranches c { s with
    fft := { s.fft with output := deinterleave inp len s.fft.output s.hInputs s.blockLen s.m } }

/-- `rotate`; `none` without a handle. -/
def rotate (c : ConvolveCpuContext R) (f : Fftw R) (s : ChannelizerBase R) (inp : ℤ → R)
    (len : ℕ) : Option (Bool × ChannelizerBase R) :=
  if !s.checkLen s.blockLen len then some (false, s)
  else ((filter c s inp len).transform f).map fun s => (true, s)

end Channelizer

namespace Synthesis

omit [CommRing R] in
/-- `interleave`, from the buffer that the pointers `inp` point into. -/
def interleave (buf : ℤ → R) (inp : ℕ → ℤ) (ilen : ℕ) (out : ℤ → R) (m : ℕ) : ℤ → R :=
  Loop.upTo ilen (fun i out =>
    Loop.upTo m (fun n out =>
      Loop.storePair out (2 * (i * m + n : ℕ)) (Loop.loadPair buf (inp n + 2 * i))) out) out

omit [CommRing R] in
/-- `outputLen`. -/
def outputLen (s : ChannelizerBase R) : ℕ := s.blockLen * s.m

/-- `rotate`: the contents of `out` and the filterbank; `none` without a handle, or if the program
has ended because of the length. -/
def rotate (c : ConvolveCpuContext R) (f : Fftw R) (s : ChannelizerBase R) (out : ℤ → R)
    (len : ℕ) : Option ((ℤ → R) × ChannelizerBase R) :=
  if !s.checkLen s.blockLen len then none
  else
    (s.transform f).map fun s =>
      let s := filterBranches c s
      (interleave s.fft.input s.hOutputs s.blockLen out s.m, s)

end Synthesis

/-! ## Samples -/

omit [CommRing R] in
theorem samplesOf_ptr (x : ℤ → R) (k t : ℤ) :
    samplesOf (ptr x (2 * k)) t = samplesOf x (k + t) := by
  rw [samplesOf, samplesOf, Loop.loadPair, Loop.loadPair, ptr, ptr, mul_add, add_assoc]

omit [CommRing R] in
/-- Samples are copied as such. -/
theorem samplesOf_memcpy (dst : ℤ → R) (k : ℤ) (src : ℤ → R) (j : ℤ) (n : ℕ) (t : ℤ) :
    samplesOf (memcpy dst (2 * k) src (2 * j) (2 * n)) t =
      if k ≤ t ∧ t < k + n then samplesOf src (j + (t - k)) else samplesOf dst t := by
  simp only [samplesOf, Loop.loadPair, memcpy]
  by_cases h : k ≤ t ∧ t < k + n
  · rw [if_pos h, if_pos (by omega), if_pos (by omega)]
    congr 2 <;> ring
  · rw [if_neg h, if_neg (by omega), if_neg (by omega)]

omit [CommRing R] in
/-- Pairs written behind a pointer. -/
theorem samplesOf_through_pairs (x : ℤ → R) (k : ℤ) (n : ℕ) (f : ℕ → R × R) (t : ℤ) :
    samplesOf (through (2 * k) (Loop.pairs n f (ptr x (2 * k)))) t =
      if k ≤ t ∧ t < k + n then f (t - k).toNat else samplesOf x t := by
  have hpair : samplesOf (through (2 * k) (Loop.pairs n f (ptr x (2 * k)))) t =
      Loop.loadPair (Loop.pairs n f (ptr x (2 * k))) (2 * (t - k)) := by
    rw [samplesOf, Loop.loadPair, Loop.loadPair, through, through]
    congr 2 <;> ring
  rw [hpair]
  split_ifs with h
  · obtain ⟨i, hi⟩ := Int.eq_ofNat_of_zero_le (by omega : 0 ≤ t - k)
    rw [hi, Loop.loadPair_pairs _ _ (by omega), Int.toNat_natCast]
  · have hout : ∀ d : ℤ, 0 ≤ d → d < 2 →
        Loop.pairs n f (ptr x (2 * k)) (2 * (t - k) + d) = x (2 * t + d) := by
      intro d h0 h2
      rw [Loop.pairs, if_neg (by omega), ptr]
      congr 1
      ring
    have h0 := hout 0 le_rfl (by norm_num)
    rw [add_zero, add_zero] at h0
    rw [Loop.loadPair, h0, hout 1 (by norm_num) (by norm_num)]
    rfl

/-! ## One branch -/

omit [CommRing R] in
/-- Sample `t` of row `i` of a buffer; the rows start at `offset`. -/
def row (stride offset : ℕ) (x : ℤ → R) (i : ℕ) (t : ℤ) : R × R :=
  samplesOf x ((i * stride + offset : ℕ) + t)

omit [CommRing R] in
/-- Different rows have no cell in common. -/
theorem row_ne {stride i j : ℕ} (hij : i ≠ j) {a b : ℤ} (ha : 0 ≤ a) (ha' : a < stride)
    (hb : 0 ≤ b) (hb' : b < stride) : (i * stride : ℤ) + a ≠ j * stride + b := by
  intro heq
  have hdiv : ∀ (k : ℕ) (c : ℤ), 0 ≤ c → c < stride → ((k * stride : ℤ) + c) / stride = k := by
    intro k c hc hc'
    rw [Int.add_comm, Int.add_mul_ediv_right _ _ (by omega), Int.ediv_eq_zero_of_lt hc hc',
      zero_add]
  have hi := hdiv i a ha ha'
  rw [heq, hdiv j b hb hb'] at hi
  exact hij (by exact_mod_cast hi.symm)

/-- The transform that `initFFT` plans: of length `m`, at `blockLen` positions. -/
def bankPlan (m hLen blockLen : ℕ) : FftwPlan where
  n := m
  howmany := blockLen
  istride := blockLen
  idist := 1
  ostride := blockLen + hLen
  odist := 1
  ooffset := hLen
  direction := .FORWARD

/-- The filterbank after `init`: filter `i` has the taps `g i`, which are stored in reverse. -/
structure Ready (m hLen blockLen : ℕ) (g : ℕ → ℕ → R) (s : ChannelizerBase R) : Prop where
  m_eq : m = s.m
  hLen_eq : hLen = s.hLen
  blockLen_eq : blockLen = s.blockLen
  hInputs : s.hInputs = fun i => 2 * ((i * (blockLen + hLen) + hLen : ℕ) : ℤ)
  hOutputs : s.hOutputs = fun i => 2 * ((i * blockLen : ℕ) : ℤ)
  fftHandle : s.fftHandle = some (bankPlan m hLen blockLen)
  subFilters : ∀ i < m, ∃ mem, s.subFilters i =
    Loop.pairs hLen (fun k => (g i (hLen - 1 - k), 0)) mem

section Branch

variable {m hLen blockLen : ℕ} {g : ℕ → ℕ → R} {s : ChannelizerBase R} {i : ℕ}

theorem Ready.filterBranch (hs : Ready m hLen blockLen g s) (c : ConvolveCpuContext R) (i : ℕ) :
    Ready m hLen blockLen g (filterBranch c i s) :=
  ⟨hs.m_eq, hs.hLen_eq, hs.blockLen_eq, hs.hInputs, hs.hOutputs, hs.fftHandle, hs.subFilters⟩

/-- The rows themselves stay, and the history comes to lie in front of row `i`. -/
theorem filterBranch_output (hs : Ready m hLen blockLen g s) (c : ConvolveCpuContext R) :
    (∀ j, ∀ t : ℤ, 0 ≤ t → t < blockLen →
      row (blockLen + hLen) hLen (filterBranch c i s).fft.output j t =
        row (blockLen + hLen) hLen s.fft.output j t) ∧
    ∀ t : ℤ, -(hLen : ℤ) ≤ t → t < 0 →
      row (blockLen + hLen) hLen (filterBranch c i s).fft.output i t =
        samplesOf (s.hist i) (t + hLen) := by
  obtain ⟨rfl, rfl, rfl, hin, -, -, -⟩ := hs
  have hcell : ∀ t, samplesOf (filterBranch c i s).fft.output t =
      if (i * (s.blockLen + s.hLen) : ℕ) ≤ t ∧ t < (i * (s.blockLen + s.hLen) : ℕ) + s.hLen then
        samplesOf (s.hist i) (t - (i * (s.blockLen + s.hLen) : ℕ))
      else samplesOf s.fft.output t := by
    intro t
    have hptr : s.hInputs i + 2 * -(s.hLen : ℤ) = 2 * (i * (s.blockLen + s.hLen) : ℕ) := by
      rw [hin]
      push_cast
      ring
    have hcopy := samplesOf_memcpy s.fft.output (i * (s.blockLen + s.hLen) : ℕ) (s.hist i) 0
      s.hLen t
    rw [mul_zero, ← hptr] at hcopy
    simp only [zero_add] at hcopy
    exact hcopy
  constructor
  · intro j t h0 hlt
    rw [row, hcell, if_neg]
    · rfl
    · rintro ⟨hge, hlt'⟩
      push_cast at hge hlt'
      by_cases hij : j = i
      · subst hij
        omega
      · -- the head of row `i` is a part of that row
        have hne : ∀ b : ℤ, 0 ≤ b → b < s.hLen →
            (j * (s.blockLen + s.hLen : ℕ) : ℤ) + (s.hLen + t) ≠
              i * (s.blockLen + s.hLen : ℕ) + b :=
          fun b hb hb' => row_ne hij (by omega) (by push_cast; omega) hb (by push_cast; omega)
        push_cast at hne
        refine hne (j * (s.blockLen + s.hLen) + (s.hLen + t) - i * (s.blockLen + s.hLen)) ?_ ?_ ?_
        · omega
        · omega
        · ring
  · intro t hge hlt
    rw [row, hcell, if_pos]
    · congr 1
      push_cast
      ring
    · push_cast
      omega

/-- The end of the row is saved. -/
theorem filterBranch_hist (hs : Ready m hLen blockLen g s) (hlen : hLen ≤ blockLen)
    (c : ConvolveCpuContext R) :
    (∀ j, j ≠ i → (filterBranch c i s).hist j = s.hist j) ∧
    ∀ k < hLen, samplesOf ((filterBranch c i s).hist i) k =
      row (blockLen + hLen) hLen s.fft.output i ((blockLen : ℤ) - hLen + k) := by
  have houtput := (filterBranch_output (i := i) hs c).1
  obtain ⟨rfl, rfl, rfl, hin, -, -, -⟩ := hs
  refine ⟨fun j hj => Function.update_of_ne hj _ _, fun k hk => ?_⟩
  rw [← houtput i _ (by omega) (by omega)]
  have hptr : s.hInputs i + 2 * ((s.blockLen : ℤ) - s.hLen) =
      2 * ((i * (s.blockLen + s.hLen) + s.hLen : ℕ) + ((s.blockLen : ℤ) - s.hLen)) := by
    rw [hin]
    ring
  have hcopy := samplesOf_memcpy (s.hist i) 0 (filterBranch c i s).fft.output
    ((i * (s.blockLen + s.hLen) + s.hLen : ℕ) + ((s.blockLen : ℤ) - s.hLen)) s.hLen k
  rw [if_pos (by omega), mul_zero, ← hptr, sub_zero, add_assoc] at hcopy
  have hsaved : (filterBranch c i s).hist i = memcpy (s.hist i) 0
      (filterBranch c i s).fft.output (s.hInputs i + 2 * ((s.blockLen : ℤ) - s.hLen))
      (2 * s.hLen) := Function.update_self _ _ _
  rw [hsaved, hcopy, row]

/-- The row is filtered behind its history; the other branches stay. -/
theorem filterBranch_input (hs : Ready m hLen blockLen g s) (hpos : 1 ≤ hLen)
    (hlen : hLen ≤ blockLen) (sse3 : Bool) (hi : i < m) :
    (∀ j, j ≠ i → ∀ t : ℤ, 0 ≤ t → t < blockLen →
      row blockLen 0 (filterBranch (convolveInit sse3) i s).fft.input j t =
        row blockLen 0 s.fft.input j t) ∧
    ∀ t < blockLen, row blockLen 0 (filterBranch (convolveInit sse3) i s).fft.input i t =
      fir hLen (g i) (withHistory hLen (fun k => samplesOf (s.hist i) k)
        (row (blockLen + hLen) hLen s.fft.output i)) t := by
  obtain ⟨hrow, hhead⟩ := filterBranch_output (i := i) hs (convolveInit sse3)
  obtain ⟨rfl, rfl, rfl, hin, hout, -, htaps⟩ := hs
  obtain ⟨mem, htap⟩ := htaps i hi
  have hbounds : ¬ boundsCheck s.blockLen s.hLen s.blockLen 0 s.blockLen < 0 := by
    rw [boundsCheck, if_neg (by omega), if_neg (by omega)]
    exact lt_irrefl 0
  -- the convolution, at each of its samples
  have hcell : ∀ t, samplesOf (filterBranch (convolveInit sse3) i s).fft.input t =
      if (i * s.blockLen : ℕ) ≤ t ∧ t < (i * s.blockLen : ℕ) + s.blockLen then
        dotReal (window (ptr (filterBranch (convolveInit sse3) i s).fft.output (s.hInputs i))
          s.hLen 0 (t - (i * s.blockLen : ℕ)).toNat) (s.subFilters i) s.hLen
      else samplesOf s.fft.input t := by
    intro t
    rw [← samplesOf_through_pairs s.fft.input (i * s.blockLen : ℕ) s.blockLen (fun n =>
      dotReal (window (ptr (filterBranch (convolveInit sse3) i s).fft.output (s.hInputs i))
        s.hLen 0 n) (s.subFilters i) s.hLen)]
    simp only [filterBranch, convolveReal_eq, realConvolution, if_neg hbounds, Int.toNat_natCast,
      hout]
  have hwindow : ∀ (x : ℤ → R) (n : ℕ), window x s.hLen 0 n = window x s.hLen n 0 := by
    intro x n
    unfold window
    congr 1
    push_cast
    ring
  refine ⟨fun j hj t h0 hlt => ?_, fun t ht => ?_⟩
  · rw [row, hcell, if_neg]
    · rfl
    · rintro ⟨hge, hlt'⟩
      refine row_ne hj h0 hlt (b := j * s.blockLen + t - i * s.blockLen) ?_ ?_ ?_
        <;> push_cast at hge hlt' <;> omega
  · rw [row, hcell, if_pos (by push_cast; omega)]
    have hindex : (((i * s.blockLen + 0 : ℕ) : ℤ) + t - (i * s.blockLen : ℕ)).toNat = t := by omega
    rw [hindex, hwindow, htap, Resampler.dotReal_reversed _ (g i)]
    refine Finset.sum_congr rfl fun k hk => congrArg (g i k • ·) ?_
    have hk := Finset.mem_range.mp hk
    have hptr : s.hInputs i = 2 * ((i * (s.blockLen + s.hLen) + s.hLen : ℕ) : ℤ) := by rw [hin]
    rw [hptr, samplesOf_ptr, withHistory]
    split_ifs with hneg
    · have htap := hhead _ (by omega) hneg
      rw [row] at htap
      rw [htap, Int.toNat_of_nonneg (by omega)]
    · exact hrow i _ (by omega) (by omega)

/-- The loop over the branches, with the rows `x`, before its turn `n`: the branches so far are
done, and nothing has happened to the others. -/
structure Turning (m hLen blockLen : ℕ) (g : ℕ → ℕ → R) (s : ChannelizerBase R)
    (x : ℕ → ℤ → R × R) (n : ℕ) (s' : ChannelizerBase R) : Prop where
  ready : Ready m hLen blockLen g s'
  history : ∀ i, n ≤ i → s'.hist i = s.hist i
  rows : ∀ i < m, ∀ t : ℤ, 0 ≤ t → t < blockLen →
    row (blockLen + hLen) hLen s'.fft.output i t = x i t
  saved : ∀ i < n, ∀ k < hLen, samplesOf (s'.hist i) k = x i ((blockLen : ℤ) - hLen + k)
  branches : ∀ i < n, ∀ t < blockLen, row blockLen 0 s'.fft.input i t =
    fir hLen (g i) (withHistory hLen (fun k => samplesOf (s.hist i) k) (x i)) t

theorem Turning.turn {x : ℕ → ℤ → R × R} {n : ℕ} {s' : ChannelizerBase R}
    (h : Turning m hLen blockLen g s x n s') (hpos : 1 ≤ hLen) (hlen : hLen ≤ blockLen)
    (sse3 : Bool) (hn : n < m) :
    Turning m hLen blockLen g s x (n + 1)
      (ChannelizerBase.filterBranch (convolveInit sse3) n s') := by
  obtain ⟨hstay, hsaved⟩ := filterBranch_hist (i := n) h.ready hlen (convolveInit sse3)
  obtain ⟨hothers, hbranch⟩ := filterBranch_input h.ready hpos hlen sse3 hn
  refine ⟨h.ready.filterBranch _ n, fun i hi => ?_, fun i hi t h0 hlt => ?_, fun i hi k hk => ?_,
    fun i hi t ht => ?_⟩
  · rw [hstay i (by omega), h.history i (by omega)]
  · rw [(filterBranch_output h.ready _).1 i t h0 hlt, h.rows i hi t h0 hlt]
  · rcases Nat.lt_succ_iff_lt_or_eq.mp hi with hi | rfl
    · rw [hstay i hi.ne, h.saved i hi k hk]
    · rw [hsaved k hk, h.rows i hn _ (by omega) (by omega)]
  · rcases Nat.lt_succ_iff_lt_or_eq.mp hi with hi | rfl
    · rw [hothers i hi.ne t (by omega) (by omega), h.branches i hi t ht]
    · rw [hbranch t ht, h.history i le_rfl]
      refine fir_congr fun k hk => ?_
      unfold withHistory
      split_ifs with hneg
      · rfl
      · exact h.rows i hn _ (by omega) (by omega)

/-- **The loop over the branches**, with the rows `x`: every branch is its row filtered behind its
history, and the end of the row becomes the history. -/
theorem filterBranches_spec (hs : Ready m hLen blockLen g s) (hpos : 1 ≤ hLen)
    (hlen : hLen ≤ blockLen) (sse3 : Bool) {x : ℕ → ℤ → R × R}
    (hx : ∀ i < m, ∀ t : ℤ, 0 ≤ t → t < blockLen →
      row (blockLen + hLen) hLen s.fft.output i t = x i t) :
    Turning m hLen blockLen g s x m (filterBranches (convolveInit sse3) s) := by
  rw [filterBranches, ← hs.m_eq]
  refine Loop.upTo_induction (P := Turning m hLen blockLen g s x) ?_
    fun n hn s' h => h.turn hpos hlen sse3 hn
  exact ⟨hs, fun _ _ => rfl, hx, fun i hi => absurd hi (Nat.not_lt_zero i),
    fun i hi => absurd hi (Nat.not_lt_zero i)⟩

end Branch

/-! ## Interleaving -/

section Interleaving

variable {m hLen blockLen : ℕ}

omit [CommRing R] in
/-- Row `i` gets the samples at the positions that are `m - 1 - i` modulo `m`. -/
theorem row_deinterleave (inp : ℤ → R) (len : ℕ) (buf : ℤ → R) {i : ℕ} (hi : i < m) {t : ℤ}
    (h0 : 0 ≤ t) (hlt : t < blockLen) :
    row (blockLen + hLen) hLen (Channelizer.deinterleave inp len buf
      (fun i => 2 * ((i * (blockLen + hLen) + hLen : ℕ) : ℤ)) blockLen m) i t =
      samplesOf inp (m * t + (m - 1 - i : ℕ)) := by
  obtain ⟨a, rfl⟩ := Int.eq_ofNat_of_zero_le h0
  have ha : a < blockLen := by omega
  have hcell : ∀ c n : ℕ, 2 * (((m - 1 - n) * (blockLen + hLen) + hLen : ℕ) : ℤ) + 2 * (c : ℤ) =
      2 * ((((m - 1 - n) * (blockLen + hLen) + hLen : ℕ) : ℤ) + c) := fun c n => by ring
  have hinj : ∀ c < blockLen, ∀ n < m, ∀ c' < blockLen, ∀ n' < m,
      (((m - 1 - n) * (blockLen + hLen) + hLen : ℕ) : ℤ) + c =
        (((m - 1 - n') * (blockLen + hLen) + hLen : ℕ) : ℤ) + c' → c = c' ∧ n = n' := by
    intro c hc n hn c' hc' n' hn' heq
    by_cases hnn : n = n'
    · subst hnn
      exact ⟨by omega, rfl⟩
    · have hij : m - 1 - n ≠ m - 1 - n' := by omega
      have hne : ((m - 1 - n : ℕ) * (blockLen + hLen : ℕ) : ℤ) + (hLen + c) ≠
          (m - 1 - n' : ℕ) * (blockLen + hLen : ℕ) + (hLen + c') :=
        row_ne hij (by omega) (by push_cast; omega) (by omega) (by push_cast; omega)
      refine absurd ?_ hne
      push_cast at heq ⊢
      linarith
  have hstore := Loop.loadPair_upTo_scatter (fun c n => Loop.loadPair inp (2 * (c * m + n : ℕ))) buf
    hinj ha (show m - 1 - i < m by omega)
  simp only [Channelizer.deinterleave, hcell]
  rw [row, samplesOf]
  rw [show m - 1 - (m - 1 - i) = i by omega] at hstore
  refine hstore.trans ?_
  rw [samplesOf]
  congr 2
  push_cast
  ring

omit [CommRing R] in
/-- The samples of row `i` come to lie at the positions that are `i` modulo `m`. -/
theorem samplesOf_interleave (buf out : ℤ → R) {i t : ℕ} (hi : i < m) (ht : t < blockLen) :
    samplesOf (Synthesis.interleave buf (fun i => 2 * ((i * blockLen : ℕ) : ℤ)) blockLen out m)
      (t * m + i : ℕ) = row blockLen 0 buf i t := by
  have hinj : ∀ c < blockLen, ∀ n < m, ∀ c' < blockLen, ∀ n' < m,
      ((c * m + n : ℕ) : ℤ) = (c' * m + n' : ℕ) → c = c' ∧ n = n' := by
    intro c _ n hn c' _ n' hn' heq
    by_cases hcc : c = c'
    · subst hcc
      exact ⟨rfl, by omega⟩
    · have hne := row_ne hcc (a := n) (b := n') (by omega) (by omega : (n : ℤ) < m) (by omega)
        (by omega)
      exact absurd (by exact_mod_cast heq) hne
  have hstore := Loop.loadPair_upTo_scatter
    (fun c n => Loop.loadPair buf (2 * ((n * blockLen : ℕ) : ℤ) + 2 * c)) out hinj ht hi
  rw [samplesOf, Synthesis.interleave]
  refine hstore.trans ?_
  rw [row, samplesOf, Nat.add_zero, mul_add]

end Interleaving

/-! ## Initialisation -/

section Initialisation

omit [CommRing R] in
theorem reverse_eq (buf : ℤ → R) (len : ℕ) :
    reverse buf len = Loop.pairs len (fun i => Loop.loadPair buf (2 * (len - 1 - i : ℕ))) buf :=
  Loop.upTo_fill fun _ _ _ _ => rfl

/-- Coefficient `k` of sub-filter `i`. -/
def subTap (proto : ℕ → R) (scale : R) (m i k : ℕ) : R := prototypeTap proto scale (k * m + i)

theorem populateFilters_eq (m hLen : ℕ) (proto : ℕ → R) (scale : R) (mem : ℕ → ℤ → R) {n : ℕ}
    (hn : n < m) : populateFilters m hLen proto scale mem n =
      Loop.pairs hLen (fun k => (subTap proto scale m n k, 0)) (mem n) := by
  refine Loop.upTo_induction (P := fun k (sub : ℕ → ℤ → R) =>
    sub n = Loop.pairs k (fun k => (subTap proto scale m n k, 0)) (mem n)) ?_ ?_
  · rw [Loop.pairs_zero]
  · intro k _ sub hsub
    simp only [Loop.upTo_family fun n b =>
      Loop.storePair b (2 * (k : ℤ)) (prototypeTap proto scale (k * m + n), 0), if_pos hn]
    rw [hsub]
    exact Loop.pairs_succ k (fun k => (subTap proto scale m n k, 0)) (mem n)

/-- The sub-filters have every `m`-th coefficient each, in reverse. -/
theorem initFilters_subFilters (s : ChannelizerBase R) (proto : ℕ → R) (scale : R)
    (mem : ℕ → ℤ → R) {i : ℕ} (hi : i < s.m) :
    ∃ mem', (s.initFilters proto scale mem).subFilters i =
      Loop.pairs s.hLen (fun k => (subTap proto scale s.m i (s.hLen - 1 - k), 0)) mem' := by
  refine ⟨populateFilters s.m s.hLen proto scale mem i, ?_⟩
  have hreversed : (s.initFilters proto scale mem).subFilters i =
      reverse (populateFilters s.m s.hLen proto scale mem i) s.hLen := by
    simp only [initFilters, Loop.upTo_family fun _ b => reverse b s.hLen, if_pos hi]
  rw [hreversed, reverse_eq]
  refine Loop.pairs_congr _ fun k hk => ?_
  rw [populateFilters_eq _ _ _ _ _ hi, Loop.loadPair_pairs _ _ (by omega)]

/-- After `init` a filterbank is ready, without history; planning has left anything in the
buffers. -/
theorem init_ready (f : Fftw R) (m hLen blockLen : ℕ) (proto : ℕ → R) (scale : R)
    (mem : ℕ → ℤ → R) :
    (((new m blockLen hLen).init f proto scale mem).1 = true) ∧
    Ready m hLen blockLen (subTap proto scale m)
      ((new m blockLen hLen).init f proto scale mem).2 ∧
    ((new m blockLen hLen).init f proto scale mem).2.hist = fun _ _ => 0 :=
  ⟨rfl, ⟨rfl, rfl, rfl, rfl, rfl, rfl, fun _ hi =>
    initFilters_subFilters (new m blockLen hLen) proto scale mem hi⟩, rfl⟩

end Initialisation

/-! ## Streams -/

section Streams

variable {m hLen blockLen : ℕ} {g : ℕ → ℕ → R} {s : ChannelizerBase R}
  {blocks : ℕ → List (ℤ → R × R)} {out : ℕ → List (R × R)}

/-- The samples of branch `i`. -/
def branch (blockLen i : ℕ) (x : ℤ → R) : List (R × R) :=
  (List.range blockLen).map fun t : ℕ => row blockLen 0 x i t

/-- Every branch has filtered its blocks as one stream. -/
structure Banked (m hLen blockLen : ℕ) (g : ℕ → ℕ → R) (blocks : ℕ → List (ℤ → R × R))
    (out : ℕ → List (R × R)) (s : ChannelizerBase R) : Prop where
  ready : Ready m hLen blockLen g s
  filtered : ∀ i < m, Filtered hLen blockLen (g i) (blocks i) (out i)
    fun k => samplesOf (s.hist i) k

theorem banked_init (f : Fftw R) (proto : ℕ → R) (scale : R) (mem : ℕ → ℤ → R) :
    Banked m hLen blockLen (subTap proto scale m) (fun _ => []) (fun _ => [])
      ((ChannelizerBase.new m blockLen hLen).init f proto scale mem).2 := by
  obtain ⟨-, hready, hhist⟩ := init_ready f m hLen blockLen proto scale mem
  refine ⟨hready, fun i _ => filtered_nil fun k _ => ?_⟩
  rw [hhist]
  rfl

/-- The buffers are of no consequence for what comes. -/
theorem Banked.buffers (h : Banked m hLen blockLen g blocks out s) (b : FftBuffers R) :
    Banked m hLen blockLen g blocks out { s with fft := b } :=
  ⟨{ h.ready with }, h.filtered⟩

/-- **One block more** on every branch. -/
theorem Banked.filterBranches (h : Banked m hLen blockLen g blocks out s) (hpos : 1 ≤ hLen)
    (hlen : hLen ≤ blockLen) (sse3 : Bool) {x : ℕ → ℤ → R × R}
    (hx : ∀ i < m, ∀ t : ℤ, 0 ≤ t → t < blockLen →
      row (blockLen + hLen) hLen s.fft.output i t = x i t) :
    Banked m hLen blockLen g (fun i => blocks i ++ [x i])
      (fun i => out i ++
        branch blockLen i (ChannelizerBase.filterBranches (convolveInit sse3) s).fft.input)
      (ChannelizerBase.filterBranches (convolveInit sse3) s) := by
  have hspec := filterBranches_spec h.ready hpos hlen sse3 hx
  refine ⟨hspec.ready, fun i hi => ?_⟩
  have hbranch :
      branch blockLen i (ChannelizerBase.filterBranches (convolveInit sse3) s).fft.input =
        (List.range blockLen).map
          (fir hLen (g i) (withHistory hLen (fun k => samplesOf (s.hist i) k) (x i))) :=
    List.map_congr_left fun t ht => hspec.branches i hi t (List.mem_range.mp ht)
  simp only [hbranch]
  exact (h.filtered i hi).concat hlen fun k hk => hspec.saved i hi k hk

/-- The transform of the rows of `fftInput`, column by column, is put into the rows of
`fftOutput`. -/
theorem Ready.transform (hs : Ready m hLen blockLen g s) {f : Fftw R} {w : R × R}
    (hfft : f.Computes w (bankPlan m hLen blockLen)) :
    ∃ b, s.transform f = some { s with fft := b } ∧
      ∀ i < m, ∀ t : ℤ, 0 ≤ t → t < blockLen → row (blockLen + hLen) hLen b.output i t =
        dft w m (fun j => row blockLen 0 s.fft.input j t) i := by
  refine ⟨(cxvecFft f (bankPlan m hLen blockLen) s.fft).2, ?_, fun i hi t h0 hlt => ?_⟩
  · rw [ChannelizerBase.transform, hs.fftHandle, Option.map_some]
  · obtain ⟨c, rfl⟩ := Int.eq_ofNat_of_zero_le h0
    have hcell := hfft s.fft c (show c < blockLen by omega) i hi
    have hcolumn : (bankPlan m hLen blockLen).column s.fft.input c =
        fun j => row blockLen 0 s.fft.input j c := by
      funext j
      rw [FftwPlan.column, row]
      congr 1
      simp only [bankPlan]
      push_cast
      ring
    rw [hcolumn] at hcell
    refine Eq.trans ?_ hcell
    rw [row]
    congr 1
    simp only [bankPlan]
    push_cast
    ring

omit [CommRing R] in
/-- A length of whole rows is accepted. -/
theorem checkLen_rows (s : ChannelizerBase R) :
    s.checkLen s.blockLen (s.blockLen * s.m) = true := by
  rw [ChannelizerBase.checkLen, if_neg (by simp), if_neg (by simp)]

namespace Channelizer

/-- A call of `rotate`: its result, the branches before the transform, and what the transform makes
of them. -/
structure Rotation (R : Type*) where
  result : Bool
  branches : ℤ → R
  outputs : ℤ → R

/-- One call, with a block of samples. -/
def step (c : ConvolveCpuContext R) (f : Fftw R) :
    Option (ChannelizerBase R × List (Rotation R)) → (ℤ → R) →
      Option (ChannelizerBase R × List (Rotation R))
  | none, _ => none
  | some (s, log), inp =>
    (rotate c f s inp (inputLen s)).map fun r =>
      (r.2, log ++ [⟨r.1, (filter c s inp (inputLen s)).fft.input, r.2.fft.output⟩])

omit [CommRing R] in
/-- The samples at the positions that are `m - 1 - i` modulo `m`. -/
def component (m i : ℕ) (x : ℤ → R × R) (t : ℤ) : R × R := x (m * t + (m - 1 - i : ℕ))

/-- What has happened to the blocks: all of them have been accepted, the branches are streams, and
the transforms have been taken of them. -/
structure Channelized (m hLen blockLen : ℕ) (g : ℕ → ℕ → R) (w : R × R) (inps : List (ℤ → R))
    (s : ChannelizerBase R) (log : List (Rotation R)) : Prop where
  banked : Banked m hLen blockLen g (fun i => inps.map fun x => component m i (samplesOf x))
    (fun i => log.flatMap fun r => branch blockLen i r.branches) s
  accepted : ∀ r ∈ log, r.result = true
  transformed : ∀ r ∈ log, ∀ i < m, ∀ t : ℤ, 0 ≤ t → t < blockLen →
    row (blockLen + hLen) hLen r.outputs i t = dft w m (fun j => row blockLen 0 r.branches j t) i

variable {f : Fftw R} {w : R × R} {inps : List (ℤ → R)} {log : List (Rotation R)}

theorem filter_banked (h : Banked m hLen blockLen g blocks out s) (hpos : 1 ≤ hLen)
    (hlen : hLen ≤ blockLen) (sse3 : Bool) (inp : ℤ → R) (len : ℕ) :
    Banked m hLen blockLen g (fun i => blocks i ++ [component m i (samplesOf inp)])
      (fun i => out i ++ branch blockLen i (filter (convolveInit sse3) s inp len).fft.input)
      (filter (convolveInit sse3) s inp len) := by
  refine (h.buffers _).filterBranches hpos hlen sse3 fun i hi t h0 hlt => ?_
  simp only [h.ready.hInputs, ← h.ready.blockLen_eq, ← h.ready.m_eq]
  exact row_deinterleave inp len _ hi h0 hlt

theorem channelized_step (h : Channelized m hLen blockLen g w inps s log) (hpos : 1 ≤ hLen)
    (hlen : hLen ≤ blockLen) (hfft : f.Computes w (bankPlan m hLen blockLen)) (sse3 : Bool)
    (inp : ℤ → R) :
    ∃ s' log', step (convolveInit sse3) f (some (s, log)) inp = some (s', log') ∧
      Channelized m hLen blockLen g w (inps ++ [inp]) s' log' := by
  have hfilter := filter_banked h.banked hpos hlen sse3 inp (inputLen s)
  have hcheck : s.checkLen s.blockLen (inputLen s) = true := checkLen_rows s
  have hrotate : ∀ s₁, filter (convolveInit sse3) s inp (inputLen s) = s₁ →
      rotate (convolveInit sse3) f s inp (inputLen s) =
        (s₁.transform f).map fun s => (true, s) := by
    rintro s₁ rfl
    rw [rotate, hcheck]
    rfl
  rw [step]
  generalize filter (convolveInit sse3) s inp (inputLen s) = s₁ at hfilter hrotate
  obtain ⟨b, htransform, hdft⟩ := hfilter.ready.transform hfft
  rw [hrotate s₁ rfl, htransform]
  refine ⟨{ s₁ with fft := b }, log ++ [⟨true, s₁.fft.input, b.output⟩], rfl, ?_, ?_, ?_⟩
  · have hbanked := hfilter.buffers b
    simp only [List.map_append, List.map_singleton, List.flatMap_append, List.flatMap_singleton]
    exact hbanked
  · exact Run.forall_mem_log h.accepted rfl
  · exact Run.forall_mem_log h.transformed hdft

theorem channelized_exec (hpos : 1 ≤ hLen) (hlen : hLen ≤ blockLen)
    (hfft : f.Computes w (bankPlan m hLen blockLen)) (sse3 : Bool) {s₀ : ChannelizerBase R}
    (h : Channelized m hLen blockLen g w [] s₀ []) (inps : List (ℤ → R)) :
    ∃ s log, Run.exec (step (convolveInit sse3) f) (some (s₀, [])) inps = some (s, log) ∧
      Channelized m hLen blockLen g w inps s log := by
  induction inps using List.reverseRecOn with
  | nil => exact ⟨s₀, [], rfl, h⟩
  | append_singleton inps inp ih =>
    obtain ⟨s, log, hexec, h⟩ := ih
    obtain ⟨s', log', hstep, h'⟩ := channelized_step h hpos hlen hfft sse3 inp
    refine ⟨s', log', ?_, h'⟩
    rw [Run.exec_append, hexec]
    exact hstep

/-- **The branches are streams**: filter `i` over every `m`-th sample of the stream of all
blocks. -/
theorem Channelized.branches (h : Channelized m hLen blockLen g w inps s log) {i : ℕ} (hi : i < m) :
    log.flatMap (fun r => branch blockLen i r.branches) =
      (List.range (blockLen * inps.length)).map (fir hLen (g i)
        (component m i (blockStream (blockLen * m) (inps.map samplesOf)))) := by
  have hout := (h.banked.filtered i hi).out_eq
  have hcomponent : component m i (blockStream (blockLen * m) (inps.map samplesOf)) =
      blockStream blockLen (inps.map fun x => component m i (samplesOf x)) := by
    funext t
    rw [component, blockStream_polyphase (by omega), List.map_map]
    rfl
  rw [hout, hcomponent, List.length_map]

end Channelizer

namespace Synthesis

/-- A call of `rotate`: what lies in the input buffers, and in the memory for the output. -/
structure Call (R : Type*) where
  input : ℤ → R
  out : ℤ → R

/-- One call; its output is kept. -/
def step (c : ConvolveCpuContext R) (f : Fftw R) :
    Option (ChannelizerBase R × List (ℤ → R)) → Call R →
      Option (ChannelizerBase R × List (ℤ → R))
  | none, _ => none
  | some (s, log), call =>
    (rotate c f { s with fft := { s.fft with input := call.input } } call.out (outputLen s)).map
      fun r => (r.2, log ++ [r.1])

/-- Row `i` of the transforms of a block, which are taken column by column. -/
def transformed (w : R × R) (m blockLen i : ℕ) (input : ℤ → R) (t : ℤ) : R × R :=
  dft w m (fun j => row blockLen 0 input j t) i

/-- The samples of an output at the positions that are `i` modulo `m`. -/
def component (m blockLen i : ℕ) (out : ℤ → R) : List (R × R) :=
  (List.range blockLen).map fun t => samplesOf out (t * m + i : ℕ)

variable {f : Fftw R} {w : R × R} {calls : List (Call R)} {log : List (ℤ → R)}

/-- Every `m`-th sample of the outputs is a row of the transforms, filtered as a stream. -/
def Synthesised (m hLen blockLen : ℕ) (g : ℕ → ℕ → R) (w : R × R) (calls : List (Call R))
    (s : ChannelizerBase R) (log : List (ℤ → R)) : Prop :=
  Banked m hLen blockLen g
    (fun i => calls.map fun call => transformed w m blockLen i call.input)
    (fun i => log.flatMap (component m blockLen i)) s

theorem synthesised_step (h : Synthesised m hLen blockLen g w calls s log) (hpos : 1 ≤ hLen)
    (hlen : hLen ≤ blockLen) (hfft : f.Computes w (bankPlan m hLen blockLen)) (sse3 : Bool)
    (call : Call R) :
    ∃ s' log', step (convolveInit sse3) f (some (s, log)) call = some (s', log') ∧
      Synthesised m hLen blockLen g w (calls ++ [call]) s' log' := by
  have hloaded := h.buffers { s.fft with input := call.input }
  obtain ⟨b, htransform, hdft⟩ := hloaded.ready.transform hfft
  have hfiltered := (hloaded.buffers b).filterBranches hpos hlen sse3
    (x := fun i => transformed w m blockLen i call.input) hdft
  generalize hs' : filterBranches (convolveInit sse3) { s with fft := b } = s' at hfiltered
  have hrotate : rotate (convolveInit sse3) f { s with fft := { s.fft with input := call.input } }
      call.out (outputLen s) =
      some (interleave s'.fft.input s'.hOutputs s'.blockLen call.out s'.m, s') := by
    have hcheck := checkLen_rows { s with fft := { s.fft with input := call.input } }
    rw [rotate, if_neg (by rw [outputLen, hcheck]; decide), htransform, ← hs']
    rfl
  refine ⟨s', _, by rw [step, hrotate]; rfl, hfiltered.ready, fun i hi => ?_⟩
  have houtput : component m blockLen i
      (interleave s'.fft.input s'.hOutputs s'.blockLen call.out s'.m) =
      branch blockLen i s'.fft.input := by
    rw [hfiltered.ready.hOutputs, ← hfiltered.ready.blockLen_eq, ← hfiltered.ready.m_eq]
    exact List.map_congr_left fun t ht => samplesOf_interleave _ _ hi (List.mem_range.mp ht)
  have hrow := hfiltered.filtered i hi
  simp only [List.map_append, List.map_singleton, List.flatMap_append, List.flatMap_singleton]
  rw [houtput]
  exact hrow

theorem synthesised_exec (hpos : 1 ≤ hLen) (hlen : hLen ≤ blockLen)
    (hfft : f.Computes w (bankPlan m hLen blockLen)) (sse3 : Bool) {s₀ : ChannelizerBase R}
    (h : Synthesised m hLen blockLen g w [] s₀ []) (calls : List (Call R)) :
    ∃ s log, Run.exec (step (convolveInit sse3) f) (some (s₀, [])) calls = some (s, log) ∧
      Synthesised m hLen blockLen g w calls s log := by
  induction calls using List.reverseRecOn with
  | nil => exact ⟨s₀, [], rfl, h⟩
  | append_singleton calls call ih =>
    obtain ⟨s, log, hexec, h⟩ := ih
    obtain ⟨s', log', hstep, h'⟩ := synthesised_step h hpos hlen hfft sse3 call
    refine ⟨s', log', ?_, h'⟩
    rw [Run.exec_append, hexec]
    exact hstep

end Synthesis

/-- **Filterbanks filter streams.**  However many blocks are handed to `rotate` after `init`: branch
`i` of the channelizer before the transform, and what the synthesis filter puts out at the
positions that are `i` modulo `m`, is the convolution of sub-filter `i` with a stream that starts
from zeros: the samples at the positions that are `m - 1 - i` modulo `m`, and row `i` of the
transforms. -/
theorem filterbank_stream (hpos : 1 ≤ hLen) (hlen : hLen ≤ blockLen) {f : Fftw R} {w : R × R}
    (hfft : f.Computes w (bankPlan m hLen blockLen)) (sse3 : Bool) (proto : ℕ → R) (scale : R)
    (mem : ℕ → ℤ → R) :
    (∀ inps : List (ℤ → R), ∃ s log,
      Run.exec (Channelizer.step (convolveInit sse3) f)
        (some (((ChannelizerBase.new m blockLen hLen).init f proto scale mem).2, [])) inps =
        some (s, log) ∧
      (∀ r ∈ log, r.result = true) ∧
      ∀ i < m, log.flatMap (fun r => branch blockLen i r.branches) =
        (List.range (blockLen * inps.length)).map (fir hLen (subTap proto scale m i)
          (Channelizer.component m i (blockStream (blockLen * m) (inps.map samplesOf))))) ∧
    ∀ calls : List (Synthesis.Call R), ∃ s log,
      Run.exec (Synthesis.step (convolveInit sse3) f)
        (some (((ChannelizerBase.new m blockLen hLen).init f proto scale mem).2, [])) calls =
        some (s, log) ∧
      ∀ i < m, log.flatMap (Synthesis.component m blockLen i) =
        (List.range (blockLen * calls.length)).map (fir hLen (subTap proto scale m i)
          (blockStream blockLen
            (calls.map fun call => Synthesis.transformed w m blockLen i call.input))) := by
  have hinit : Banked m hLen blockLen (subTap proto scale m) (fun _ => []) (fun _ => [])
      ((ChannelizerBase.new m blockLen hLen).init f proto scale mem).2 :=
    banked_init f proto scale mem
  constructor
  · intro inps
    obtain ⟨s, log, hexec, h⟩ := Channelizer.channelized_exec hpos hlen hfft sse3
      ⟨hinit, fun r hr => absurd hr List.not_mem_nil, fun r hr => absurd hr List.not_mem_nil⟩ inps
    exact ⟨s, log, hexec, h.accepted, fun i hi => h.branches hi⟩
  · intro calls
    obtain ⟨s, log, hexec, h⟩ := Synthesis.synthesised_exec hpos hlen hfft sse3 hinit calls
    refine ⟨s, log, hexec, fun i hi => ?_⟩
    rw [(h.filtered i hi).out_eq, List.length_map]

end Streams

/-! ## Four branches -/

/-- A block whose samples are 1, 2, 3 and so on. -/
def ramp : ℤ → ℤ := floatsOf fun t => (t + 1, 0)

/-- Transforms with the fourth root of unity. -/
def fourthRoots : Fftw ℤ := Fftw.direct (0, -1)

/-- Coefficients 1, 2, 3 and so on. -/
def rising (k : ℕ) : ℤ := k + 1

/-- A filterbank of four branches of two taps. -/
def fourBranches : ChannelizerBase ℤ :=
  ((ChannelizerBase.new 4 3 2).init fourthRoots rising 1 fun _ _ => 7).2

theorem filterbank_stream_four :
    (∃ s log, Run.exec (Channelizer.step (convolveInit true) fourthRoots)
        (some (fourBranches, [])) [ramp, ramp] = some (s, log) ∧
      (∀ r ∈ log, r.result = true) ∧
      ∀ i < 4, log.flatMap (fun r => branch 3 i r.branches) =
        (List.range (3 * 2)).map (fir 2 (subTap rising 1 4 i)
          (Channelizer.component 4 i (blockStream (3 * 4) ([ramp, ramp].map samplesOf))))) ∧
    ∃ s log, Run.exec (Synthesis.step (convolveInit true) fourthRoots)
        (some (fourBranches, [])) [⟨ramp, fun _ => 7⟩, ⟨ramp, ramp⟩] = some (s, log) ∧
      ∀ i < 4, log.flatMap (Synthesis.component 4 3 i) =
        (List.range (3 * 2)).map (fir 2 (subTap rising 1 4 i)
          (blockStream 3 ([ramp, ramp].map (Synthesis.transformed (0, -1) 4 3 i)))) := by
  have hfft : fourthRoots.Computes (0, -1) (bankPlan 4 2 3) :=
    Fftw.direct_computes (0, -1) rfl (by decide)
  have hstream := filterbank_stream (by decide : 1 ≤ 2) (by decide : 2 ≤ 3) hfft true rising 1
    fun _ _ => 7
  exact ⟨hstream.1 [ramp, ramp], hstream.2 [⟨ramp, fun _ => 7⟩, ⟨ramp, ramp⟩]⟩

end Dsp
end OsmoTrx
