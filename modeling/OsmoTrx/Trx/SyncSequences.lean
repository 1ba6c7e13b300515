import OsmoTrx.Dsp.PeakDetect
import OsmoTrx.Dsp.SpanConvolve
import OsmoTrx.Dsp.Resampler
import OsmoTrx.Trx.SigProcLib

/-!
# Sequences to correlate with

The receive half of the tables of `sigProcLib.cpp`: the training sequences of normal, 8-PSK and
access bursts as they are correlated with what has been received.  Each one is modulated twice,
once without a pulse as the filter and once as it arrives, and the peak of the one through the other
gives its gain and its time lag.

* `generateMidamble`, `generateEdgeMidamble`, `generateRACHSequence` — the generators.
* `CorrelationSequence.Ready` — a filter of some length with a time lag in steps of 1/512.
* `generateMidamble_ready`, `generateEdgeMidamble_ready`, `generateRACHSequence_ready` — **every
  sequence of the library is ready**.
-/

namespace OsmoTrx
namespace Trx

open Dsp GSM SignalVector

variable {K : Type} [Field K] [LinearOrder K]

/-! ## The code -/

/-- `CorrelationSequence`. -/
structure CorrelationSequence (K : Type) where
  sequence : SignalVector K
  toa : ℚ
  gain : K × K

/-- `conjugateVector`. -/
def conjugateVector (x : SignalVector K) : SignalVector K :=
  if x.real then x
  else
    { x with
      data := Loop.upTo x.size (fun k data =>
        let s := Loop.loadPair data (2 * k)
        Loop.storePair data (2 * k) (s.1, -s.2)) x.data }

/-- `copyTo` a new vector of the same size in aligned memory. -/
def alignedCopy (mem : ℤ → K) (x : SignalVector K) : SignalVector K where
  data j := if 0 ≤ j ∧ j < 2 * (x.size : ℤ) then x.data j else mem j
  size := x.size
  start := 0
  real := false
  aligned := true

/-- `bits.segment(start, span)`. -/
def segment (bits : List UInt8) (start span : ℕ) : List UInt8 := (bits.drop start).take span

namespace SigProcLib

variable (s : SigProcLib K) (sinc : ℚ → K)

/-- What the generators of GMSK sequences have in common: the filter, the sequence as it arrives
through it, and the place of the peak less the one of a burst in time. -/
def correlate (filter arrived : SignalVector K) (sps : ℕ) (inTime : ℚ) :
    Option (Option (CorrelationSequence K)) :=
  let sequence := alignedCopy s.mem (conjugateVector filter)
  match convolve s.cpu s.mem arrived sequence none .NO_DELAY 0 0 with
  | none => some none
  | some autocorr => do
    let (gain, toa, _) ← peakDetect sinc autocorr
    some (some ⟨sequence, if sps = 1 then roundFloat (toa - inTime) else 0, gain⟩)

/-- `generateMidamble`: the middle 16 bits are the filter.  The phase of their place in a burst is
accounted for. -/
def generateMidamble (sps : ℕ) (tsc : ℤ) : Option (Option (CorrelationSequence K)) :=
  if tsc < 0 ∨ tsc > 7 then some none
  else do
    let bits := gTrainingSequence.getD tsc.toNat []
    let midMidamble ← s.modulateBurst (segment bits 5 16) 0 sps true
    let midamble ← s.modulateBurst bits 0 sps false
    match midMidamble, midamble with
    | some midMidamble, some midamble =>
      s.correlate sinc (scaleVector midMidamble (-1, 0)) (scaleVector midamble (0, 1)) sps (27 / 2)
    | _, _ => some none

/-- `generateEdgeMidamble`: the middle 48 bits, and a gain that has been measured. -/
def generateEdgeMidamble (tsc : ℤ) : Option (Option (CorrelationSequence K)) :=
  if tsc < 0 ∨ tsc > 7 then some none
  else do
    let bits := gEdgeTrainingSequence.getD tsc.toNat []
    match ← s.modulateEdgeBurst (segment bits 15 48) 1 true with
    | some midamble =>
      some (some ⟨alignedCopy s.mem (conjugateVector midamble), 0,
        (-196432 / 10000 / (118 / 100), 195006 / 10000 / (118 / 100))⟩)
    | none => some none

/-- `generateRACHSequence`: the first 40 bits are the filter. -/
def generateRACHSequence (bv : List UInt8) (sps : ℕ) : Option (Option (CorrelationSequence K)) := do
  let seq0 ← s.modulateBurst bv 0 sps false
  let seq1 ← s.modulateBurst (segment bv 0 40) 0 sps true
  match seq0, seq1 with
  | some seq0, some seq1 => s.correlate sinc seq1 seq0 sps (41 / 2)
  | _, _ => some none

end SigProcLib

/-! ## Sequences that are ready -/

/-- A filter of `taps` samples whose time lag is a multiple of 1/512 and shorter than a training
sequence. -/
structure CorrelationSequence.Ready (c : CorrelationSequence K) (taps : ℕ) : Prop where
  size : c.sequence.size = taps
  lag : ∃ k : ℤ, c.toa = k / 512 ∧ |k| < 23 * 512

omit [LinearOrder K] in
@[simp] theorem conjugateVector_size (x : SignalVector K) : (conjugateVector x).size = x.size := by
  unfold conjugateVector
  split_ifs <;> rfl

namespace SigProcLib

variable (f : FloatValues K) (sinc : ℚ → K) (sse3 : Bool)

omit [LinearOrder K] in
/-- The rotation without a pulse. -/
theorem rotateBurst_makes (cpu : ConvolveCpuContext K) {bits : List UInt8} (hlow : 1 ≤ bits.length)
    (hhigh : bits.length ≤ 157) :
    Makes ((sigProcLibSetup f cpu).rotateBurst bits 0 1) bits.length := by
  have hlen : ((1 : ℕ) : ℤ) * (bits.length + 0) = bits.length := by ring
  obtain ⟨x, hx, hxshape⟩ := writeSymbols_of_fits 1 (bits.map symbol)
    (.new bits.length : SignalVector K) 0 fun _ => by
    rw [List.length_map]
    simp only [SignalVector.new, withHead]
    omega
  have hxsize : x.size = bits.length := hxshape.1
  obtain ⟨r, hr, hrshape⟩ := GMSKRotate_of_le f cpu x 1 (by rw [hxsize, if_pos rfl]; omega)
  have hrsize : r.size = bits.length := hrshape.1.trans hxsize
  obtain ⟨y, hy, hysize⟩ := convolve_startOnly (sigProcLibSetup f cpu).cpu
    (sigProcLibSetup f cpu).mem (x := { r with real := false })
    (h := (sigProcLibSetup f cpu).GSMPulse1.empty) (show 0 < 1 by decide)
    (show 1 ≤ r.size by omega) (show r.size ≤ 2 ^ 30 by omega)
  refine ⟨y, ?_, hysize.trans hrsize⟩
  simp only [rotateBurst, hlen, if_neg (show ¬ (bits.length : ℤ) < 0 by omega), Int.toNat_natCast,
    hx, hr, hy, Option.bind_eq_bind, Option.bind_some]

omit [LinearOrder K] in
/-- The rotation of 8-PSK symbols without a pulse. -/
theorem modulateEdgeBurst_empty_makes (cpu : ConvolveCpuContext K) {bits : List UInt8}
    (h : bits.length % 3 = 0) :
    Makes ((sigProcLibSetup f cpu).modulateEdgeBurst bits 1 true) (bits.length / 3) := by
  have hsymbols : (sigProcLibSetup f cpu).mapEdgeSymbols bits =
      some ((sigProcLibSetup f cpu).psk8Symbols (Trx.mapEdgeSymbols bits)) := by
    rw [mapEdgeSymbols, if_neg (not_not.mpr h)]
  set symbols := (sigProcLibSetup f cpu).psk8Symbols (Trx.mapEdgeSymbols bits) with hdef
  have hlen : symbols.length = bits.length / 3 := by
    simp [hdef, psk8Symbols, Trx.mapEdgeSymbols]
  obtain ⟨x, hx, hxshape⟩ := writeSymbols_of_fits 1
    ((sigProcLibSetup f cpu).rotateSymbols symbols)
    (.new (symbols.length * 1) : SignalVector K) 0 fun hne => by
    have hpos := List.length_pos_iff.mpr hne
    rw [rotateSymbols, List.length_mapIdx] at hpos ⊢
    simp only [SignalVector.new, withHead]
    omega
  refine ⟨x, ?_, ?_⟩
  · rw [modulateEdgeBurst, if_neg (by simp), hsymbols]
    simp only [if_true, rotateEdgeBurst, hx, Option.map_some]
  · rw [hxshape.1, ← hlen]
    exact Nat.mul_one _

/-- **The peak of a sequence through its own filter** is found, at a place that gives a time lag in
steps of 1/512. -/
theorem correlate_ready {filter arrived : SignalVector K} {m : ℤ} (htaps : 1 ≤ filter.size)
    (hle : filter.size ≤ arrived.size + filter.size / 2) (hpos : 1 ≤ arrived.size)
    (hsize : arrived.size ≤ 64) (hlow : m + 1023 < 23 * 512)
    (hhigh : 512 * (arrived.size : ℤ) - m < 23 * 512) :
    ∃ c, (sigProcLibSetup f (convolveInit sse3)).correlate sinc filter arrived 1 (m / 512) =
      some (some c) ∧ c.Ready filter.size := by
  set s := sigProcLibSetup f (convolveInit sse3) with hs
  set sequence := alignedCopy s.mem (conjugateVector filter) with hsequence
  have hseqsize : sequence.size = filter.size := conjugateVector_size filter
  obtain ⟨autocorr, hauto, hautosize⟩ : ∃ autocorr, convolve s.cpu s.mem arrived sequence none
      .NO_DELAY 0 0 = some autocorr ∧ autocorr.size = arrived.size := by
    have hfits : FitsInt arrived sequence none .NO_DELAY 0 0 :=
      .fresh (by omega) (by decide)
    obtain ⟨autocorr, hauto, hsize, -⟩ := convolve_within sse3 s.mem (x := arrived) (y := none)
      (show 1 ≤ sequence.size by omega) hfits
      (show Span.of arrived sequence 0 0 .NO_DELAY = _ from rfl)
      hpos (fun z hz => by cases hz) (by
        rw [hseqsize]
        exact hle)
    exact ⟨autocorr, hauto, hsize⟩
  obtain ⟨r, hr, -⟩ := greatestSample_spec (x := autocorr) (by omega)
  obtain ⟨maxVal, k, avgPwr, hpeak, hk⟩ := peakDetect_place sinc (by omega) (by omega) hr
  have hplace : -1 ≤ place r ∧ place r < arrived.size := by
    cases r with
    | none => exact ⟨le_rfl, by simp only [place, Option.elim_none]; omega⟩
    | some i =>
      have hi := hr.1
      simp only [place, Option.elim_some]
      omega
  rw [abs_lt] at hk
  have hlag : |512 * place r + k - m| < 23 * 512 := abs_lt.mpr ⟨by omega, by omega⟩
  have hround : roundFloat ((place r : ℚ) + k / 512 - m / 512) =
      ((512 * place r + k - m : ℤ) : ℚ) / 512 := by
    rw [← roundFloat_place (hlag.trans (by norm_num))]
    congr 1
    push_cast
    ring
  refine ⟨⟨sequence, ((512 * place r + k - m : ℤ) : ℚ) / 512, maxVal⟩, ?_, hseqsize, _, rfl, hlag⟩
  simp only [correlate, ← hsequence, hauto, hpeak, Option.bind_eq_bind, Option.bind_some, if_true,
    hround]

theorem length_trainingSequence {tsc : ℕ} (h : tsc ≤ 7) :
    (gTrainingSequence.getD tsc []).length = 26 := by
  have hlt : tsc < gTrainingSequence.length := show tsc < 8 by omega
  rw [List.getD_eq_getElem?_getD, List.getElem?_eq_getElem hlt, Option.getD_some]
  exact length_of_mem_gTrainingSequence _ (List.getElem_mem hlt)

/-- The bits of the filter of a midamble. -/
theorem length_midMidamble {tsc : ℕ} (h : tsc ≤ 7) :
    (segment (gTrainingSequence.getD tsc []) 5 16).length = 16 := by
  rw [segment, List.length_take, List.length_drop, length_trainingSequence h]
  rfl

variable {tsc : ℤ}

theorem generateMidamble_ready (h0 : 0 ≤ tsc) (h7 : tsc ≤ 7) :
    ∃ c, (sigProcLibSetup f (convolveInit sse3)).generateMidamble sinc 1 tsc = some (some c) ∧
      c.Ready 16 := by
  have hbits := length_trainingSequence (show tsc.toNat ≤ 7 by omega)
  have hsegment := length_midMidamble (show tsc.toNat ≤ 7 by omega)
  obtain ⟨filter, hfilter, hfsize⟩ := rotateBurst_makes f (convolveInit sse3)
    (show 1 ≤ (segment (gTrainingSequence.getD tsc.toNat []) 5 16).length by omega) (by omega)
  obtain ⟨arrived, harrived, hasize⟩ := modulateBurstBasic_makes f (convolveInit sse3) le_rfl
    (show (4 : ℤ) ≤ (gTrainingSequence.getD tsc.toNat []).length + 0 by omega) (by omega)
  rw [hsegment] at hfsize
  rw [hbits] at hasize
  obtain ⟨c, hc, hready⟩ := correlate_ready f sinc sse3 (m := 6912)
    (show 1 ≤ (scaleVector filter (-1, 0)).size by simp [hfsize])
    (show _ ≤ (scaleVector arrived (0, 1)).size + _ by simp [hfsize, hasize]) (by simp [hasize])
    (by simp [hasize]) (by norm_num) (by simp [hasize])
  refine ⟨c, ?_, by simpa [hfsize] using hready⟩
  have hlag : ((6912 : ℤ) : ℚ) / 512 = 27 / 2 := by norm_num
  rw [hlag] at hc
  rw [generateMidamble, if_neg (by omega)]
  simp only [modulateBurst, if_true, Bool.false_eq_true, if_false, if_neg (show ¬ 1 = 4 by decide),
    hfilter, harrived, hc, Option.bind_eq_bind, Option.bind_some]

omit [LinearOrder K] in
theorem generateEdgeMidamble_ready (h0 : 0 ≤ tsc) (h7 : tsc ≤ 7) :
    ∃ c, (sigProcLibSetup f (convolveInit sse3)).generateEdgeMidamble tsc = some (some c) ∧
      c.Ready 16 := by
  have hlt : tsc.toNat < gEdgeTrainingSequence.length := show tsc.toNat < 8 by omega
  have hbits : (gEdgeTrainingSequence.getD tsc.toNat []).length = 78 := by
    rw [List.getD_eq_getElem?_getD, List.getElem?_eq_getElem hlt, Option.getD_some]
    exact length_of_mem_gEdgeTrainingSequence _ (List.getElem_mem hlt)
  have hsegment : (segment (gEdgeTrainingSequence.getD tsc.toNat []) 15 48).length = 48 := by
    rw [segment, List.length_take, List.length_drop, hbits]
    rfl
  obtain ⟨midamble, hmidamble, hsize⟩ := modulateEdgeBurst_empty_makes f (convolveInit sse3)
    (show (segment (gEdgeTrainingSequence.getD tsc.toNat []) 15 48).length % 3 = 0 by omega)
  rw [hsegment] at hsize
  rw [generateEdgeMidamble, if_neg (by omega)]
  simp only [hmidamble, Option.bind_eq_bind, Option.bind_some]
  exact ⟨_, rfl, (conjugateVector_size midamble).trans hsize, 0, by norm_num, by norm_num⟩

theorem generateRACHSequence_ready {bv : List UInt8} (hbv : bv.length = 41) :
    ∃ c, (sigProcLibSetup f (convolveInit sse3)).generateRACHSequence sinc bv 1 = some (some c) ∧
      c.Ready 40 := by
  have hsegment : (segment bv 0 40).length = 40 := by
    rw [segment, List.length_take, List.length_drop, hbv]
    rfl
  obtain ⟨filter, hfilter, hfsize⟩ := rotateBurst_makes f (convolveInit sse3)
    (show 1 ≤ (segment bv 0 40).length by omega) (by omega)
  obtain ⟨arrived, harrived, hasize⟩ := modulateBurstBasic_makes f (convolveInit sse3) le_rfl
    (show (4 : ℤ) ≤ bv.length + 0 by omega) (by omega)
  rw [hsegment] at hfsize
  rw [hbv] at hasize
  obtain ⟨c, hc, hready⟩ := correlate_ready f sinc sse3 (m := 10496)
    (show 1 ≤ filter.size by omega) (show _ ≤ arrived.size + _ by simp [hfsize, hasize])
    (by simp [hasize]) (by simp [hasize]) (by norm_num) (by simp [hasize])
  refine ⟨c, ?_, hfsize ▸ hready⟩
  have hlag : ((10496 : ℤ) : ℚ) / 512 = 41 / 2 := by norm_num
  rw [hlag] at hc
  simp only [generateRACHSequence, modulateBurst, if_true, Bool.false_eq_true, if_false,
    if_neg (show ¬ 1 = 4 by decide), hfilter, harrived, hc, Option.bind_eq_bind, Option.bind_some]

end SigProcLib
end Trx
end OsmoTrx
