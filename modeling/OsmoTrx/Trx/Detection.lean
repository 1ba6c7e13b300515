import OsmoTrx.Dsp.Complex
import OsmoTrx.Trx.DelayLimit
import OsmoTrx.Trx.SyncSequences

/-!
# Detection of bursts

From the correlation of a burst with a training sequence to its time of arrival: the receive half
of `sigProcLib.cpp`, with the windows of the delay limits.  The outer `none` is a failed assertion,
a vector that cannot be allocated or a read outside of one.

* `detectBurst`, `detectGeneralBurst`, `detectAnyBurst` — the functions; a null sequence would be
  read.
* `Receiver.setup` — the library as `sigProcLibSetup` leaves it, with every sequence in place.
* `detectAnyBurst_spec` — **every search of a long enough burst ends without a read outside**, and
  the time of arrival of a burst that is found is a multiple of 1/512 within the window.
* `delayVector_detected` — **such a delay can be compensated**: the filter for its fraction is one of
  the table, with the fraction computed exactly.
-/

namespace OsmoTrx
namespace Trx

open Dsp GSM SignalVector

/-! ## The library -/

/-- What the receive half computes in floating point: `sinc` in units of π, roots, the taps of the
delay filters, the prototype of the downsampler with its scale, and the rotations back. -/
structure ReceiveValues (K : Type) where
  sinc : ℚ → K
  sqrt : K → K
  delayTaps : ℕ → ℤ → K
  proto : ℕ → K
  scale : K
  GMSKReverseRotation1 : ℤ → K
  GMSKReverseRotation4 : ℤ → K
  edgeDerotation : ℕ → K × K
  rotation8 : K × K
  rotation4 : K × K

/-- No values at all. -/
def noReceiveValues : ReceiveValues ℚ where
  sinc _ := 0
  sqrt _ := 0
  delayTaps _ _ := 0
  proto _ := 0
  scale := 0
  GMSKReverseRotation1 _ := 0
  GMSKReverseRotation4 _ := 0
  edgeDerotation _ := 0
  rotation8 := 0
  rotation4 := 0

/-- No values of the transmit half either. -/
def noRationals : FloatValues ℚ where
  pulse1_c0 _ := 0
  pulse4_c0 _ := 0
  pulse4_c1 _ := 0
  GMSKRotation1 _ := 0
  GMSKRotation4 _ := 0
  edgeRotation _ := 0
  psk8_table _ := 0
  mem _ := 0

/-- The static tables of the library with its receive half. -/
structure Receiver (K : Type) extends SigProcLib K, ReceiveValues K where
  delayFilters : ℕ → SignalVector K
  dnsampler : Resampler K
  c0_inv : SignalVector K
  gMidambles : ℕ → Option (CorrelationSequence K)
  gEdgeMidambles : ℕ → Option (CorrelationSequence K)
  gRACHSequences : ℕ → Option (CorrelationSequence K)

def DOWNSAMPLE_IN_LEN : ℕ := 624

def DOWNSAMPLE_OUT_LEN : ℕ := 156

/-- The default of `filt_len`. -/
def resamplerFiltLen : ℕ := 16

/-- What `detectAnyBurst` returns and leaves in its references. -/
structure Detection (K : Type) where
  rc : ℤ
  amp : K × K
  toa : ℚ

def SIGERR_NONE : ℤ := 0

def SIGERR_CLIP : ℤ := 2

def SIGERR_UNSUPPORTED : ℤ := 3

def SIGERR_INTERNAL : ℤ := 4

/-- The number of a burst type. -/
def CorrType.toInt : CorrType → ℤ
  | .OFF => 0
  | .TSC => 1
  | .EXT_RACH => 2
  | .RACH => 3
  | .EDGE => 4
  | .IDLE => 5

variable {K : Type} [Field K] [LinearOrder K]

/-- `a / b` of complex numbers. -/
def cdiv (a b : K × K) : K × K :=
  let z := (⟨a.1, a.2⟩ : Dsp.Complex K).div ⟨b.1, b.2⟩
  (z.r, z.i)

/-- The taps of `generateInvertC0Pulse`. -/
def invertC0Taps : List K :=
  [15884 / 100000, -43176 / 100000, 1, -42608 / 100000, 14882 / 100000]

namespace Receiver

/-- `sigProcLibSetup`.  A sequence that cannot be made stays NULL. -/
def setup (f : FloatValues K) (v : ReceiveValues K) (cpu : ConvolveCpuContext K) : Receiver K :=
  let s := sigProcLibSetup f cpu
  { s, v with
    delayFilters := fun i => ⟨v.delayTaps i, 20, 0, true, true⟩
    dnsampler := ((Resampler.new 1 4 resamplerFiltLen).init v.proto v.scale).2
    c0_inv := ⟨fun j => if j % 2 = 0 then invertC0Taps.getD (j / 2).toNat 0 else 0, 5, 0, true,
      false⟩
    gMidambles := fun tsc => (s.generateMidamble v.sinc 1 tsc).join
    gEdgeMidambles := fun tsc => (s.generateEdgeMidamble tsc).join
    gRACHSequences := fun i => (s.generateRACHSequence v.sinc
      ([gRACHSynchSequenceTS0, gRACHSynchSequenceTS1, gRACHSynchSequenceTS2].getD i []) 1).join }

variable (s : Receiver K)

/-! ## The code -/

/-- `downsampleBurst`.  The copy asserts that there is a whole burst. -/
def downsampleBurst (burst : SignalVector K) : Option (Option (SignalVector K)) :=
  if burst.size < DOWNSAMPLE_IN_LEN then none
  else
    let inp : SignalVector K :=
      ⟨fun j => if 0 ≤ j ∧ j < 2 * (DOWNSAMPLE_IN_LEN : ℤ) then burst.data j else 0,
        DOWNSAMPLE_IN_LEN, s.dnsampler.len, false, false⟩
    let out : SignalVector K := .new DOWNSAMPLE_OUT_LEN
    let r := s.dnsampler.rotate s.cpu inp.data DOWNSAMPLE_IN_LEN out.data DOWNSAMPLE_OUT_LEN
    some (if r.1 < 0 then none else some { out with data := r.2 })

/-- `corr_in`: at 4 samples a symbol the burst is downsampled. -/
def corrIn (burst : SignalVector K) (sps : ℕ) : Option (Option (SignalVector K)) :=
  if sps = 4 then s.downsampleBurst burst else some (some burst)

/-- The second half of `detectBurst`: a peak that is not at an edge of the correlation and stands
out from its surroundings is refined, and gain and time lag of the sequence are taken out. -/
def detectPeak (corr : SignalVector K) (sync : CorrelationSequence K) (thresh : K) (len : ℤ) :
    Option (Detection K) :=
  let (amp, toa) := fastPeakDetect corr
  if toa < 3 ∨ toa > roundFloat (len - 3 : ℤ) then some ⟨0, amp, toa⟩
  else do
    let ratio ← computePeakRatio s.sqrt corr 1 toa amp
    if ratio < thresh then some ⟨0, amp, toa⟩
    else
      let (amp, toa, _) ← peakDetect s.sinc corr
      some ⟨1, cdiv amp sync.gain, roundFloat (toa - sync.toa)⟩

/-- `detectBurst`; the references come in with `amp` and `toa`. -/
def detectBurst (burst corr : SignalVector K) (sync : CorrelationSequence K) (thresh : K) (sps : ℕ)
    (amp : K × K) (toa : ℚ) (start len : ℤ) : Option (Detection K) := do
  let corr_in ← s.corrIn burst sps
  match corr_in.bind fun x => convolve s.cpu s.mem x sync.sequence (some corr) .CUSTOM
      (sizeT start) (sizeT len) with
  | none => some ⟨-1, amp, toa⟩
  | some corr => s.detectPeak corr sync thresh len

/-- `detectGeneralBurst`: clipping is reported if nothing is found.  A vector of negative length
cannot be allocated. -/
def detectGeneralBurst (rxBurst : SignalVector K) (thresh : K) (sps : ℕ) (amp : K × K) (toa : ℚ)
    (w : SearchWindow) (sync : Option (CorrelationSequence K)) : Option (Detection K) :=
  if sps ≠ 1 ∧ sps ≠ 4 then some ⟨-SIGERR_UNSUPPORTED, amp, toa⟩
  else do
    let clipping := maxAmplitude rxBurst > 30000
    if w.len < 0 then none
    let sync ← sync
    let r ← s.detectBurst rxBurst (.new w.corrSize) sync thresh sps amp toa w.start w.len
    if r.rc < 0 then some { r with rc := -SIGERR_INTERNAL }
    else if r.rc = 0 then some ⟨if clipping then -SIGERR_CLIP else SIGERR_NONE, (0, 0), 0⟩
    else some { r with rc := 1, toa := roundFloat (r.toa - w.head) }

/-- The loop of `detectRACHBurst` over the sequences from `i` on. -/
def searchRACH (burst : SignalVector K) (threshold : K) (sps : ℕ) (max_toa : ℤ) :
    List ℕ → Detection K → Option (Detection K)
  | [], r => some r
  | i :: rest, r => do
    let r ← s.detectGeneralBurst burst threshold sps r.amp r.toa (Trx.detectRACHBurst max_toa)
      (s.gRACHSequences i)
    if r.rc > 0 then some r else searchRACH burst threshold sps max_toa rest r

/-- `detectRACHBurst`. -/
def detectRACHBurst (burst : SignalVector K) (threshold : K) (sps : ℕ) (amp : K × K) (toa : ℚ)
    (max_toa : ℤ) (ext : Bool) : Option (Detection K) :=
  s.searchRACH burst threshold sps max_toa (List.range (if ext then 3 else 1)) ⟨0, amp, toa⟩

/-- `analyzeTrafficBurst`. -/
def analyzeTrafficBurst (burst : SignalVector K) (tsc : ℕ) (threshold : K) (sps : ℕ) (amp : K × K)
    (toa : ℚ) (max_toa : ℤ) : Option (Detection K) :=
  if tsc > 7 then some ⟨-SIGERR_UNSUPPORTED, amp, toa⟩
  else s.detectGeneralBurst burst threshold sps amp toa (Trx.analyzeTrafficBurst max_toa)
    (s.gMidambles tsc)

/-- `detectEdgeBurst`. -/
def detectEdgeBurst (burst : SignalVector K) (tsc : ℕ) (threshold : K) (sps : ℕ) (amp : K × K)
    (toa : ℚ) (max_toa : ℤ) : Option (Detection K) :=
  if tsc > 7 then some ⟨-SIGERR_UNSUPPORTED, amp, toa⟩
  else s.detectGeneralBurst burst threshold sps amp toa (Trx.detectEdgeBurst max_toa)
    (s.gEdgeMidambles tsc)

/-- `detectAnyBurst`: a burst that is no 8-PSK burst may be a normal one.  What is found is
returned as the number of its type. -/
def detectAnyBurst (burst : SignalVector K) (tsc : ℕ) (threshold : K) (sps : ℕ) (type : CorrType)
    (amp : K × K) (toa : ℚ) (max_toa : ℤ) : Option (Detection K) := do
  let (type, r) ← match type with
    | .EDGE => do
      let r ← s.detectEdgeBurst burst tsc threshold sps amp toa max_toa
      if r.rc > 0 then some (CorrType.EDGE, r)
      else (s.analyzeTrafficBurst burst tsc threshold sps r.amp r.toa max_toa).map (CorrType.TSC, ·)
    | .TSC => (s.analyzeTrafficBurst burst tsc threshold sps amp toa max_toa).map (CorrType.TSC, ·)
    | .EXT_RACH | .RACH =>
      (s.detectRACHBurst burst threshold sps amp toa max_toa (type = .EXT_RACH)).map (type, ·)
    | .OFF | .IDLE => some (type, ⟨0, amp, toa⟩)
  some (if r.rc > 0 then { r with rc := type.toInt } else r)

/-! ## The library in place -/

section Setup

variable (f : FloatValues K) (v : ReceiveValues K) (sse3 : Bool)

theorem setup_gMidambles {tsc : ℕ} (h : tsc ≤ 7) :
    ∃ c, (setup f v (convolveInit sse3)).gMidambles tsc = some c ∧ c.Ready 16 := by
  obtain ⟨c, hc, hready⟩ := SigProcLib.generateMidamble_ready f v.sinc sse3
    (show (0 : ℤ) ≤ tsc by omega) (by omega)
  exact ⟨c, by simp only [setup, hc, Option.join_some], hready⟩

theorem setup_gEdgeMidambles {tsc : ℕ} (h : tsc ≤ 7) :
    ∃ c, (setup f v (convolveInit sse3)).gEdgeMidambles tsc = some c ∧ c.Ready 16 := by
  obtain ⟨c, hc, hready⟩ := SigProcLib.generateEdgeMidamble_ready f sse3
    (show (0 : ℤ) ≤ tsc by omega) (by omega)
  exact ⟨c, by simp only [setup, hc, Option.join_some], hready⟩

theorem setup_gRACHSequences {i : ℕ} (h : i < 3) :
    ∃ c, (setup f v (convolveInit sse3)).gRACHSequences i = some c ∧ c.Ready 40 := by
  have hlen : ([gRACHSynchSequenceTS0, gRACHSynchSequenceTS1, gRACHSynchSequenceTS2].getD i
      []).length = 41 := by
    interval_cases i <;> exact length_bitVector 41 _
  obtain ⟨c, hc, hready⟩ := SigProcLib.generateRACHSequence_ready f v.sinc sse3 hlen
  exact ⟨c, by simp only [setup, hc, Option.join_some], hready⟩

/-- A whole burst is downsampled. -/
theorem setup_downsampleBurst {burst : SignalVector K} (h : DOWNSAMPLE_IN_LEN ≤ burst.size) :
    ∃ out, (setup f v (convolveInit sse3)).downsampleBurst burst = some (some out) ∧
      out.size = DOWNSAMPLE_OUT_LEN := by
  have hrotate (inp out : ℤ → K) : ((setup f v (convolveInit sse3)).dnsampler.rotate
      (setup f v (convolveInit sse3)).cpu inp DOWNSAMPLE_IN_LEN out DOWNSAMPLE_OUT_LEN).1 =
      DOWNSAMPLE_OUT_LEN := by
    have hp : (setup f v (convolveInit sse3)).dnsampler.p = 1 := rfl
    have hq : (setup f v (convolveInit sse3)).dnsampler.q = 4 := rfl
    have hcheck : Resampler.checkVecLen (i32 DOWNSAMPLE_IN_LEN) (i32 DOWNSAMPLE_OUT_LEN)
        (i32 (setup f v (convolveInit sse3)).dnsampler.p)
        (i32 (setup f v (convolveInit sse3)).dnsampler.q) = true := by
      rw [hp, hq]
      decide
    exact (Resampler.rotate_fst _ _ inp out hcheck).trans (i32_natCast (by decide))
  rw [downsampleBurst, if_neg (not_lt.mpr h)]
  simp only [hrotate]
  rw [if_neg (not_lt.mpr (Int.natCast_nonneg _))]
  exact ⟨_, rfl, rfl⟩

end Setup

/-! ## One search -/

section Search

variable (f : FloatValues K) (v : ReceiveValues K) (sse3 : Bool) {burst : SignalVector K} {sps : ℕ}

/-- The last place that is not at the edge. -/
theorem roundFloat_edge {len : ℕ} (h : len ≤ 2 ^ 14) :
    roundFloat ((len : ℤ) - 3 : ℤ) = (len : ℤ) - 3 := by
  have hround := roundFloat_intCast (n := (len : ℤ) - 3) (by omega)
  exact_mod_cast hround

/-- **A peak that is reported** lies less than a sample beyond the edges that are left out, up to the
time lag of the sequence. -/
theorem detectPeak_spec {sync : CorrelationSequence K} {taps : ℕ} (hsync : sync.Ready taps)
    {corr : SignalVector K} (hlen : 1 ≤ corr.size) (hmax : corr.size ≤ 2 ^ 14) (thresh : K) :
    ∃ r, s.detectPeak corr sync thresh corr.size = some r ∧
      (r.rc = 0 ∨ r.rc = 1 ∧
        ∃ k : ℤ, r.toa = k / 512 ∧ -21 * 512 < k ∧ k < (corr.size + 21) * 512) := by
  obtain ⟨r, hr, hfast⟩ := fastPeakDetect_spec (x := corr) (by omega)
  obtain ⟨ratio, hratio⟩ := computePeakRatio_isSome s.sqrt corr (le_refl 1) (place r)
    (recordSample corr r)
  obtain ⟨maxVal, k, avgPwr, hpeak, hk⟩ := peakDetect_place s.sinc (by omega) (by omega) hr
  simp only [detectPeak, hfast, roundFloat_edge hmax, hratio, hpeak, Option.bind_eq_bind, Option.bind_some]
  split_ifs with hout hlow
  · exact ⟨_, rfl, Or.inl rfl⟩
  · exact ⟨_, rfl, Or.inl rfl⟩
  · obtain ⟨lag, hlag, hlagabs⟩ := hsync.lag
    rw [not_or, not_lt, not_lt] at hout
    have hafter : 3 ≤ place r := by exact_mod_cast hout.1
    have hbefore : place r ≤ corr.size - 3 := by exact_mod_cast hout.2
    rw [abs_lt] at hk hlagabs
    have hsum : (place r : ℚ) + k / 512 - sync.toa = ((512 * place r + k - lag : ℤ) : ℚ) / 512 := by
      rw [hlag]
      push_cast
      ring
    have habs : |512 * place r + k - lag| < 2 ^ 24 := abs_lt.mpr ⟨by omega, by omega⟩
    have hround := roundFloat_place habs
    rw [← hsum] at hround
    exact ⟨_, rfl, Or.inr ⟨rfl, _, hround.trans hsum, by omega, by omega⟩⟩

/-- A burst that can be searched: at 4 samples a symbol it is long enough to be downsampled, and it
is short enough for the kernels. -/
structure Searchable (sps : ℕ) (burst : SignalVector K) : Prop where
  whole : sps = 4 → DOWNSAMPLE_IN_LEN ≤ burst.size
  few : burst.size ≤ 2 ^ 29

/-- **A search** that reaches the filter with its window ends, and finds nothing beyond it. -/
theorem detectBurst_spec {sync : CorrelationSequence K} {taps : ℕ} (hsync : sync.Ready taps)
    (htaps : 1 ≤ taps) (hfilter : taps ≤ 2 ^ 14) (start len : ℕ) (hlen : 1 ≤ len) (hmax : len ≤ 2 ^ 14)
    (hreach : taps ≤ start + len) (hstart : start ≤ 2 ^ 29)
    (hburst : Searchable sps burst) (thresh : K) (amp : K × K) (toa : ℚ) :
    ∃ r, (setup f v (convolveInit sse3)).detectBurst burst (.new len) sync thresh sps amp toa start
        len = some r ∧
      (r.rc = 0 ∨ r.rc = 1 ∧ ∃ k : ℤ, r.toa = k / 512 ∧ -21 * 512 < k ∧ k < (len + 21) * 512) := by
  set s := setup f v (convolveInit sse3) with hs
  obtain ⟨x, hx, hfew⟩ : ∃ x, s.corrIn burst sps = some (some x) ∧ x.size ≤ 2 ^ 29 := by
    unfold corrIn
    split_ifs with h4
    · obtain ⟨out, hout, hsize⟩ := setup_downsampleBurst f v sse3 (hburst.whole h4)
      exact ⟨out, hout, hsize.le.trans (by decide)⟩
    · exact ⟨burst, rfl, hburst.few⟩
  have hstart' : sizeT start = start := sizeT_natCast (by omega)
  have hlen' : sizeT len = len := sizeT_natCast (by omega)
  obtain ⟨corr, hcorr, hcsize⟩ : ∃ corr, convolve s.cpu s.mem x sync.sequence (some (.new len))
      .CUSTOM start len = some corr ∧ corr.size = len := by
    have hseq : 1 ≤ sync.sequence.size := by rw [hsync.size]; exact htaps
    obtain ⟨span, hspan⟩ := Span.exists_of x sync.sequence start len
      (show ConvType.CUSTOM ≠ .UNDEFINED by decide)
    have hseq' := hsync.size
    have hfits : FitsInt x sync.sequence (some (.new len)) .CUSTOM start len := by
      refine ⟨by omega, fun z hz => ?_, fun _ => by omega⟩
      obtain rfl := Option.some.inj hz
      exact show len < 2 ^ 31 by omega
    have hend := Span.start_add_len_le hfits hspan
    obtain rfl := Option.some.inj hspan
    obtain ⟨corr, hcorr, hsize, -⟩ := convolve_within sse3 s.mem hseq hfits hspan
      hlen (fun z hz => by cases hz; exact le_rfl) (hsync.size.le.trans (hreach.trans hend))
    exact ⟨corr, hcorr, hsize⟩
  obtain ⟨r, hr, hfound⟩ := detectPeak_spec s hsync (show 1 ≤ corr.size by omega) (by omega) thresh
  rw [hcsize] at hr hfound
  refine ⟨r, ?_, hfound⟩
  simp only [detectBurst, hx, hstart', hlen', hcorr, hr, Option.bind_eq_bind, Option.bind_some]

/-- The greatest delay that is searched with exact places. -/
def MaxSearch (max_toa : ℤ) : Prop := 0 ≤ max_toa ∧ max_toa ≤ 2 ^ 14 - 16

/-- **A burst that is found** arrives a multiple of 1/512 after the place of a burst in time, within
the window and the time lag of a sequence. -/
def Arrives (max_toa : ℤ) (r : Detection K) : Prop :=
  ∃ k : ℤ, r.toa = k / 512 ∧ -29 * 512 < k ∧ k < (max_toa + 29) * 512

/-- A search finds nothing or a burst that arrives. -/
def Ends (max_toa : ℤ) (r : Detection K) : Prop := r.rc ≤ 0 ∨ r.rc = 1 ∧ Arrives max_toa r

/-- The window of a search. -/
theorem searchWindow_eq (target : ℤ) {head max_toa : ℤ} (hlow : 0 ≤ head) (hhigh : head ≤ 8)
    (hmax : MaxSearch max_toa) :
    (searchWindow target head max_toa).len = 2 * head + max_toa ∧
      ((searchWindow target head max_toa).corrSize : ℤ) = 2 * head + max_toa := by
  obtain ⟨h0, h14⟩ := hmax
  have htail : (searchWindow target head max_toa).tail = head + max_toa := by
    rw [searchWindow, u32_eq_self (by omega) (by omega)]
    exact i32_eq_self (by omega) (by omega)
  have hlen : (searchWindow target head max_toa).len = 2 * head + max_toa := by
    rw [SearchWindow.len, htail, show (searchWindow target head max_toa).head = head from rfl,
      i32_eq_self (by omega) (by omega)]
    ring
  exact ⟨hlen, by rw [SearchWindow.corrSize, hlen, sizeT_eq (by omega) (by omega)]⟩

/-- **A search in a window** of a delay limit. -/
theorem detectGeneralBurst_spec {sync : CorrelationSequence K} {taps : ℕ} (hsync : sync.Ready taps)
    (htaps : 1 ≤ taps) {target head max_toa : ℤ} (hhead : 6 ≤ head ∧ head ≤ 8)
    (htarget : taps + head ≤ target ∧ target ≤ 100) (hmax : MaxSearch max_toa)
    (hburst : Searchable sps burst) (thresh : K) (amp : K × K) (toa : ℚ) :
    ∃ r, (setup f v (convolveInit sse3)).detectGeneralBurst burst thresh sps amp toa
        (searchWindow target head max_toa) (some sync) = some r ∧ Ends max_toa r := by
  unfold detectGeneralBurst
  by_cases hsps : sps ≠ 1 ∧ sps ≠ 4
  · rw [if_pos hsps]
    exact ⟨_, rfl, Or.inl (by norm_num [SIGERR_UNSUPPORTED])⟩
  obtain ⟨hlen, hcorr⟩ := searchWindow_eq target (by omega) hhead.2 hmax
  obtain ⟨h0, h14⟩ := hmax
  obtain ⟨start, hstart⟩ := Int.eq_ofNat_of_zero_le (show 0 ≤ target - head - 1 by omega)
  have hwstart : (searchWindow target head max_toa).start = start := hstart
  obtain ⟨r, hr, hfound⟩ := detectBurst_spec f v sse3 hsync htaps (by omega) start
    (searchWindow target head max_toa).corrSize (by omega) (by omega) (by omega) (by omega) hburst
    thresh amp toa
  rw [hcorr, ← hlen, ← hwstart] at hr
  rw [if_neg hsps]
  simp only [if_neg (show ¬ (searchWindow target head max_toa).len < 0 by omega), hr,
    Option.bind_eq_bind, Option.bind_some]
  rcases hfound with hrc | ⟨hrc, k, hk, hlow, hhigh⟩
  · rw [if_neg (by omega), if_pos hrc]
    refine ⟨_, rfl, Or.inl ?_⟩
    split_ifs <;> norm_num [SIGERR_CLIP, SIGERR_NONE]
  · rw [if_neg (by omega), if_neg (by omega)]
    have hsum : r.toa - (searchWindow target head max_toa).head = ((k - 512 * head : ℤ) : ℚ) / 512 := by
      rw [hk]
      push_cast [searchWindow]
      ring
    have habs : |k - 512 * head| < 2 ^ 24 := abs_lt.mpr ⟨by omega, by omega⟩
    have hround := roundFloat_place habs
    rw [← hsum] at hround
    exact ⟨_, rfl, Or.inr ⟨rfl, _, hround.trans hsum, by omega, by omega⟩⟩

/-- The loop over the sequences of access bursts. -/
theorem searchRACH_spec {max_toa : ℤ} (hmax : MaxSearch max_toa)
    (hburst : Searchable sps burst) (threshold : K) (indices : List ℕ)
    (hindices : ∀ i ∈ indices, i < 3) (r : Detection K) (hr : Ends max_toa r) :
    ∃ r', (setup f v (convolveInit sse3)).searchRACH burst threshold sps max_toa indices r =
      some r' ∧ Ends max_toa r' := by
  induction indices generalizing r with
  | nil => exact ⟨r, rfl, hr⟩
  | cons i rest ih =>
    obtain ⟨c, hc, hready⟩ :=
      setup_gRACHSequences f v sse3 (hindices i (List.mem_cons_self ..))
    obtain ⟨r₁, hr₁, hends⟩ : ∃ r₁, (setup f v (convolveInit sse3)).detectGeneralBurst burst
        threshold sps r.amp r.toa (Trx.detectRACHBurst max_toa) (some c) = some r₁ ∧
        Ends max_toa r₁ :=
      detectGeneralBurst_spec f v sse3 hready (by norm_num) (by norm_num) (by norm_num) hmax hburst
        threshold r.amp r.toa
    rw [searchRACH, hc, hr₁]
    simp only [Option.bind_eq_bind, Option.bind_some]
    split_ifs with hrc
    · exact ⟨r₁, rfl, hends⟩
    · exact ih (fun i hi => hindices i (List.mem_cons_of_mem _ hi)) r₁ hends

variable (tsc : ℕ) (threshold : K) (amp : K × K) (toa : ℚ) {max_toa : ℤ}

theorem analyzeTrafficBurst_spec (hmax : MaxSearch max_toa)
    (hburst : Searchable sps burst) :
    ∃ r, (setup f v (convolveInit sse3)).analyzeTrafficBurst burst tsc threshold sps amp toa
      max_toa = some r ∧ Ends max_toa r := by
  unfold analyzeTrafficBurst
  split_ifs with htsc
  · exact ⟨_, rfl, Or.inl (by norm_num [SIGERR_UNSUPPORTED])⟩
  · obtain ⟨c, hc, hready⟩ := setup_gMidambles f v sse3 (not_lt.mp htsc)
    rw [hc]
    exact detectGeneralBurst_spec f v sse3 hready (by norm_num) (by norm_num) (by norm_num) hmax
      hburst threshold amp toa

theorem detectEdgeBurst_spec (hmax : MaxSearch max_toa)
    (hburst : Searchable sps burst) :
    ∃ r, (setup f v (convolveInit sse3)).detectEdgeBurst burst tsc threshold sps amp toa
      max_toa = some r ∧ Ends max_toa r := by
  unfold detectEdgeBurst
  split_ifs with htsc
  · exact ⟨_, rfl, Or.inl (by norm_num [SIGERR_UNSUPPORTED])⟩
  · obtain ⟨c, hc, hready⟩ := setup_gEdgeMidambles f v sse3 (not_lt.mp htsc)
    rw [hc]
    exact detectGeneralBurst_spec f v sse3 hready (by norm_num) (by norm_num) (by norm_num) hmax
      hburst threshold amp toa

/-- What is found is reported as the type that was looked for, or an 8-PSK burst as a normal one. -/
def Reported (type : CorrType) (max_toa : ℤ) (r : Detection K) : Prop :=
  0 < r.rc → Arrives max_toa r ∧ type ≠ .OFF ∧ type ≠ .IDLE ∧
    (r.rc = type.toInt ∨ type = .EDGE ∧ r.rc = CorrType.TSC.toInt)

omit [Field K] [LinearOrder K] in
/-- The return value of a search that has ended. -/
theorem reported_of_ends {type found : CorrType} {r : Detection K} (hr : Ends max_toa r)
    (hfound : found = type ∨ type = .EDGE ∧ found = .TSC) (htype : type ≠ .OFF ∧ type ≠ .IDLE) :
    Reported type max_toa (if r.rc > 0 then { r with rc := found.toInt } else r) := by
  intro hpos
  rcases hr with hrc | ⟨hrc, harrives⟩
  · rw [if_neg (not_lt.mpr hrc)] at hpos
    exact absurd hpos (not_lt.mpr hrc)
  · rw [if_pos (by rw [hrc]; exact one_pos)]
    refine ⟨harrives, htype.1, htype.2, ?_⟩
    rcases hfound with rfl | ⟨hedge, rfl⟩
    · exact Or.inl rfl
    · exact Or.inr ⟨hedge, rfl⟩

/-- **Every search ends.**  For any samples, any threshold and any type of burst: if a burst at 4
samples a symbol is a whole one, no search for it reads outside of a vector, and the time of arrival
of a burst that is found is a multiple of 1/512 within the window. -/
theorem detectAnyBurst_spec (type : CorrType) (hmax : MaxSearch max_toa)
    (hburst : Searchable sps burst) :
    ∃ r, (setup f v (convolveInit sse3)).detectAnyBurst burst tsc threshold sps type amp toa
      max_toa = some r ∧ Reported type max_toa r := by
  set s := setup f v (convolveInit sse3) with hs
  cases type with
  | OFF => exact ⟨_, rfl, fun h => absurd h (by simp)⟩
  | IDLE => exact ⟨_, rfl, fun h => absurd h (by simp)⟩
  | TSC =>
    obtain ⟨r, hr, hends⟩ := analyzeTrafficBurst_spec f v sse3 tsc threshold amp toa hmax hburst
    rw [← hs] at hr
    refine ⟨_, ?_, reported_of_ends hends (Or.inl rfl) (by decide)⟩
    simp only [detectAnyBurst, hr, Option.map_some, Option.bind_eq_bind, Option.bind_some]
  | EXT_RACH =>
    obtain ⟨r, hr, hends⟩ := searchRACH_spec f v sse3 hmax hburst threshold (List.range 3)
      (fun i hi => List.mem_range.mp hi) ⟨0, amp, toa⟩ (Or.inl le_rfl)
    rw [← hs] at hr
    refine ⟨_, ?_, reported_of_ends hends (Or.inl rfl) (by decide)⟩
    simp only [detectAnyBurst, detectRACHBurst, decide_true, if_true, hr, Option.map_some,
      Option.bind_eq_bind, Option.bind_some]
  | RACH =>
    obtain ⟨r, hr, hends⟩ := searchRACH_spec f v sse3 hmax hburst threshold (List.range 1)
      (fun i hi => (List.mem_range.mp hi).trans (by norm_num)) ⟨0, amp, toa⟩ (Or.inl le_rfl)
    rw [← hs] at hr
    refine ⟨_, ?_, reported_of_ends hends (Or.inl rfl) (by decide)⟩
    simp only [detectAnyBurst, detectRACHBurst, reduceCtorEq, decide_false, Bool.false_eq_true,
      if_false, hr, Option.map_some, Option.bind_eq_bind, Option.bind_some]
  | EDGE =>
    obtain ⟨r, hr, hends⟩ := detectEdgeBurst_spec f v sse3 tsc threshold amp toa hmax hburst
    obtain ⟨r₁, hr₁, hends₁⟩ :=
      analyzeTrafficBurst_spec f v sse3 tsc threshold r.amp r.toa hmax hburst
    rw [← hs] at hr hr₁
    by_cases hrc : r.rc > 0
    · refine ⟨_, ?_, reported_of_ends hends (Or.inl rfl) (by decide)⟩
      simp only [detectAnyBurst, hr, if_pos hrc, Option.bind_eq_bind, Option.bind_some]
    · refine ⟨_, ?_, reported_of_ends hends₁ (Or.inr ⟨rfl, rfl⟩) (by decide)⟩
      simp only [detectAnyBurst, hr, if_neg hrc, hr₁, Option.map_some, Option.bind_eq_bind,
        Option.bind_some]

end Search

/-! ## Compensating the delay -/

section Delay

variable (f : FloatValues K) (v : ReceiveValues K) (sse3 : Bool)

/-- A delay by a multiple of 1/512: its whole and its fraction are computed without an error of
rounding, the fraction selects one of the 64 filters or is taken for zero, and the samples that this
filter gives are moved by the whole. -/
theorem delayVector_place {n : ℤ} (hn : -2 ^ 26 < n ∧ n < 2 ^ 26) {burst : SignalVector K}
    (hburst : 10 ≤ burst.size) (hfew : burst.size ≤ 2 ^ 29) : ∃ shift y,
      (if n % 512 ≤ 5 then burst.copy
        else convolve (setup f v (convolveInit sse3)).cpu (setup f v (convolveInit sse3)).mem burst
          ((setup f v (convolveInit sse3)).delayFilters (n % 512 / 8).toNat) none .NO_DELAY 0 0) =
        some shift ∧
      delayVector (setup f v (convolveInit sse3)).cpu (setup f v (convolveInit sse3)).mem
        (setup f v (convolveInit sse3)).delayFilters burst none ((n : ℚ) / 512) = some (some y) ∧
      y.size = burst.size ∧ y.real = shift.real ∧
      ∀ i : ℤ, 0 ≤ i → i < burst.size → y.sample i = delayed shift (n / 512) i := by
  set s := setup f v (convolveInit sse3) with hs
  have hfloor : ⌊(n : ℚ) / 512⌋ = n / 512 := by
    have := Rat.floor_intCast_div_natCast n 512
    exact_mod_cast this
  have hwhole : floorInt ((n : ℚ) / 512) = some (n / 512) := by
    rw [floorInt, hfloor, if_pos (by omega)]
  have hfloat : roundFloat ((n / 512 : ℤ) : ℚ) = (n / 512 : ℤ) := roundFloat_intCast (by omega)
  have hdiv : (n : ℚ) = 512 * (n / 512 : ℤ) + (n % 512 : ℤ) := by
    exact_mod_cast (Int.mul_ediv_add_emod n 512).symm
  have hmod : 0 ≤ n % 512 ∧ n % 512 < 512 :=
    ⟨Int.emod_nonneg n (by norm_num), Int.emod_lt_of_pos n (by norm_num)⟩
  have hfrac : roundFloat ((n : ℚ) / 512 - (n / 512 : ℤ)) = ((n % 512 : ℤ) : ℚ) / 512 := by
    rw [← roundFloat_place (k := n % 512) (abs_lt.mpr ⟨by omega, by omega⟩)]
    congr 1
    linarith
  have hindex : ⌊((n % 512 : ℤ) : ℚ) / 512 * DELAYFILTS⌋ = n % 512 / 8 := by
    have hscale : ((n % 512 : ℤ) : ℚ) / 512 * DELAYFILTS = ((n % 512 : ℤ) : ℚ) / (8 : ℕ) := by
      rw [DELAYFILTS]
      push_cast
      ring
    rw [hscale, Rat.floor_intCast_div_natCast]
    rfl
  have hcond : |((n % 512 : ℤ) : ℚ) / 512| > 1 / 100 ↔ ¬ n % 512 ≤ 5 := by
    have h0' : (0 : ℚ) ≤ (n % 512 : ℤ) := by exact_mod_cast hmod.1
    rw [abs_of_nonneg (by positivity), not_le]
    constructor
    · intro h
      have h5 : (5 : ℚ) < (n % 512 : ℤ) := by linarith
      exact_mod_cast h5
    · intro h
      have h6 : (6 : ℚ) ≤ (n % 512 : ℤ) := by exact_mod_cast h
      linarith
  obtain ⟨shift, hshift, hsize⟩ : ∃ shift, (if n % 512 ≤ 5 then burst.copy
      else convolve s.cpu s.mem burst (s.delayFilters (n % 512 / 8).toNat) none .NO_DELAY 0 0) =
      some shift ∧ shift.size = burst.size := by
    split_ifs with hsmall
    · exact ⟨_, copy_eq_some (by omega), rfl⟩
    · have hfits : FitsInt burst (s.delayFilters (n % 512 / 8).toNat) none .NO_DELAY 0 0 :=
        .fresh (show burst.size + 20 ≤ 2 ^ 30 by omega) (by decide)
      obtain ⟨shift, hshift, hsize, -⟩ := convolve_within sse3 s.mem (x := burst) (y := none)
        (show 1 ≤ (s.delayFilters (n % 512 / 8).toNat).size from (by norm_num : 1 ≤ 20)) hfits
        (show Span.of burst (s.delayFilters (n % 512 / 8).toNat) 0 0 .NO_DELAY = _ from rfl)
        (show 1 ≤ burst.size by omega) (fun z hz => by cases hz)
        (show 20 ≤ burst.size + 20 / 2 by omega)
      exact ⟨shift, hshift, hsize⟩
  obtain ⟨y, hy, hysize, -, hsample⟩ := shiftWhole_spec shift (show -2 ^ 31 < n / 512 by omega)
  refine ⟨shift, y, hshift, ?_, hysize.trans hsize, shiftWhole_real hy,
    fun i hi0 hi => hsample i hi0 (by omega)⟩
  rw [delayVector, hwhole]
  simp only [hfloat, hfrac, hcond, hindex]
  by_cases hsmall : n % 512 ≤ 5
  · rw [if_pos hsmall] at hshift
    rw [if_neg (not_not.mpr hsmall)]
    simp only [hshift, Option.bind_eq_bind, Option.bind_some, Option.map_some, hy, Option.elim_none]
  · rw [if_neg hsmall] at hshift
    rw [if_pos hsmall, if_pos ⟨by omega, by rw [DELAYFILTS]; omega, by omega⟩]
    simp only [hshift, Option.bind_eq_bind, Option.bind_some, Option.map_some, hy, Option.elim_none]

omit [Field K] [LinearOrder K] in
/-- The delay of a burst that has been found is passed on exactly. -/
theorem Arrives.delay {max_toa : ℤ} {r : Detection K} (hr : Arrives max_toa r)
    (hmax : MaxSearch max_toa) {sps : ℕ} (hsps : sps = 1 ∨ sps = 4) :
    ∃ n : ℤ, (-2 ^ 26 < n ∧ n < 2 ^ 26) ∧ -r.toa * sps = (n : ℚ) / 512 ∧
      roundFloat (-r.toa * sps) = (n : ℚ) / 512 := by
  obtain ⟨k, hk, hlow, hhigh⟩ := hr
  obtain ⟨h0, h14⟩ := hmax
  set n := -(k * sps) with hn
  have hn26 : -2 ^ 26 < n ∧ n < 2 ^ 26 := by
    rcases hsps with rfl | rfl <;> omega
  have hexact : -r.toa * sps = (n : ℚ) / 512 := by
    rw [hk, hn]
    push_cast
    ring
  refine ⟨n, hn26, hexact, ?_⟩
  rw [hexact]
  rcases hsps with rfl | rfl
  · exact roundFloat_place (abs_lt.mpr ⟨by omega, by omega⟩)
  · -- four times a multiple of 1/512 is one of 1/128
    have hk24 : |-k| < 2 ^ 24 := abs_lt.mpr ⟨by omega, by omega⟩
    have hround := roundFloat_dyadic (k := 7) (by norm_num) hk24
    rw [show (n : ℚ) / 512 = ((-k : ℤ) : ℚ) / 2 ^ 7 by rw [hn]; push_cast; ring, hround]

/-- **The delay of a burst that has been found can be compensated**, at one and at 4 samples a
symbol: the delay is passed on exactly, and the filter for its fraction is one of the table. -/
theorem delayVector_detected {max_toa : ℤ} {r : Detection K} (hr : Arrives max_toa r)
    (hmax : MaxSearch max_toa) {sps : ℕ} (hsps : sps = 1 ∨ sps = 4) {burst : SignalVector K}
    (hburst : 10 ≤ burst.size) (hfew : burst.size ≤ 2 ^ 29) :
    ∃ n : ℤ, -r.toa * sps = n / 512 ∧ n % 512 / 8 < DELAYFILTS ∧ ∃ shift y,
      (if n % 512 ≤ 5 then burst.copy
        else convolve (setup f v (convolveInit sse3)).cpu (setup f v (convolveInit sse3)).mem burst
          ((setup f v (convolveInit sse3)).delayFilters (n % 512 / 8).toNat) none .NO_DELAY 0 0) =
        some shift ∧
      delayVector (setup f v (convolveInit sse3)).cpu (setup f v (convolveInit sse3)).mem
        (setup f v (convolveInit sse3)).delayFilters burst none (roundFloat (-r.toa * sps)) =
          some (some y) ∧
      y.size = burst.size ∧
      ∀ i : ℤ, 0 ≤ i → i < burst.size → y.sample i = delayed shift (n / 512) i := by
  obtain ⟨n, hn26, hexact, hdelay⟩ := hr.delay hmax hsps
  obtain ⟨shift, y, hshift, hy, hsize, -, hsample⟩ := delayVector_place f v sse3 hn26 hburst hfew
  exact ⟨n, hexact, by rw [DELAYFILTS]; omega, shift, y, hshift, by rw [hdelay]; exact hy, hsize,
    hsample⟩

/-- Delay filters that average twenty samples. -/
def averagingFilters : ReceiveValues ℚ := { noReceiveValues with delayTaps := fun _ _ => 1 / 20 }

/-- A burst that is `321 / 128` symbols late, at 4 samples a symbol: its samples are averaged, and
the eleventh comes first. -/
theorem delayVector_detected_late :
    let s := setup noRationals averagingFilters (convolveInit true)
    let burst : SignalVector ℚ := ⟨fun j => j, 625, 0, false, false⟩
    ∃ y, delayVector s.cpu s.mem s.delayFilters burst none
        (roundFloat (-(⟨1, (1, 0), 321 / 128⟩ : Detection ℚ).toa * (4 : ℕ))) = some (some y) ∧
      y.size = 625 ∧ y.sample 0 = (23, 24) ∧ y.sample 620 = (0, 0) := by
  intro s burst
  have harrives : Arrives 63 (⟨1, (1, 0), 321 / 128⟩ : Detection ℚ) :=
    ⟨1284, by norm_num, by norm_num, by norm_num⟩
  have hwhole : 10 ≤ burst.size := by decide
  have hfew : burst.size ≤ 2 ^ 29 := by decide
  obtain ⟨n, hn, -, shift, y, hshift, hy, hsize, hsample⟩ := delayVector_detected noRationals
    averagingFilters true harrives (show MaxSearch 63 by constructor <;> norm_num) (Or.inr rfl)
    hwhole hfew
  have hn : n = -5136 := by
    have hq : (n : ℚ) = -5136 := by
      have h512 : (n : ℚ) / 512 = -(321 / 128) * 4 := by
        rw [← hn]
        norm_num
      linarith
    exact_mod_cast hq
  subst hn
  have hfits : FitsInt burst (s.delayFilters 62) none .NO_DELAY 0 0 :=
    .fresh (by decide) (by decide)
  obtain ⟨filtered, hfiltered, hfsize, hinto⟩ := convolve_within true s.mem (x := burst) (y := none)
    (h := s.delayFilters 62) (by decide) hfits rfl (by decide)
    (fun z hz => (Option.some_ne_none z hz.symm).elim) (by decide)
  have hfraction : (-5136 : ℤ) % 512 = 496 := by norm_num
  have hindex : ((496 : ℤ) / 8).toNat = 62 := by decide
  rw [hfraction, if_neg (by norm_num), hindex] at hshift
  obtain rfl : filtered = shift := Option.some.inj (hfiltered.symm.trans hshift)
  have hfsize : filtered.size = 625 := hfsize
  have hwhole : (-5136 : ℤ) / 512 = -11 := by norm_num
  refine ⟨y, hy, hsize, ?_, ?_⟩
  · rw [hsample 0 le_rfl (by decide), hwhole, delayed, if_pos (by omega)]
    exact (hinto.sample_eq 11 (by decide)).trans (by decide +kernel)
  · rw [hsample 620 (by decide) (by decide), hwhole, delayed, if_neg (by omega)]

end Delay

end Receiver

end Trx
end OsmoTrx
