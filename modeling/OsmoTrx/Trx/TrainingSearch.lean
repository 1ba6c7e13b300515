import OsmoTrx.Trx.Demodulation

/-!
# A training sequence that is found

What the searches of `sigProcLib.cpp` report is where the samples say it is.  Here the other way
round: a normal burst whose training sequence gives a lone peak is reported.

* `setup_gMidambles_tap` — the filter that the set-up has made, tap by tap.
* `LonePeak`, `computePeakRatio_lone` — a correlation with a peak and nothing around it.
* `detectBurst_found`, `detectAnyBurst_found` — **it is found**, if the peak is as high as the
  threshold asks for.
-/

namespace OsmoTrx
namespace Trx

open Dsp GSM SignalVector Search Receiver

variable {K : Type} [Field K] [LinearOrder K]

/-! ## The filter of a midamble -/

section Filter

omit [LinearOrder K] in
/-- A new output holds complex numbers. -/
theorem convolve_real {c : ConvolveCpuContext K} {mem : ℤ → K} {x h y : SignalVector K}
    {spanType : ConvType} {start len : ℕ}
    (hy : convolve c mem x h none spanType start len = some y) : y.real = false := by
  simp only [convolve] at hy
  split at hy
  · cases hy
  · split at hy
    · cases hy
    · split at hy
      · cases hy
      · split_ifs at hy
        obtain rfl := Option.some.inj hy
        rfl

omit [LinearOrder K] in
theorem rotateBurst_real {s : SigProcLib K} {bits : List UInt8} {guard : ℤ} {sps : ℕ}
    {x : SignalVector K} (hx : s.rotateBurst bits guard sps = some (some x)) : x.real = false := by
  simp only [SigProcLib.rotateBurst] at hx
  split_ifs at hx
  · cases hx
  · obtain ⟨_, -, hx⟩ := Option.bind_eq_some_iff.mp hx
    obtain ⟨_, -, hx⟩ := Option.bind_eq_some_iff.mp hx
    exact convolve_real (Option.some.inj hx)

omit [LinearOrder K] in
theorem sample_conjugateVector {x : SignalVector K} (hreal : x.real = false) {i : ℕ}
    (hi : i < x.size) : (conjugateVector x).sample i = ((x.sample i).1, -(x.sample i).2) := by
  rw [conjugateVector, if_neg (by simp [hreal])]
  exact sample_map x (fun _ s => (s.1, -s.2)) hi

omit [LinearOrder K] in
/-- The taps of an aligned copy are the samples. -/
theorem tap_alignedCopy (mem : ℤ → K) {x : SignalVector K} {i : ℕ} (hi : i < x.size) :
    (alignedCopy mem x).tap i = x.sample i := by
  have hre : 0 ≤ 2 * (i : ℤ) ∧ 2 * (i : ℤ) < 2 * (x.size : ℤ) := by omega
  have him : 0 ≤ 2 * (i : ℤ) + 1 ∧ 2 * (i : ℤ) + 1 < 2 * (x.size : ℤ) := by omega
  simp only [tap, tapOf, alignedCopy, Bool.false_eq_true, if_false, Loop.loadPair, if_pos hre,
    if_pos him, sample]

/-- Tap `k` of the filter of a midamble: the middle of the training sequence, turned by the symbol,
negated and conjugated. -/
def midambleTap (f : FloatValues K) (tsc k : ℕ) : K × K :=
  let s := cmul (Loop.loadPair f.GMSKRotation1 (2 * k))
    (SigProcLib.symbol ((segment (gTrainingSequence.getD tsc []) 5 16).getD k 0))
  (-s.1, s.2)

theorem correlate_sequence {s : SigProcLib K} {sinc : ℚ → K} {filter arrived : SignalVector K}
    {sps : ℕ} {inTime : ℚ} {c : CorrelationSequence K}
    (h : s.correlate sinc filter arrived sps inTime = some (some c)) :
    c.sequence = alignedCopy s.mem (conjugateVector filter) := by
  simp only [SigProcLib.correlate] at h
  split at h
  · cases h
  · obtain ⟨_, -, h⟩ := Option.bind_eq_some_iff.mp h
    obtain rfl := Option.some.inj (Option.some.inj h)
    rfl

/-- The filter that the set-up makes. -/
theorem setup_gMidambles_tap (f : FloatValues K) (v : ReceiveValues K) (sse3 : Bool) {tsc : ℕ}
    (h7 : tsc ≤ 7) {c : CorrelationSequence K}
    (hc : (setup f v (convolveInit sse3)).gMidambles tsc = some c) {k : ℕ} (hk : k < 16) :
    c.sequence.tap k = midambleTap f tsc k := by
  set bits := segment (gTrainingSequence.getD tsc []) 5 16 with hsegment
  have hlen : bits.length = 16 := SigProcLib.length_midMidamble h7
  have hc' : (sigProcLibSetup f (convolveInit sse3)).generateMidamble v.sinc 1 tsc =
      some (some c) := Option.join_eq_some_iff.mp hc
  rw [SigProcLib.generateMidamble, if_neg (by omega)] at hc'
  obtain ⟨midMidamble, hfilter, hc'⟩ := Option.bind_eq_some_iff.mp hc'
  obtain ⟨arrived, -, hc'⟩ := Option.bind_eq_some_iff.mp hc'
  rw [Int.toNat_natCast, ← hsegment, SigProcLib.modulateBurst, if_pos rfl] at hfilter
  obtain ⟨filter, hy, hfsize⟩ := SigProcLib.rotateBurst_makes f (convolveInit sse3)
    (show 1 ≤ bits.length by omega) (by omega)
  rw [hfilter, Option.some_inj] at hy
  subst hy
  cases arrived with
  | none => cases hc'
  | some arrived =>
    have hreal := rotateBurst_real hfilter
    have hkf : k < filter.size := by omega
    have hreal' : (scaleVector filter (-1, 0)).real = false := hreal
    have hsize' : (scaleVector filter (-1, 0)).size = filter.size := by simp
    have hbit : bits.getD k 0 = bits[k] := by
      rw [List.getD_eq_getElem?_getD, List.getElem?_eq_getElem, Option.getD_some]
    rw [correlate_sequence hc', tap_alignedCopy _ (by rw [conjugateVector_size, hsize']; exact hkf),
      sample_conjugateVector hreal' (by omega), sample_scaleVector hreal _ hkf,
      rotateBurst_sample f sse3 (by omega) (by omega) hfilter (show k < bits.length by omega),
      midambleTap, ← hsegment, hbit]
    simp [cmul]

end Filter

/-! ## A lone peak -/

section Peak

/-- Sample `i` of a correlation from `start` on. -/
def correlation (burst : SignalVector K) (taps : ℕ → K × K) (start i : ℕ) : K × K :=
  ∑ k ∈ Finset.range 16, cmul (burst.sample ((i + start : ℕ) - 15 + k)) (taps k)

omit [LinearOrder K] in
/-- The ratio of a peak with nothing around it. -/
theorem computePeakRatio_lone (sqrt : K → K) {corr : SignalVector K} {i : ℕ} (hlow : 5 ≤ i)
    (hhigh : i + 5 < corr.size)
    (hlone : ∀ j < corr.size, j + 2 ≤ i ∧ i ≤ j + 5 ∨ i + 2 ≤ j ∧ j ≤ i + 5 →
      corr.sample j = (0, 0)) (amp : K × K) :
    computePeakRatio sqrt corr 1 i amp = some (sqrt (norm2 amp) / (sqrt 0 + 0.00001)) := by
  have hturn (d : ℕ) (h2 : 2 ≤ d) (h5 : d ≤ 5) (num : ℕ) :
      peakRatioTurn corr i d ((0 : K), num) = some (0, num + 2) := by
    have hbefore : corr.sample ((i : ℤ) - d) = (0, 0) := by
      have := hlone (i - d) (by omega) (by omega)
      rwa [Nat.cast_sub (by omega)] at this
    have hafter : corr.sample ((i : ℤ) + d) = (0, 0) := by
      have := hlone (i + d) (by omega) (by omega)
      rwa [Nat.cast_add] at this
    have hzero : norm2 ((0 : K), (0 : K)) = 0 := by simp [norm2]
    rw [peakRatioTurn, if_pos (by omega), addLevel, readItr_of_mem (by omega) (by omega), hbefore,
      Option.map_some, Option.bind_some, if_pos (by omega), addLevel,
      readItr_of_mem (by omega) (by omega), hafter, Option.map_some, hzero]
    simp
  have hround : roundEven (i : ℚ) = i := by exact_mod_cast roundEven_intCast (i : ℤ)
  have hnear : ¬ ((i : ℚ) < 0 ∨ (i : ℚ) > corr.size) := by
    rw [not_or, not_lt, not_lt]
    exact ⟨by positivity, by exact_mod_cast (by omega : i ≤ corr.size)⟩
  have hloop : (List.range (3 * 1 + 1)).foldlM
      (fun s k => peakRatioTurn corr i (2 * 1 + k : ℕ) s) ((0 : K), 0) = some (0, 8) := by
    simp only [List.range_succ, List.range_zero, List.nil_append, List.cons_append,
      List.foldlM_cons, List.foldlM_nil, Option.bind_eq_bind, hturn, Option.bind_some,
      Nat.reduceMul, Nat.reduceAdd, Nat.reduceLeDiff, le_refl]
    rfl
  rw [computePeakRatio, if_neg hnear, hround]
  simp only [hloop, Option.bind_eq_bind, Option.bind_some]
  simp

/-- **A peak is reported** that is not at an edge and stands out. -/
theorem detectPeak_found (s : Receiver K) {sync : CorrelationSequence K} {corr : SignalVector K}
    {i : ℕ} (hpeak : Record (power corr) corr.size (some i)) (hlow : 3 ≤ i)
    (hhigh : i + 3 ≤ corr.size) (hmax : corr.size ≤ 2 ^ 14) {thresh ratio : K}
    (hratio : computePeakRatio s.sqrt corr 1 i (corr.sample i) = some ratio)
    (hle : thresh ≤ ratio) :
    ∃ r, s.detectPeak corr sync thresh corr.size = some r ∧ r.rc = 1 := by
  obtain ⟨r, hr, hfast⟩ := fastPeakDetect_spec (x := corr) (by omega)
  obtain rfl := hr.unique hpeak
  obtain ⟨maxVal, k, avgPwr, hpeakDetect, -⟩ := peakDetect_place s.sinc (by omega) (by omega) hpeak
  have hplace : ((place (some i) : ℤ) : ℚ) = i := rfl
  have hinside : ¬ ((i : ℚ) < 3 ∨ (i : ℚ) > (corr.size : ℤ) - 3) := by
    rw [not_or, not_lt, not_lt]
    exact ⟨by exact_mod_cast hlow, by
      have : (i : ℚ) + 3 ≤ corr.size := by exact_mod_cast hhigh
      push_cast
      linarith⟩
  have hsample : recordSample corr (some i) = corr.sample i := rfl
  simp only [detectPeak, hfast, hplace, hsample, roundFloat_edge hmax, if_neg hinside, hratio, hpeakDetect,
    if_neg (not_lt.mpr hle), Option.bind_eq_bind, Option.bind_some]
  exact ⟨_, rfl, rfl⟩

/-- A correlation with a peak and nothing around it. -/
structure LonePeak (corr : ℕ → K × K) (len i : ℕ) : Prop where
  first : 5 ≤ i
  last : i + 5 < len
  peak : Record (fun j => norm2 (corr j)) len (some i)
  lone : ∀ j < len, j + 2 ≤ i ∧ i ≤ j + 5 ∨ i + 2 ≤ j ∧ j ≤ i + 5 → corr j = (0, 0)

variable (f : FloatValues K) (v : ReceiveValues K) (sse3 : Bool)

/-- **A training sequence is found** at a lone peak of its correlation that is as high as the
threshold asks for. -/
theorem detectBurst_found {sync : CorrelationSequence K} (hsync : sync.Ready 16)
    {burst : SignalVector K} {start len i : ℕ} (hstart : 15 ≤ start)
    (hend : start + len ≤ burst.size) (hfew : burst.size ≤ 2 ^ 29) (hmax : len ≤ 2 ^ 14)
    {taps : ℕ → K × K} (htaps : ∀ k : ℕ, k < 16 → sync.sequence.tap k = taps k)
    (hpeak : LonePeak (correlation burst taps start) len i) {thresh : K}
    (hle : thresh ≤ v.sqrt (norm2 (correlation burst taps start i)) / (v.sqrt 0 + 0.00001))
    (amp : K × K) (toa : ℚ) :
    ∃ r, (setup f v (convolveInit sse3)).detectBurst burst (.new len) sync thresh 1 amp toa start
      len = some r ∧ r.rc = 1 := by
  set s := setup f v (convolveInit sse3) with hs
  obtain ⟨hfirst, hlast, hrecord, hlone⟩ := hpeak
  have hstart' : sizeT start = start := sizeT_natCast (by omega)
  have hlen' : sizeT len = len := sizeT_natCast (by omega)
  have hseq := hsync.size
  have hfits : FitsInt burst sync.sequence (some (.new len)) .CUSTOM start len := by
    refine ⟨by omega, fun z hz => ?_, fun _ => by omega⟩
    obtain rfl := Option.some.inj hz
    exact show len < 2 ^ 31 by omega
  obtain ⟨span, hspan⟩ := Span.exists_of burst sync.sequence start len
    (show ConvType.CUSTOM ≠ .UNDEFINED by decide)
  have hreach := Span.start_add_len_le hfits hspan
  have hcustom := Span.of_custom hfits hspan
  have hspanlen : span.len = len := by rw [hcustom]
  have hspanstart : span.start = start := by rw [hcustom]
  obtain ⟨corr, hcorr, hcsize, hinto⟩ := convolve_within sse3 s.mem (by omega) hfits hspan
    (by omega) (fun z hz => by cases hz; exact hspanlen.le) (by omega)
  have hcsize : corr.size = len := hcsize
  have hcorr : convolve s.cpu s.mem burst sync.sequence (some (.new len)) .CUSTOM start len =
      some corr := hcorr
  have hsample {j : ℕ} (hj : j < len) : corr.sample j = correlation burst taps start j := by
    rw [hinto.sample_eq j (by omega), hspanstart, hseq, correlation]
    refine Finset.sum_congr rfl fun k hk => ?_
    have hk16 := Finset.mem_range.mp hk
    have hplace : (j : ℤ) + start - ((16 : ℕ) - 1) + k = (j + start : ℕ) - 15 + k := by
      push_cast
      ring
    rw [hplace, extended, if_pos (by omega), htaps k hk16]
  have hpeak' : Record (power corr) corr.size (some i) := by
    obtain ⟨hi, hpos, hall, hbefore⟩ := hrecord
    rw [hcsize]
    refine ⟨hi, ?_, fun j hj => ?_, fun j hj => ?_⟩
    · rwa [power, hsample hi]
    · rw [power, power, hsample hi, hsample hj]
      exact hall j hj
    · rw [power, power, hsample hi, hsample (hj.trans hi)]
      exact hbefore j hj
  have hratio : computePeakRatio s.sqrt corr 1 i (corr.sample i) =
      some (s.sqrt (norm2 (corr.sample i)) / (s.sqrt 0 + 0.00001)) :=
    computePeakRatio_lone s.sqrt hfirst (by omega) (fun j hj hnear => by
      rw [hcsize] at hj
      rw [hsample hj]
      exact hlone j hj hnear) _
  obtain ⟨r, hr, hrc⟩ : ∃ r, s.detectPeak corr sync thresh corr.size = some r ∧ r.rc = 1 :=
    detectPeak_found s hpeak' (by omega) (by omega) (by omega) hratio (by
      rw [hsample hrecord.1]
      exact hle)
  rw [hcsize] at hr
  refine ⟨r, ?_, hrc⟩
  simp only [detectBurst, corrIn, if_neg (show ¬ 1 = 4 by decide), hstart', hlen', Option.bind_some,
    Option.bind_eq_bind, hcorr, hr]

/-- A normal burst is found with its training sequence. -/
theorem detectAnyBurst_found {tsc : ℕ} (h7 : tsc ≤ 7) {burst : SignalVector K} {max_toa : ℕ}
    (hmax : max_toa ≤ 2 ^ 14 - 16) (hend : 87 + max_toa ≤ burst.size) (hfew : burst.size ≤ 2 ^ 29)
    {i : ℕ} (hpeak : LonePeak (correlation burst (midambleTap f tsc) 75) (12 + max_toa) i)
    {thresh : K} (hle : thresh ≤ v.sqrt (norm2 (correlation burst (midambleTap f tsc) 75 i)) /
      (v.sqrt 0 + 0.00001)) (amp : K × K) (toa : ℚ) :
    ∃ r, (setup f v (convolveInit sse3)).detectAnyBurst burst tsc thresh 1 .TSC amp toa max_toa =
      some r ∧ r.rc = 1 := by
  obtain ⟨c, hc, hready⟩ := setup_gMidambles f v sse3 h7
  obtain ⟨hlen, hcorr⟩ := searchWindow_eq 82 (show (0 : ℤ) ≤ 6 by decide) (by decide)
    (show MaxSearch max_toa from ⟨by omega, by omega⟩)
  have hlen' : (Trx.analyzeTrafficBurst max_toa).len = (12 + max_toa : ℕ) := by
    push_cast
    exact hlen
  have hcorr' : (Trx.analyzeTrafficBurst max_toa).corrSize = 12 + max_toa := by
    have := hcorr
    rw [show searchWindow 82 6 max_toa = Trx.analyzeTrafficBurst max_toa from rfl] at this
    omega
  have hstart : (Trx.analyzeTrafficBurst max_toa).start = (75 : ℕ) := rfl
  obtain ⟨r, hr, hrc⟩ := detectBurst_found f v sse3 hready (by omega) (by omega) hfew
    (show 12 + max_toa ≤ 2 ^ 14 by omega) (fun k hk => setup_gMidambles_tap f v sse3 h7 hc hk)
    hpeak hle amp toa
  refine ⟨{ r with
    rc := CorrType.TSC.toInt
    toa := roundFloat (r.toa - (Trx.analyzeTrafficBurst max_toa).head) }, ?_, rfl⟩
  simp only [Receiver.detectAnyBurst, Receiver.analyzeTrafficBurst, if_neg (not_lt.mpr h7), hc,
    detectGeneralBurst, hlen', hcorr', hstart, hr, Option.bind_eq_bind, Option.bind_some,
    if_neg (show ¬ (1 ≠ 1 ∧ 1 ≠ 4) by decide), if_neg (not_lt.mpr (Int.natCast_nonneg _))]
  simp [hrc]

end Peak

end Trx
end OsmoTrx
