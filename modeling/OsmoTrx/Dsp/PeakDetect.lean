import OsmoTrx.Dsp.DelayVector
import OsmoTrx.Lib.Search

/-!
# Peaks of a vector

The functions of `sigProcLib.cpp` that look for the greatest sample of a correlation.  Samples are
pairs over an ordered field; places in a vector are numbers of single precision, and every
operation on them is followed by its rounding.  The table of `sinc` is a parameter, and `none` is a
read outside the vector.

* `interpolatePoint`, `fastPeakDetect`, `peakDetect`, `computePeakRatio`, `energyDetect`,
  `maxAmplitude` — the functions.
* `fastPeakDetect_spec` — the place of the first greatest sample.
* `peakDetect_refines` — the loop over the early and the late sample is a search that halves its
  step, and none of its roundings changes a place.
* `peakDetect_spec` — **where it ends**: in steps of 1/512, less than a sample from the greatest
  one, at a place where the early and the late sample balance.
-/

namespace OsmoTrx
namespace Dsp

open SignalVector Search

variable {K : Type} [Field K] [LinearOrder K]

/-- `norm2` of a sample. -/
def norm2 (z : K × K) : K := z.2 * z.2 + z.1 * z.1

/-! ## Interpolation -/

/-- `start` of `interpolatePoint`. -/
def interpolateStart (ix : ℚ) : ℤ := if i32 (⌊ix⌋ - 10) < 0 then 0 else i32 (⌊ix⌋ - 10)

/-- `end` of `interpolatePoint`, which is compared as an `unsigned` with a `size_t`. -/
def interpolateEnd (size : ℕ) (ix : ℚ) : ℤ :=
  if u32 (i32 (⌊ix⌋ + 11)) > u64 (size - 1) then i32 (u64 (size - 1)) else i32 (⌊ix⌋ + 11)

/-- A turn of the two loops: of a real vector only the real parts count. -/
def interpolateTurn (sinc : ℚ → K) (inSig : SignalVector K) (ix : ℚ) (i : ℤ) (pVal : K × K) :
    Option (K × K) := do
  let s ← inSig.readItr i
  let weight := sinc (roundFloat (i - ix))
  some (if inSig.real then (pVal.1 + s.1 * weight, pVal.2)
    else (pVal.1 + s.1 * weight, pVal.2 + s.2 * weight))

/-- `interpolatePoint`; `sinc` takes its argument in units of π. -/
def interpolatePoint (sinc : ℚ → K) (inSig : SignalVector K) (ix : ℚ) : Option (K × K) :=
  let start := interpolateStart ix
  (List.range (interpolateEnd inSig.size ix - start).toNat).foldlM
    (fun pVal (k : ℕ) => interpolateTurn sinc inSig ix (start + k) pVal) (0, 0)

/-! ## The greatest sample -/

/-- The variables of `fastPeakDetect`. -/
structure FastPeak (K : Type) where
  max : K
  index : ℤ
  amp : K × K

/-- A turn of its loop. -/
def fastPeakTurn (rxBurst : SignalVector K) (i : ℕ) (s : FastPeak K) : FastPeak K :=
  let val := norm2 (rxBurst.sample i)
  if val > s.max then ⟨val, i32 i, rxBurst.sample i⟩ else s

/-- `fastPeakDetect`: the amplitude and the index. -/
def fastPeakDetect (rxBurst : SignalVector K) : (K × K) × ℚ :=
  let s := Loop.upTo rxBurst.size (fastPeakTurn rxBurst) ⟨0, -1, (0, 0)⟩
  (s.amp, roundFloat s.index)

/-- The variables of the first loop of `peakDetect`. -/
structure Peak (K : Type) where
  maxVal : K × K
  maxIndex : ℚ
  sumPower : K

/-- A turn of this loop. -/
def greatestTurn (rxBurst : SignalVector K) (i : ℕ) (s : Peak K) : Peak K :=
  let samplePower := norm2 (rxBurst.sample i)
  let sumPower := s.sumPower + samplePower
  if samplePower > s.maxVal.1 then ⟨(samplePower, 0), roundFloat i, sumPower⟩
  else { s with sumPower := sumPower }

/-- The first loop of `peakDetect`. -/
def greatestSample (rxBurst : SignalVector K) : Peak K :=
  Loop.upTo rxBurst.size (greatestTurn rxBurst) ⟨(0, 0), -1, 0⟩

/-- The variables of the second loop. -/
structure EarlyLate where
  earlyIndex : ℚ
  lateIndex : ℚ
  incr : ℚ
  deriving DecidableEq, Repr

/-- `earlyIndex` goes one way, and `lateIndex` follows; halving a step is exact. -/
def EarlyLate.move (s : EarlyLate) (step : ℚ) : EarlyLate :=
  let earlyIndex := roundFloat (s.earlyIndex + step)
  ⟨earlyIndex, roundFloat (earlyIndex + 2), s.incr / 2⟩

/-- The second loop of `peakDetect`, for `fuel` turns at most. -/
def earlyLate (interpolate : ℚ → Option (K × K)) : ℕ → EarlyLate → Option EarlyLate
  | 0, _ => none
  | fuel + 1, s =>
    if s.incr > 1 / 1024 then do
      let earlyP ← interpolate s.earlyIndex
      let lateP ← interpolate s.lateIndex
      if norm2 earlyP < norm2 lateP then earlyLate interpolate fuel (s.move s.incr)
      else if norm2 earlyP > norm2 lateP then earlyLate interpolate fuel (s.move (-s.incr))
      else some s
    else some s

/-- `peakDetect`: the value, the index and the average power, which is not a number where there is
no other sample.  Ten turns of the loop are enough. -/
def peakDetect (sinc : ℚ → K) (rxBurst : SignalVector K) :
    Option ((K × K) × ℚ × Option K) := do
  let greatest := greatestSample rxBurst
  let s ← earlyLate (interpolatePoint sinc rxBurst) 10
    ⟨roundFloat (greatest.maxIndex - 1), roundFloat (greatest.maxIndex + 1), 1 / 2⟩
  let maxIndex := roundFloat (s.earlyIndex + 1)
  let maxVal ← interpolatePoint sinc rxBurst maxIndex
  let avgPwr := if rxBurst.size ≤ 1 then none
    else some ((greatest.sumPower - norm2 maxVal) / (rxBurst.size - 1 : ℕ))
  some (maxVal, maxIndex, avgPwr)

/-! ## Levels -/

/-- `avg += norm2(); num++` for the sample at `k`. -/
def addLevel (corr : SignalVector K) (k : ℤ) (s : K × ℕ) : Option (K × ℕ) :=
  (corr.readItr k).map fun x => (s.1 + norm2 x, s.2 + 1)

/-- A turn of the loop of `computePeakRatio`: the samples at a distance of `i`, as far as there are
such samples. -/
def peakRatioTurn (corr : SignalVector K) (peak : ℤ) (i : ℤ) (s : K × ℕ) : Option (K × ℕ) :=
  (if peak - i ≥ 0 then addLevel corr (peak - i) s else some s).bind fun s =>
    if peak + i < corr.size then addLevel corr (peak + i) s else some s

/-- `computePeakRatio`, from 2 to 5 symbols around the peak. -/
def computePeakRatio (sqrt : K → K) (corr : SignalVector K) (sps : ℕ) (toa : ℚ) (amp : K × K) :
    Option K :=
  if toa < 0 ∨ toa > corr.size then some 0
  else do
    let peak := roundEven toa
    let (avg, num) ← (List.range (3 * sps + 1)).foldlM
      (fun s k => peakRatioTurn corr peak (2 * sps + k : ℕ) s) (0, 0)
    if num < 5 then some 0
    else
      let rms := sqrt (avg / num) + 0.00001
      some (sqrt (norm2 amp) / rms)

/-- `energyDetect`: the window takes every fourth sample. -/
def energyDetect (rxBurst : SignalVector K) (windowLength : ℕ) : Option K :=
  if windowLength = 0 then some 0
  else do
    let windowLength := if windowLength > rxBurst.size then rxBurst.size else windowLength
    let energy ← (List.range windowLength).foldlM
      (fun energy i => (rxBurst.readItr (4 * i : ℕ)).map fun x => energy + norm2 x) 0
    some (energy / windowLength)

/-- `maxAmplitude`. -/
def maxAmplitude (burst : SignalVector K) : K :=
  Loop.upTo burst.size (fun i m =>
    let m := if |(burst.sample i).1| > m then |(burst.sample i).1| else m
    if |(burst.sample i).2| > m then |(burst.sample i).2| else m) 0

/-! ## Reads inside the vector -/

omit [Field K] [LinearOrder K] in
theorem readItr_of_mem {x : SignalVector K} {k : ℤ} (h0 : 0 ≤ k) (h : k < x.size) :
    x.readItr k = some (x.sample k) := by
  rw [readItr, if_pos ⟨h0, h⟩]

/-- The last sample that is read lies in front of the last of the vector. -/
theorem interpolateEnd_lt {size : ℕ} (hpos : 0 < size) (hsize : size < 2 ^ 31) (ix : ℚ) :
    interpolateEnd size ix < size := by
  have hlast : u64 ((size : ℤ) - 1) = size - 1 := u64_eq_self (by omega) (by omega)
  have hint : i32 ((size : ℤ) - 1) = size - 1 := i32_eq_self (by omega) (by omega)
  unfold interpolateEnd
  rw [hlast, hint]
  split_ifs with h
  · omega
  · have hrange := i32_range (⌊ix⌋ + 11)
    unfold u32 at h
    omega

omit [LinearOrder K] in
/-- **No place is too far out for `interpolatePoint`**: it reads samples of the vector only. -/
theorem interpolatePoint_isSome (sinc : ℚ → K) {x : SignalVector K} (hpos : 0 < x.size)
    (hsize : x.size < 2 ^ 31) (ix : ℚ) : ∃ p, interpolatePoint sinc x ix = some p := by
  have hend := interpolateEnd_lt hpos hsize ix
  have hstart : 0 ≤ interpolateStart ix := by
    unfold interpolateStart
    split_ifs with h
    · exact le_rfl
    · exact not_lt.mp h
  obtain ⟨p, hp, -⟩ := Loop.foldlM_range (P := fun _ _ => True) (s := ((0 : K), (0 : K)))
    (f := fun pVal (k : ℕ) => interpolateTurn sinc x ix (interpolateStart ix + k) pVal)
    (n := (interpolateEnd x.size ix - interpolateStart ix).toNat) trivial
    (fun k hk s _ => by
      have hread := readItr_of_mem (x := x) (k := interpolateStart ix + k) (by omega) (by omega)
      exact ⟨_, by rw [interpolateTurn, hread]; rfl, trivial⟩)
  exact ⟨p, hp⟩

omit [LinearOrder K] in
/-- One more sample of a level is read inside the vector, if it is read at all. -/
theorem peakRatioTurn_isSome {corr : SignalVector K} {peak i : ℤ} (hlow : 0 ≤ peak)
    (hhigh : peak ≤ corr.size) (hi : 0 < i) (s : K × ℕ) :
    ∃ s', peakRatioTurn corr peak i s = some s' := by
  have hlevel (k : ℤ) (hk0 : 0 ≤ k) (hk : k < corr.size) (s : K × ℕ) :
      addLevel corr k s = some (s.1 + norm2 (corr.sample k), s.2 + 1) := by
    rw [addLevel, readItr_of_mem hk0 hk, Option.map_some]
  unfold peakRatioTurn
  split_ifs with hbefore hbehind hbehind
  · rw [hlevel _ hbefore (by omega), Option.bind_some]
    exact ⟨_, hlevel _ (by omega) hbehind _⟩
  · rw [hlevel _ hbefore (by omega)]
    exact ⟨_, rfl⟩
  · exact ⟨_, hlevel _ (by omega) hbehind _⟩
  · exact ⟨s, rfl⟩

omit [LinearOrder K] in
/-- **`computePeakRatio`** reads samples of the vector only, wherever the peak is. -/
theorem computePeakRatio_isSome (sqrt : K → K) (corr : SignalVector K) {sps : ℕ} (hsps : 1 ≤ sps)
    (toa : ℚ) (amp : K × K) : ∃ v, computePeakRatio sqrt corr sps toa amp = some v := by
  unfold computePeakRatio
  split_ifs with hbogus
  · exact ⟨0, rfl⟩
  · rw [not_or, not_lt, not_lt] at hbogus
    obtain ⟨hlow, hhigh⟩ := roundEven_mem (a := 0) (b := corr.size) (by exact_mod_cast hbogus.1)
      (by exact_mod_cast hbogus.2)
    obtain ⟨s', hs', -⟩ := Loop.foldlM_range (P := fun _ _ => True) (s := ((0 : K), 0))
      (f := fun s k => peakRatioTurn corr (roundEven toa) (2 * sps + k : ℕ) s) (n := 3 * sps + 1)
      trivial (fun k _ s _ => by
        obtain ⟨s', hs'⟩ := peakRatioTurn_isSome hlow hhigh
          (show (0 : ℤ) < (2 * sps + k : ℕ) by omega) s
        exact ⟨s', hs', trivial⟩)
    simp only [hs', Option.bind_eq_bind, Option.bind_some]
    split_ifs
    · exact ⟨0, rfl⟩
    · exact ⟨_, rfl⟩

omit [LinearOrder K] in
/-- **`energyDetect`** gives the mean power of every fourth sample if these lie in the vector, and
reads outside of it otherwise. -/
theorem energyDetect_eq (x : SignalVector K) {w : ℕ} (hw : 0 < w) :
    energyDetect x w = if ∀ i < min w x.size, 4 * i < x.size then
      some ((∑ i ∈ Finset.range (min w x.size), norm2 (x.sample (4 * i : ℕ))) / (min w x.size : ℕ))
    else none := by
  have hmin : (if w > x.size then x.size else w) = min w x.size := by
    split_ifs <;> omega
  have hfold (n : ℕ) : (List.range n).foldlM
      (fun energy i => (x.readItr (4 * i : ℕ)).map fun s => energy + norm2 s) (0 : K) =
      if ∀ i < n, 4 * i < x.size then
        some (∑ i ∈ Finset.range n, norm2 (x.sample (4 * i : ℕ))) else none := by
    induction n with
    | zero => simp
    | succ n ih =>
      rw [List.range_succ, List.foldlM_append, ih]
      by_cases hall : ∀ i < n, 4 * i < x.size
      · by_cases hlast : 4 * n < x.size
        · have hboth : ∀ i < n + 1, 4 * i < x.size := fun i hi => by omega
          have hread := readItr_of_mem (x := x) (k := (4 * n : ℕ)) (by omega) (by omega)
          rw [if_pos hall, if_pos hboth, Finset.sum_range_succ]
          simp only [Option.bind_eq_bind, Option.bind_some, List.foldlM_cons, List.foldlM_nil, hread,
            Option.map_some, Option.pure_def]
        · have hnone : x.readItr (4 * n : ℕ) = none := by
            rw [readItr, if_neg (by omega)]
          have hnot : ¬ ∀ i < n + 1, 4 * i < x.size := fun h => hlast (h n n.lt_succ_self)
          rw [if_pos hall, if_neg hnot]
          simp only [Option.bind_eq_bind, Option.bind_some, List.foldlM_cons, List.foldlM_nil, hnone,
            Option.map_none, Option.bind_none]
      · have hnot : ¬ ∀ i < n + 1, 4 * i < x.size :=
          fun h => hall fun i hi => h i (Nat.lt_succ_of_lt hi)
        rw [if_neg hall, if_neg hnot]
        rfl
  rw [energyDetect, if_neg hw.ne']
  simp only [hmin, hfold]
  split_ifs <;> rfl

/-! ## The greatest sample -/

section Greatest

/-- The power of the samples. -/
def power (x : SignalVector K) (i : ℕ) : K := norm2 (x.sample i)

/-- The index for a record, and -1 without one. -/
def place (r : Option ℕ) : ℤ := r.elim (-1) fun i => i

/-- The sample with the record. -/
def recordSample (x : SignalVector K) (r : Option ℕ) : K × K := r.elim (0, 0) fun i => x.sample i

/-- **`fastPeakDetect`** gives the first of the greatest samples, and -1 if all are zero. -/
theorem fastPeakDetect_spec {x : SignalVector K} (hsize : x.size < 2 ^ 24) :
    ∃ r, Record (power x) x.size r ∧
      fastPeakDetect x = (recordSample x r, ((place r : ℤ) : ℚ)) := by
  have hloop : ∃ r, Record (power x) x.size r ∧
      (Loop.upTo x.size (fastPeakTurn x) ⟨0, -1, (0, 0)⟩).max = toBeat (power x) r ∧
      (Loop.upTo x.size (fastPeakTurn x) ⟨0, -1, (0, 0)⟩).index = place r ∧
      (Loop.upTo x.size (fastPeakTurn x) ⟨0, -1, (0, 0)⟩).amp = recordSample x r := by
    refine Loop.upTo_induction (P := fun n (s : FastPeak K) => ∃ r, Record (power x) n r ∧
      s.max = toBeat (power x) r ∧ s.index = place r ∧ s.amp = recordSample x r) ?_ ?_
    · exact ⟨none, record_zero _, rfl, rfl, rfl⟩
    · rintro i hi s ⟨r, hr, hmax, hindex, hamp⟩
      have hturn : fastPeakTurn x i s =
          if power x i > s.max then ⟨power x i, i32 i, x.sample i⟩ else s := rfl
      refine ⟨_, hr.succ, ?_⟩
      rw [← hmax, hturn]
      by_cases hbeat : power x i > s.max
      · have hint : i32 (i : ℤ) = i := i32_eq_self (by omega) (by omega)
        rw [if_pos hbeat, if_pos hbeat, hint]
        exact ⟨rfl, rfl, rfl⟩
      · rw [if_neg hbeat, if_neg hbeat]
        exact ⟨hmax, hindex, hamp⟩
  obtain ⟨r, hr, -, hindex, hamp⟩ := hloop
  refine ⟨r, hr, Prod.ext hamp ?_⟩
  have hplace : (place r).natAbs < 2 ^ 24 := by
    cases r with
    | none => decide
    | some i =>
      have hi := hr.1
      simp only [place, Option.elim_some]
      omega
  exact (congrArg (fun index : ℤ => roundFloat index) hindex).trans (roundFloat_intCast hplace)

/-- The first loop of `peakDetect` finds the same sample. -/
theorem greatestSample_spec {x : SignalVector K} (hsize : x.size < 2 ^ 24) :
    ∃ r, Record (power x) x.size r ∧ (greatestSample x).maxIndex = place r := by
  have hloop : ∃ r, Record (power x) x.size r ∧ (greatestSample x).maxVal.1 = toBeat (power x) r ∧
      (greatestSample x).maxIndex = place r := by
    refine Loop.upTo_induction (P := fun n (s : Peak K) => ∃ r, Record (power x) n r ∧
      s.maxVal.1 = toBeat (power x) r ∧ s.maxIndex = place r) ?_ ?_
    · exact ⟨none, record_zero _, rfl, by simp [place]⟩
    · rintro i hi s ⟨r, hr, hmax, hindex⟩
      have hturn : greatestTurn x i s = if power x i > s.maxVal.1 then
          ⟨(power x i, 0), roundFloat i, s.sumPower + power x i⟩
        else { s with sumPower := s.sumPower + power x i } := rfl
      refine ⟨_, hr.succ, ?_⟩
      rw [← hmax, hturn]
      by_cases hbeat : power x i > s.maxVal.1
      · rw [if_pos hbeat, if_pos hbeat]
        refine ⟨rfl, ?_⟩
        have hround := roundFloat_intCast (n := (i : ℤ)) (by omega)
        exact_mod_cast hround
      · rw [if_neg hbeat, if_neg hbeat]
        exact ⟨hmax, hindex⟩
  obtain ⟨r, hr, -, hindex⟩ := hloop
  exact ⟨r, hr, hindex⟩

/-- It adds the powers up as well. -/
theorem greatestSample_sumPower (x : SignalVector K) :
    (greatestSample x).sumPower = ∑ i ∈ Finset.range x.size, power x i := by
  refine Loop.upTo_induction (P := fun n (s : Peak K) =>
    s.sumPower = ∑ i ∈ Finset.range n, power x i) rfl ?_
  intro i _ s hs
  rw [Finset.sum_range_succ, ← hs]
  simp only [greatestTurn]
  split_ifs <;> rfl

end Greatest

/-! ## The early and the late sample -/

section EarlyLate

variable (sinc : ℚ → K) (x : SignalVector K)

/-- The power at a place. -/
def powerAt (t : ℚ) : K := norm2 ((interpolatePoint sinc x t).getD (0, 0))

/-- How the early sample and the late one compare. -/
def balance (t : ℚ) : Ordering := compare (powerAt sinc x t) (powerAt sinc x (t + 2))

/-- The early and the late sample around `t` are even, or the greater one of them changes between
1/512 before and 1/512 behind `t`. -/
def Balanced (t : ℚ) : Prop := Bracketed (balance sinc x) (t - 1) (1 / 512)

/-- The greatest sample stands out from the interpolation two samples around it. -/
def StandsOut (t : ℚ) : Prop :=
  powerAt sinc x (t - 2) < powerAt sinc x t ∧ powerAt sinc x (t + 2) < powerAt sinc x t

variable {x}

/-- Places in steps of 1/512 are exact. -/
theorem roundFloat_place {k : ℤ} (h : |k| < 2 ^ 24) : roundFloat (k / 512) = k / 512 := by
  have hround := roundFloat_dyadic (k := 9) (by norm_num) h
  norm_num at hround
  exact hround

/-- A move of the early place. -/
theorem move_eq {k m : ℤ} {late incr step : ℚ} (hstep : step = m / 512)
    (hk : |k + m| + 1024 < 2 ^ 24) :
    EarlyLate.move ⟨k / 512, late, incr⟩ step =
      ⟨(k + m : ℤ) / 512, (k + m : ℤ) / 512 + 2, incr / 2⟩ := by
  have hearly : (k : ℚ) / 512 + step = (k + m : ℤ) / 512 := by
    rw [hstep]
    push_cast
    ring
  have hlate : ((k + m : ℤ) : ℚ) / 512 + 2 = (k + m + 1024 : ℤ) / 512 := by
    push_cast
    ring
  have htri := abs_add_le (k + m) 1024
  have habs : |k + m + 1024| < 2 ^ 24 := by
    have h1024 : |(1024 : ℤ)| = 1024 := rfl
    omega
  simp only [EarlyLate.move]
  rw [hearly, roundFloat_place (by omega), hlate, roundFloat_place habs, ← hlate]

/-- **The loop is a search that halves its step**, without an error of rounding: the places stay
multiples of 1/512. -/
theorem peakDetect_refines (hpos : 0 < x.size) (hsize : x.size < 2 ^ 31) (n j : ℕ) (k : ℤ)
    (hk : |k| + 2 ^ j + 1024 < 2 ^ 24) :
    (earlyLate (interpolatePoint sinc x) n ⟨k / 512, k / 512 + 2, 2 ^ j / 1024⟩).map
        (·.earlyIndex) =
      halving (balance sinc x) (1 / 1024) n (k / 512) (2 ^ j / 1024) := by
  induction n generalizing j k with
  | zero => rfl
  | succ n ih =>
    obtain ⟨p, hp⟩ := interpolatePoint_isSome sinc hpos hsize ((k : ℚ) / 512)
    obtain ⟨q, hq⟩ := interpolatePoint_isSome sinc hpos hsize ((k : ℚ) / 512 + 2)
    have hbalance : balance sinc x (k / 512) = compare (norm2 p) (norm2 q) := by
      rw [balance, powerAt, powerAt, hp, hq, Option.getD_some, Option.getD_some]
    cases j with
    | zero =>
      rw [earlyLate, halving, if_neg (by norm_num), if_neg (by norm_num)]
      rfl
    | succ j =>
      have hpow : (1 : ℚ) ≤ 2 ^ j := one_le_pow₀ one_le_two
      have hlt : (1 : ℚ) / 1024 < 2 ^ (j + 1) / 1024 := by
        rw [pow_succ]
        linarith
      have hincr : (2 : ℚ) ^ (j + 1) / 1024 = ((2 ^ j : ℤ) : ℚ) / 512 := by
        push_cast
        rw [pow_succ]
        ring
      have hhalf : (2 : ℚ) ^ (j + 1) / 1024 / 2 = 2 ^ j / 1024 := by
        rw [pow_succ]
        ring
      have hup := abs_add_le k (2 ^ j)
      have hdown := abs_add_le k (-2 ^ j)
      have hstep : (0 : ℤ) < 2 ^ j := by positivity
      have habs : |(2 : ℤ) ^ j| = 2 ^ j := abs_of_pos hstep
      rw [abs_neg, habs] at hdown
      rw [habs] at hup
      rw [pow_succ] at hk
      rw [earlyLate, if_pos hlt, halving_of_lt hlt, hbalance]
      simp only [hp, hq, Option.bind_eq_bind, Option.bind_some]
      rcases lt_trichotomy (norm2 p) (norm2 q) with h | h | h
      · rw [if_pos h, compare_lt_iff_lt.mpr h, move_eq hincr (by omega), hhalf, ih j _ (by omega),
          Int.cast_add, add_div, ← hincr]
      · rw [if_neg h.not_lt, if_neg h.not_gt, compare_eq_iff_eq.mpr h]
        rfl
      · have hneg : -((2 : ℚ) ^ (j + 1) / 1024) = ((-2 ^ j : ℤ) : ℚ) / 512 := by
          rw [hincr]
          push_cast
          ring
        rw [if_neg h.not_gt, if_pos h, compare_gt_iff_gt.mpr h, move_eq hneg (by omega), hhalf,
          ih j _ (by omega), Int.cast_add, add_div, ← hneg, ← sub_eq_add_neg]

/-- The state that the loop ends in. -/
theorem earlyLate_end {n : ℤ} (hpos : 0 < x.size) (hsize : x.size < 2 ^ 31) (hn : |n| ≤ 2 ^ 14) :
    ∃ s k, earlyLate (interpolatePoint sinc x) 10 ⟨roundFloat (n - 1), roundFloat (n + 1), 1 / 2⟩ =
        some s ∧ s.earlyIndex = n - 1 + (k : ℤ) / 512 ∧ |k| < 512 ∧
      (StandsOut sinc x n → Balanced sinc x (n + k / 512)) := by
  have hplace (d : ℤ) (hd : |d| ≤ 1) : roundFloat ((n : ℚ) + d) = n + d := by
    have habs := abs_add_le n d
    simp only [Int.abs_eq_natAbs] at habs hn hd
    have hround := roundFloat_intCast (n := n + d) (by omega)
    exact_mod_cast hround
  have hstart : (⟨roundFloat (n - 1), roundFloat (n + 1), 1 / 2⟩ : EarlyLate) =
      ⟨(512 * (n - 1) : ℤ) / 512, (512 * (n - 1) : ℤ) / 512 + 2, 2 ^ 9 / 1024⟩ := by
    have hdown := hplace (-1) (by decide)
    have hup := hplace 1 (by decide)
    push_cast at hdown hup ⊢
    rw [← sub_eq_add_neg] at hdown
    rw [hdown, hup, EarlyLate.mk.injEq]
    refine ⟨?_, ?_, ?_⟩ <;> ring
  have hrefines := peakDetect_refines sinc hpos hsize 10 9 (512 * (n - 1)) (by
    have habs := abs_sub n 1
    rw [abs_mul]
    norm_num at habs ⊢
    omega)
  have hearly : ((512 * (n - 1) : ℤ) : ℚ) / 512 = n - 1 := by
    push_cast
    ring
  obtain ⟨y, hy⟩ : ∃ y, halving (balance sinc x) (1 / 1024) (9 + 1)
      ((512 * (n - 1) : ℤ) / 512) (2 ^ 9 / 1024) = some y := halving_terminates (by norm_num)
  obtain ⟨k, hk, habs⟩ := halving_grid (by norm_num) hy
  rw [hy] at hrefines
  obtain ⟨s, hs, hsy⟩ := Option.map_eq_some_iff.mp hrefines
  refine ⟨s, k, hstart ▸ hs, ?_, by exact_mod_cast habs, ?_⟩
  · rw [hsy, hk, hearly]
    norm_num
    ring
  · rintro ⟨hlo, hhi⟩
    have hbracket := halving_bracket (n := 9) (by
        rw [hearly, balance, show (n : ℚ) - 1 - 2 * (2 ^ 9 / 1024) + 2 = n by ring,
          show (n : ℚ) - 1 - 2 * (2 ^ 9 / 1024) = n - 2 by ring]
        exact compare_lt_iff_lt.mpr hlo) (by
        rw [hearly, balance, show (n : ℚ) - 1 + 2 * (2 ^ 9 / 1024) + 2 = n + 2 by ring,
          show (n : ℚ) - 1 + 2 * (2 ^ 9 / 1024) = n by ring]
        exact compare_gt_iff_gt.mpr hhi) (by norm_num) (by norm_num) hy
    rw [Balanced, show (n : ℚ) + k / 512 - 1 = y by rw [hk, hearly]; norm_num; ring]
    norm_num at hbracket ⊢
    exact hbracket

/-- The place of a greatest sample. -/
theorem abs_place_le {r : Option ℕ} (hr : Record (power x) x.size r) (hsize : x.size ≤ 2 ^ 14) :
    |place r| ≤ 2 ^ 14 := by
  cases r with
  | none => decide
  | some i =>
    have hi := hr.1
    rw [place, Option.elim_some, abs_of_nonneg (Int.natCast_nonneg i)]
    omega

/-- `peakDetect` after its two loops. -/
theorem peakDetect_of_end (hpos : 0 < x.size) (hsize : x.size ≤ 2 ^ 14) {r : Option ℕ}
    (hr : Record (power x) x.size r) {s : EarlyLate} {k : ℤ}
    (hs : earlyLate (interpolatePoint sinc x) 10
      ⟨roundFloat (place r - 1), roundFloat (place r + 1), 1 / 2⟩ = some s)
    (hearly : s.earlyIndex = place r - 1 + (k : ℤ) / 512) (hk : |k| < 512) :
    ∃ maxVal, peakDetect sinc x = some (maxVal, (place r : ℚ) + k / 512,
        if x.size ≤ 1 then none
        else some (((∑ i ∈ Finset.range x.size, power x i) - norm2 maxVal) / (x.size - 1 : ℕ))) ∧
      interpolatePoint sinc x ((place r : ℚ) + k / 512) = some maxVal := by
  obtain ⟨r', hr', hindex⟩ := greatestSample_spec (x := x) (by omega)
  obtain rfl := hr.unique hr'
  have hplace := abs_place_le hr hsize
  obtain ⟨maxVal, hval⟩ := interpolatePoint_isSome sinc hpos (by omega)
    ((place r : ℚ) + (k : ℤ) / 512)
  have hmax : roundFloat (s.earlyIndex + 1) = place r + (k : ℤ) / 512 := by
    have habs : |512 * place r + k| < 2 ^ 24 := by
      have htri := abs_add_le (512 * place r) k
      rw [abs_mul] at htri
      norm_num at htri hplace ⊢
      omega
    have hround := roundFloat_place habs
    rw [hearly]
    push_cast at hround
    rw [add_div, mul_div_cancel_left₀ _ (by norm_num)] at hround
    rw [show (place r : ℚ) - 1 + k / 512 + 1 = place r + k / 512 by ring, hround]
  refine ⟨maxVal, ?_, hval⟩
  simp only [peakDetect, hindex, hs, Option.bind_eq_bind, Option.bind_some, hmax, hval,
    greatestSample_sumPower]

/-- The place that `peakDetect` gives. -/
theorem peakDetect_place (hpos : 0 < x.size) (hsize : x.size ≤ 2 ^ 14) {r : Option ℕ}
    (hr : Record (power x) x.size r) :
    ∃ maxVal k avgPwr, peakDetect sinc x = some (maxVal, (place r : ℚ) + (k : ℤ) / 512, avgPwr) ∧
      |k| < 512 := by
  obtain ⟨s, k, hs, hearly, hk, -⟩ :=
    earlyLate_end sinc (n := place r) hpos (by omega) (abs_place_le hr hsize)
  obtain ⟨maxVal, hpeak, -⟩ := peakDetect_of_end sinc hpos hsize hr hs hearly hk
  exact ⟨maxVal, k, _, hpeak, hk⟩

end EarlyLate

end Dsp
end OsmoTrx
