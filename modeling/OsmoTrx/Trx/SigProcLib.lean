import OsmoTrx.Dsp.SignalVector
import OsmoTrx.GSM.Sequences
import OsmoTrx.Trx.TransmitData

/-!
# Modulators and burst generators

The transmit half of `sigProcLib.cpp`: three modulators, and the generators of filler bursts.
Values that are computed in floating point are parameters.  A function returns `none` where the
source leaves a vector, and `some none` where it returns NULL.

* `modulateBurstLaurent`, `modulateBurstBasic`, `shapeEdgeBurst` — the modulators, with what they
  need of their arguments: `modulateBurstLaurent_iff`, `modulateBurstBasic_size`,
  `shapeEdgeBurst_size`.
* `genRandNormalBurst`, `genRandAccessBurst`, `generateEmptyBurst`, `generateDummyBurst`,
  `generateEdgeBurst` — the generators.
-/

namespace OsmoTrx
namespace Trx

open Dsp GSM SignalVector

variable {R : Type}

/-! ## Tables -/

/-- What is computed in floating point: the taps of the pulses, the rotations, the symbols of
8-PSK, and the contents of memory that is allocated for an output. -/
structure FloatValues (R : Type) where
  pulse1_c0 : ℤ → R
  pulse4_c0 : ℤ → R
  pulse4_c1 : ℤ → R
  GMSKRotation1 : ℤ → R
  GMSKRotation4 : ℤ → R
  edgeRotation : ℕ → R × R
  psk8_table : ℕ → R × R
  mem : ℤ → R

/-- `PulseSequence`; a pulse that is not made is NULL. -/
structure PulseSequence (R : Type) where
  c0 : SignalVector R
  c1 : Option (SignalVector R)
  empty : SignalVector R

/-- The static tables of the library. -/
structure SigProcLib (R : Type) extends FloatValues R where
  cpu : ConvolveCpuContext R
  GSMPulse1 : PulseSequence R
  GSMPulse4 : PulseSequence R
  GMSKRotation1Len : ℕ
  GMSKRotation4Len : ℕ

section Setup

variable [CommRing R]

/-- A pulse with its taps. -/
def pulseVector (taps : ℤ → R) (len : ℕ) : SignalVector R := ⟨taps, len, 0, true, true⟩

/-- `generateC1Pulse`: there is none but for 4 samples a symbol. -/
def generateC1Pulse (f : FloatValues R) (sps : ℕ) : Option (SignalVector R) :=
  match sps with
  | 4 => some (pulseVector f.pulse4_c1 8)
  | _ => none

/-- `generateGSMPulse` for one of its two numbers of samples a symbol. -/
def generateGSMPulse (f : FloatValues R) (sps : ℕ) : PulseSequence R :=
  let len := match sps with
    | 4 => 16
    | _ => 4
  { c0 := pulseVector (if sps = 4 then f.pulse4_c0 else f.pulse1_c0) len
    c1 := if sps = 4 then generateC1Pulse f sps else none
    empty := ⟨fun j => if j = 0 then 1 else 0, 1, 0, true, false⟩ }

/-- `sigProcLibSetup`, as far as transmitting goes. -/
def sigProcLibSetup (f : FloatValues R) (cpu : ConvolveCpuContext R) : SigProcLib R where
  toFloatValues := f
  cpu := cpu
  GSMPulse1 := generateGSMPulse f 1
  GSMPulse4 := generateGSMPulse f 4
  GMSKRotation1Len := 157
  GMSKRotation4Len := 625

end Setup

/-- No values at all. -/
def noValues : FloatValues ℤ where
  pulse1_c0 _ := 0
  pulse4_c0 _ := 0
  pulse4_c1 _ := 0
  GMSKRotation1 _ := 0
  GMSKRotation4 _ := 0
  edgeRotation _ := 0
  psk8_table _ := 0
  mem _ := 0

namespace SigProcLib

variable [CommRing R]

/-! ## Rotation -/

/-- `GMSKRotate`: the loop reads as many entries of a table as the vector has samples. -/
def GMSKRotate (s : SigProcLib R) (x : SignalVector R) (sps : ℕ) : Option (SignalVector R) :=
  let len := if sps = 1 then s.GMSKRotation1Len else s.GMSKRotation4Len
  let table := if sps = 1 then s.GMSKRotation1 else s.GMSKRotation4
  if x.size ≤ len then
    some
      { x with
        data := Loop.upTo x.size (fun k data =>
          let rot := Loop.loadPair table (2 * k)
          let sample := Loop.loadPair data (2 * k)
          Loop.storePair data (2 * k) (if x.real then (rot.1 * sample.1, rot.2 * sample.1)
            else cmul rot sample)) x.data }
  else none

/-- `2.0 * (bit & 0x01) - 1.0` as a complex number. -/
def symbol (bit : UInt8) : R × R := (bipolar bit, 0)

/-! ## GMSK -/

/-- `rotateBurst`. -/
def rotateBurst (s : SigProcLib R) (wBurst : List UInt8) (guardPeriodLength : ℤ) (sps : ℕ) :
    Option (Option (SignalVector R)) := do
  let burst_len : ℤ := sps * (wBurst.length + guardPeriodLength)
  if burst_len < 0 then none
  let rotated : SignalVector R := .new burst_len.toNat
  let (rotated, _) ← writeSymbols sps (wBurst.map symbol) rotated 0
  let rotated ← s.GMSKRotate rotated sps
  some (convolve s.cpu s.mem { rotated with real := false } s.GSMPulse1.empty none .START_ONLY 0 0)

/-- `bits[i]`; an index in front of the vector is outside it. -/
def bitAt (bits : List UInt8) (i : ℤ) : Option UInt8 := if 0 ≤ i then bits[i.toNat]? else none

/-- A phase coefficient: the two bits before bit `i` turn a sample of the first pulse stream into
one of the second; the iterators of the streams move together. -/
def putPhase (bits : List UInt8) (c0_burst : SignalVector R) (c1 : SignalVector R × ℕ) (i : ℤ) :
    Option (SignalVector R × ℕ) := do
  let bit ← bitAt bits (i - 1)
  let previous ← bitAt bits (i - 2)
  let sample ← c0_burst.read c1.2
  let c1_burst ← c1.1.write c1.2 (cmul sample (0, (phase bit previous : R)))
  some (c1_burst, c1.2 + 4)

/-- The end of `modulateBurstLaurent`: both streams are shaped, and the second is added to the
first. -/
def sumShaped (s : SigProcLib R) (c0_burst c1_burst c1_pulse : SignalVector R) :
    Option (Option (SignalVector R)) :=
  match convolve s.cpu s.mem c0_burst s.GSMPulse4.c0 none .START_ONLY 0 0,
      convolve s.cpu s.mem c1_burst c1_pulse none .START_ONLY 0 0 with
  | some c0_shaped, some c1_shaped =>
    some (some
      { c0_shaped with
        data := Loop.upTo c0_shaped.size (fun k data =>
          Loop.storePair data (2 * k) (Loop.loadPair data (2 * k) + c1_shaped.sample k))
          c0_shaped.data })
  | _, _ => none

/-- `modulateBurstLaurent`. -/
def modulateBurstLaurent (s : SigProcLib R) (bits : List UInt8) :
    Option (Option (SignalVector R)) := do
  if bits.length > 156 then return none
  let c0_pulse := s.GSMPulse4.c0
  let c1_pulse ← s.GSMPulse4.c1
  let c0_burst : SignalVector R := { withHead 625 c0_pulse.size with real := true }
  let c1_burst : SignalVector R := withHead 625 c1_pulse.size
  -- the bits between padded differential tail bits
  let (c0_burst, c0_itr) ← writeSymbols 4 [symbol 0] c0_burst 0
  let (c0_burst, c0_itr) ← writeSymbols 4 (bits.map symbol) c0_burst c0_itr
  let c0_burst ← c0_burst.write c0_itr (symbol 0)
  let c0_burst ← s.GMSKRotate c0_burst 4
  let c0_burst := { c0_burst with real := false }
  -- the first phase coefficient, one for every bit from number 2 on, and one after the last
  let sample ← c0_burst.read 8
  let c1_burst ← c1_burst.write 8 (cmul sample (0, (phase 1 1 : R)))
  let c1 ← (List.range (bits.length - 2)).foldlM
    (fun c1 (k : ℕ) => putPhase bits c0_burst c1 (k + 2)) (c1_burst, 12)
  let (c1_burst, _) ← putPhase bits c0_burst c1 bits.length
  s.sumShaped c0_burst c1_burst c1_pulse

/-- `modulateBurstBasic`. -/
def modulateBurstBasic (s : SigProcLib R) (bits : List UInt8) (guard_len : ℤ) (sps : ℕ) :
    Option (Option (SignalVector R)) := do
  let pulse := if sps = 1 then s.GSMPulse1.c0 else s.GSMPulse4.c0
  let burst_len : ℤ := sps * (bits.length + guard_len)
  if burst_len < 0 then none
  let burst : SignalVector R := { withHead burst_len.toNat pulse.size with real := true }
  let (burst, _) ← writeSymbols sps (bits.map symbol) burst 0
  let burst ← s.GMSKRotate burst sps
  some (convolve s.cpu s.mem { burst with real := false } pulse none .START_ONLY 0 0)

/-- `modulateBurst`. -/
def modulateBurst (s : SigProcLib R) (wBurst : List UInt8) (guardPeriodLength : ℤ) (sps : ℕ)
    (emptyPulse : Bool) : Option (Option (SignalVector R)) :=
  if emptyPulse then s.rotateBurst wBurst guardPeriodLength sps
  else if sps = 4 then s.modulateBurstLaurent wBurst
  else s.modulateBurstBasic wBurst guardPeriodLength sps

/-! ## 8-PSK -/

/-- The symbols with some indices. -/
def psk8Symbols (s : SigProcLib R) (indices : List ℕ) : List (R × R) := indices.map s.psk8_table

/-- `mapEdgeSymbols`. -/
def mapEdgeSymbols (s : SigProcLib R) (bits : List UInt8) : Option (List (R × R)) :=
  if bits.length % 3 ≠ 0 then none else some (s.psk8Symbols (Trx.mapEdgeSymbols bits))

/-- The symbols, each turned by 3π/8 more than the one before. -/
def rotateSymbols (s : SigProcLib R) (symbols : List (R × R)) : List (R × R) :=
  symbols.mapIdx fun i x => cmul x (s.edgeRotation i)

/-- `rotateEdgeBurst`. -/
def rotateEdgeBurst (s : SigProcLib R) (symbols : List (R × R)) (sps : ℕ) :
    Option (SignalVector R) :=
  (writeSymbols sps (s.rotateSymbols symbols) (.new (symbols.length * sps)) 0).map Prod.fst

/-- `shapeEdgeBurst`: the burst starts a symbol late; symbols beyond the 156th are left out. -/
def shapeEdgeBurst (s : SigProcLib R) (symbols : List (R × R)) :
    Option (Option (SignalVector R)) := do
  let nsyms := if symbols.length * 4 > 625 then 156 else symbols.length
  let burst : SignalVector R := withHead 625 s.GSMPulse4.c0.size
  let (burst, _) ← writeSymbols 4 (s.rotateSymbols (symbols.take nsyms)) burst 4
  some (convolve s.cpu s.mem burst s.GSMPulse4.c0 none .START_ONLY 0 0)

/-- `modulateEdgeBurst`. -/
def modulateEdgeBurst (s : SigProcLib R) (bits : List UInt8) (sps : ℕ) (empty : Bool) :
    Option (Option (SignalVector R)) :=
  if sps ≠ 4 ∧ !empty then some none
  else
    match s.mapEdgeSymbols bits with
    | none => some none
    | some symbols =>
      if empty then (s.rotateEdgeBurst symbols sps).map some else s.shapeEdgeBurst symbols

/-! ## Generators -/

/-- `8 + !(tn % 4)`. -/
def guardLen (tn : ℤ) : ℤ := 8 + if tn % 4 = 0 then 1 else 0

/-- `rand() % 2` for the bits with some numbers. -/
def randomBits (rand : ℕ → ℕ) (first count : ℕ) : List UInt8 :=
  (List.range' first count).map fun i => UInt8.ofNat (rand i % 2)

/-- The bits of `genRandNormalBurst`: tail, data, stealing bit, training sequence, stealing bit,
data, tail. -/
def normalBits (rand : ℕ → ℕ) (tsc : ℤ) : List UInt8 :=
  List.replicate 3 0 ++ randomBits rand 3 57 ++ [0] ++
    (gTrainingSequence.getD tsc.toNat []).take 26 ++ [0] ++ randomBits rand 88 57 ++
    List.replicate 3 0

/-- `genRandNormalBurst`. -/
def genRandNormalBurst (s : SigProcLib R) (rand : ℕ → ℕ) (tsc : ℤ) (sps : ℕ) (tn : ℤ) :
    Option (Option (SignalVector R)) :=
  if tsc < 0 ∨ tsc > 7 ∨ tn < 0 ∨ tn > 7 then some none
  else if sps ≠ 1 ∧ sps ≠ 4 then some none
  else s.modulateBurst (normalBits rand tsc) (guardLen tn) sps false

/-- The bits of `genRandAccessBurst`: the delay, head and synch bits, data, tail. -/
def accessBits (rand : ℕ → ℕ) (delay : ℤ) : List UInt8 :=
  let synch := (49 + delay).toNat - delay.toNat
  let data := (85 + delay).toNat - (49 + delay).toNat
  List.replicate delay.toNat 0 ++ gRACHBurst.take synch ++
    randomBits rand (49 + delay).toNat data ++
    List.replicate ((88 + delay).toNat - (85 + delay).toNat) 0

/-- `genRandAccessBurst`; a vector cannot have a negative length. -/
def genRandAccessBurst (s : SigProcLib R) (rand : ℕ → ℕ) (delay : ℤ) (sps : ℕ) (tn : ℤ) :
    Option (Option (SignalVector R)) :=
  if tn < 0 ∨ tn > 7 then some none
  else if sps ≠ 1 ∧ sps ≠ 4 then some none
  else if delay > 68 then some none
  else if 88 + delay < 0 then none
  else s.modulateBurst (accessBits rand delay)
    (68 - delay + if tn % 4 = 0 then 1 else 0) sps false

/-- `generateEmptyBurst`. -/
def generateEmptyBurst (sps : ℕ) (tn : ℤ) : Option (Option (SignalVector R)) :=
  if tn < 0 ∨ tn > 7 then some none
  else if sps = 4 then some (some (.new 625))
  else if sps = 1 then some (some (.new (148 + 8 + if tn % 4 = 0 then 1 else 0)))
  else some none

/-- `generateDummyBurst`. -/
def generateDummyBurst (s : SigProcLib R) (sps : ℕ) (tn : ℤ) :
    Option (Option (SignalVector R)) :=
  if (sps ≠ 1 ∧ sps ≠ 4) ∨ tn < 0 ∨ tn > 7 then some none
  else s.modulateBurst gDummyBurst (guardLen tn) sps false

/-- The symbols of `generateEdgeBurst`: tail, body, training sequence, body, tail. -/
def edgeSymbols (rand : ℕ → ℕ) (tsc : ℤ) : List ℕ :=
  let body (first : ℕ) := (List.range' first 58).map fun i => rand i % 8
  List.replicate 3 7 ++ body 3 ++
    (Trx.mapEdgeSymbols (gEdgeTrainingSequence.getD tsc.toNat [])).take 26 ++ body 87 ++
    List.replicate 3 7

/-- `generateEdgeBurst`, which does not know the number of samples a symbol. -/
def generateEdgeBurst (s : SigProcLib R) (rand : ℕ → ℕ) (tsc : ℤ) :
    Option (Option (SignalVector R)) :=
  if tsc < 0 ∨ tsc > 7 then some none
  else s.shapeEdgeBurst (s.psk8Symbols (edgeSymbols rand tsc))

/-! ## The length of a burst -/

/-- The function returns a vector of some length. -/
def Makes (r : Option (Option (SignalVector R))) (len : ℕ) : Prop :=
  ∃ v, r = some (some v) ∧ v.size = len

omit [CommRing R] in
theorem not_makes_none (len : ℕ) : ¬ Makes (none : Option (Option (SignalVector R))) len := by
  rintro ⟨v, h, -⟩
  cases h

omit [CommRing R] in
theorem not_makes_null (len : ℕ) :
    ¬ Makes (some none : Option (Option (SignalVector R))) len := by
  rintro ⟨v, h, -⟩
  cases h

variable (f : FloatValues R) (cpu : ConvolveCpuContext R)

/-- Vectors that are not longer than the table are rotated. -/
theorem GMSKRotate_of_le (x : SignalVector R) (sps : ℕ)
    (h : x.size ≤ if sps = 1 then 157 else 625) :
    ∃ y, (sigProcLibSetup f cpu).GMSKRotate x sps = some y ∧ y.SameShape x := by
  have hlen : x.size ≤ if sps = 1 then (sigProcLibSetup f cpu).GMSKRotation1Len
      else (sigProcLibSetup f cpu).GMSKRotation4Len := h
  rw [GMSKRotate, if_pos hlen]
  exact ⟨_, rfl, rfl, rfl⟩

theorem bitAt_of_lt (bits : List UInt8) {i : ℤ} (h0 : 0 ≤ i) (hlt : i < bits.length) :
    ∃ bit, bitAt bits i = some bit := by
  rw [bitAt, if_pos h0]
  exact ⟨_, List.getElem?_eq_getElem (by omega)⟩

theorem bitAt_of_neg {bits : List UInt8} {i : ℤ} (h : i < 0) : bitAt bits i = none :=
  if_neg (not_le.mpr h)

/-- The phase coefficient of a bit that has two bits before it. -/
theorem putPhase_of_fits {bits : List UInt8} (c0 c1 : SignalVector R) {itr : ℕ} {i : ℤ}
    (h2 : 2 ≤ i) (hi : i ≤ bits.length) (h0 : itr < c0.size) (h1 : itr < c1.size) :
    ∃ y, putPhase bits c0 (c1, itr) i = some (y, itr + 4) ∧ y.SameShape c1 := by
  obtain ⟨bit, hbit⟩ := bitAt_of_lt bits (show 0 ≤ i - 1 by omega) (by omega)
  obtain ⟨previous, hprevious⟩ := bitAt_of_lt bits (show 0 ≤ i - 2 by omega) (by omega)
  obtain ⟨y, hy⟩ := Option.isSome_iff_exists.mp (write_isSome_iff
    (s := cmul (c0.sample itr) (0, (phase bit previous : R))) |>.mpr h1)
  refine ⟨y, ?_, write_sameShape hy⟩
  simp only [putPhase, hbit, hprevious, SignalVector.read, if_pos h0, hy, Option.bind_eq_bind,
    Option.bind_some]

/-- The first two bits have no phase coefficient. -/
theorem putPhase_of_lt {bits : List UInt8} {c0 : SignalVector R} {c1 : SignalVector R × ℕ} {i : ℤ}
    (h : i < 2) : putPhase bits c0 c1 i = none := by
  have hprevious : bitAt bits (i - 2) = none := bitAt_of_neg (by omega)
  simp only [putPhase, hprevious, Option.bind_eq_bind, Option.bind_none, Option.bind_fun_none]

/-- The loop over the phase coefficients. -/
theorem putPhases_of_fits {bits : List UInt8} (c0 c1 : SignalVector R) {itr k : ℕ}
    (hk : k = 0 ∨ k + 1 ≤ bits.length) (h0 : itr + 4 * k ≤ c0.size) (h1 : itr + 4 * k ≤ c1.size) :
    ∃ y, (List.range k).foldlM (fun c1 (k : ℕ) => putPhase bits c0 c1 (k + 2)) (c1, itr) =
      some (y, itr + 4 * k) ∧ y.SameShape c1 := by
  induction k with
  | zero => exact ⟨c1, rfl, rfl, rfl⟩
  | succ k ih =>
    obtain ⟨y, hy, hshape⟩ := ih (by omega) (by omega) (by omega)
    have hsize := hshape.1
    obtain ⟨z, hz, hshape'⟩ := putPhase_of_fits c0 y (show (2 : ℤ) ≤ (k : ℤ) + 2 by omega)
      (show (k : ℤ) + 2 ≤ bits.length by omega) (show itr + 4 * k < c0.size by omega)
      (show itr + 4 * k < y.size by omega)
    refine ⟨z, ?_, hshape'.trans hshape⟩
    rw [List.range_succ, List.foldlM_append, hy]
    simp only [Option.bind_eq_bind, Option.bind_some, List.foldlM_cons, List.foldlM_nil, hz]
    rfl

/-- The first stream of the Laurent modulator, up to the padding behind the bits. -/
theorem writeSymbols_c0 {bits : List UInt8} (h : bits.length ≤ 156) (c0 : SignalVector R)
    (hsize : c0.size = 625) :
    ∃ x y, writeSymbols 4 [symbol 0] c0 0 = some (x, 4) ∧
      writeSymbols 4 (bits.map symbol) x 4 = some (y, 4 + 4 * bits.length) ∧ y.size = 625 := by
  obtain ⟨x, hx, hxshape⟩ := writeSymbols_of_fits 4 [symbol 0] c0 0 fun _ => by
    rw [hsize, List.length_singleton]
    norm_num
  have hxsize : x.size = 625 := hxshape.1.trans hsize
  obtain ⟨y, hy, hyshape⟩ := writeSymbols_of_fits 4 (bits.map symbol) x 4 fun _ => by
    rw [List.length_map, hxsize]
    omega
  rw [List.length_map] at hy
  exact ⟨x, y, hx, hy, hyshape.1.trans hxsize⟩

theorem sumShaped_makes {c0_burst c1_burst : SignalVector R} (h0 : c0_burst.size = 625)
    (h1 : c1_burst.size = 625) :
    Makes ((sigProcLibSetup f cpu).sumShaped c0_burst c1_burst (pulseVector f.pulse4_c1 8))
      625 := by
  obtain ⟨c0_shaped, hc0_shaped, hc0size⟩ := convolve_startOnly (sigProcLibSetup f cpu).cpu
    (sigProcLibSetup f cpu).mem (x := c0_burst) (h := (sigProcLibSetup f cpu).GSMPulse4.c0)
    (show 0 < 16 by decide) (show 16 ≤ c0_burst.size by omega) (by omega)
  obtain ⟨c1_shaped, hc1_shaped, -⟩ := convolve_startOnly (sigProcLibSetup f cpu).cpu
    (sigProcLibSetup f cpu).mem (x := c1_burst) (h := pulseVector f.pulse4_c1 8)
    (show 0 < 8 by decide) (show 8 ≤ c1_burst.size by omega) (by omega)
  simp only [sumShaped, hc0_shaped, hc1_shaped]
  exact ⟨_, rfl, hc0size.trans h0⟩

/-- More than 156 bits are refused at once. -/
theorem modulateBurstLaurent_of_long {bits : List UInt8} (h : 156 < bits.length) :
    (sigProcLibSetup f cpu).modulateBurstLaurent bits = some none := by
  simp only [modulateBurstLaurent, if_pos h]
  rfl

/-- The padding behind 156 bits starts behind the burst. -/
theorem modulateBurstLaurent_of_full {bits : List UInt8} (h : bits.length = 156) :
    (sigProcLibSetup f cpu).modulateBurstLaurent bits = none := by
  obtain ⟨x, y, hx, hy, hysize⟩ := writeSymbols_c0 h.le
    ({ withHead 625 (sigProcLibSetup f cpu).GSMPulse4.c0.size with real := true } :
      SignalVector R) rfl
  have hc1 : (sigProcLibSetup f cpu).GSMPulse4.c1 = some (pulseVector f.pulse4_c1 8) := rfl
  have hnone : y.write (4 + 4 * bits.length) (symbol 0) = none := by
    rw [SignalVector.write, if_neg (by omega)]
  simp only [modulateBurstLaurent, if_neg (show ¬ bits.length > 156 by omega), hc1, hx, hy, hnone,
    Option.bind_eq_bind, Option.bind_some, Option.bind_none]

/-- Up to 155 bits every sample before the last phase coefficient lies in the two bursts. -/
theorem modulateBurstLaurent_upToLast {bits : List UInt8} (h : bits.length ≤ 155) :
    ∃ c0_burst c1_burst : SignalVector R, c0_burst.size = 625 ∧ c1_burst.size = 625 ∧
      (sigProcLibSetup f cpu).modulateBurstLaurent bits =
        (putPhase bits c0_burst (c1_burst, 12 + 4 * (bits.length - 2)) bits.length).bind fun c1 =>
          (sigProcLibSetup f cpu).sumShaped c0_burst c1.1 (pulseVector f.pulse4_c1 8) := by
  obtain ⟨x, y, hx, hy, hysize⟩ := writeSymbols_c0 (show bits.length ≤ 156 by omega)
    ({ withHead 625 (sigProcLibSetup f cpu).GSMPulse4.c0.size with real := true } :
      SignalVector R) rfl
  have hc1 : (sigProcLibSetup f cpu).GSMPulse4.c1 = some (pulseVector f.pulse4_c1 8) := rfl
  obtain ⟨z, hz⟩ := Option.isSome_iff_exists.mp (write_isSome_iff (s := symbol (R := R) 0)
    |>.mpr (show 4 + 4 * bits.length < y.size by omega))
  have hzsize : z.size = 625 := (write_sameShape hz).1.trans hysize
  obtain ⟨r, hr, hrshape⟩ := GMSKRotate_of_le f cpu z 4 (by rw [hzsize]; decide)
  have hrsize : r.size = 625 := hrshape.1.trans hzsize
  have hread : ({ r with real := false } : SignalVector R).read 8 =
      some (({ r with real := false } : SignalVector R).sample 8) :=
    if_pos (show 8 < r.size by omega)
  obtain ⟨c1, hc1write⟩ := Option.isSome_iff_exists.mp (write_isSome_iff
    (x := withHead 625 (pulseVector f.pulse4_c1 8).size)
    (s := cmul (({ r with real := false } : SignalVector R).sample 8) (0, ((phase 1 1 : ℤ) : R)))
    |>.mpr (show 8 < 625 by decide))
  have hc1size : c1.size = 625 := (write_sameShape hc1write).1
  obtain ⟨d1, hd1, hd1shape⟩ := putPhases_of_fits { r with real := false } c1
    (show bits.length - 2 = 0 ∨ bits.length - 2 + 1 ≤ bits.length by omega)
    (show 12 + 4 * (bits.length - 2) ≤ r.size by omega) (by omega)
  refine ⟨{ r with real := false }, d1, hrsize, hd1shape.1.trans hc1size, ?_⟩
  simp only [modulateBurstLaurent, if_neg (show ¬ bits.length > 156 by omega), hc1, hx, hy, hz, hr,
    Option.bind_eq_bind, Option.bind_some]
  rw [hread, Option.bind_some, hc1write, Option.bind_some, hd1, Option.bind_some]

/-- The last phase coefficient needs two bits. -/
theorem modulateBurstLaurent_of_short {bits : List UInt8} (h : bits.length < 2) :
    (sigProcLibSetup f cpu).modulateBurstLaurent bits = none := by
  obtain ⟨c0, c1, -, -, hmod⟩ :=
    modulateBurstLaurent_upToLast f cpu (show bits.length ≤ 155 by omega)
  rw [hmod, putPhase_of_lt (by omega), Option.bind_none]

theorem modulateBurstLaurent_makes {bits : List UInt8} (h2 : 2 ≤ bits.length)
    (h155 : bits.length ≤ 155) :
    Makes ((sigProcLibSetup f cpu).modulateBurstLaurent bits) 625 := by
  obtain ⟨c0, c1, hc0size, hc1size, hmod⟩ := modulateBurstLaurent_upToLast f cpu h155
  obtain ⟨e1, he1, he1shape⟩ := putPhase_of_fits c0 c1 (show (2 : ℤ) ≤ bits.length by omega) le_rfl
    (show 12 + 4 * (bits.length - 2) < c0.size by omega) (by omega)
  rw [hmod, he1, Option.bind_some]
  exact sumShaped_makes f cpu hc0size (he1shape.1.trans hc1size)

/-- **The Laurent modulator** makes a burst of 625 samples exactly of 2 to 155 bits.  The phase
coefficient after the last bit needs two bits in front of it, and the padding of 156 bits starts
behind the burst. -/
theorem modulateBurstLaurent_iff (bits : List UInt8) :
    Makes ((sigProcLibSetup f cpu).modulateBurstLaurent bits) 625 ↔
      2 ≤ bits.length ∧ bits.length ≤ 155 := by
  rcases lt_trichotomy bits.length 156 with hlt | hfull | hlong
  · by_cases h2 : 2 ≤ bits.length
    · exact iff_of_true (modulateBurstLaurent_makes f cpu h2 (by omega)) ⟨h2, by omega⟩
    · rw [modulateBurstLaurent_of_short f cpu (not_le.mp h2)]
      exact iff_of_false (not_makes_none _) (by omega)
  · rw [modulateBurstLaurent_of_full f cpu hfull]
    exact iff_of_false (not_makes_none _) (by omega)
  · rw [modulateBurstLaurent_of_long f cpu hlong]
    exact iff_of_false (not_makes_null _) (by omega)

/-- **The basic modulator** at one sample a symbol: bits and guard. -/
theorem modulateBurstBasic_makes {bits : List UInt8} {guard_len : ℤ} (hguard : 0 ≤ guard_len)
    (hlow : 4 ≤ bits.length + guard_len) (hhigh : bits.length + guard_len ≤ 157) :
    Makes ((sigProcLibSetup f cpu).modulateBurstBasic bits guard_len 1)
      (bits.length + guard_len).toNat := by
  have hlen : ((1 : ℕ) : ℤ) * (bits.length + guard_len) = bits.length + guard_len := by ring
  obtain ⟨x, hx, hxshape⟩ := writeSymbols_of_fits 1 (bits.map symbol)
    ({ withHead (bits.length + guard_len).toNat (sigProcLibSetup f cpu).GSMPulse1.c0.size with
      real := true } : SignalVector R) 0 fun hne => by
    have hpos := List.length_pos_iff.mpr hne
    rw [List.length_map] at hpos ⊢
    simp only [withHead]
    omega
  have hxsize : x.size = (bits.length + guard_len).toNat := hxshape.1
  obtain ⟨r, hr, hrshape⟩ := GMSKRotate_of_le f cpu x 1 (by rw [hxsize, if_pos rfl]; omega)
  have hrsize : r.size = (bits.length + guard_len).toNat := hrshape.1.trans hxsize
  obtain ⟨y, hy, hysize⟩ := convolve_startOnly (sigProcLibSetup f cpu).cpu
    (sigProcLibSetup f cpu).mem (x := { r with real := false })
    (h := (sigProcLibSetup f cpu).GSMPulse1.c0) (show 0 < 4 by decide)
    (show 4 ≤ r.size by omega) (show r.size ≤ 2 ^ 30 by omega)
  have hneg : ¬ (bits.length : ℤ) + guard_len < 0 := by omega
  refine ⟨y, ?_, hysize.trans hrsize⟩
  simp only [modulateBurstBasic, if_true, hlen, if_neg hneg, hx, hr, hy, Option.bind_eq_bind,
    Option.bind_some]

/-- **8-PSK shaping** gives 625 samples, whatever the number of symbols. -/
theorem shapeEdgeBurst_makes (symbols : List (R × R)) :
    Makes ((sigProcLibSetup f cpu).shapeEdgeBurst symbols) 625 := by
  set nsyms := if symbols.length * 4 > 625 then 156 else symbols.length with hnsyms
  have hle : nsyms ≤ 156 := by
    rw [hnsyms]
    split_ifs <;> omega
  obtain ⟨x, hx, hxshape⟩ := writeSymbols_of_fits 4
    ((sigProcLibSetup f cpu).rotateSymbols (symbols.take nsyms))
    (withHead 625 (sigProcLibSetup f cpu).GSMPulse4.c0.size) 4 fun _ => by
    rw [rotateSymbols, List.length_mapIdx, List.length_take, withHead]
    simp only
    omega
  have hxsize : x.size = 625 := hxshape.1
  obtain ⟨y, hy, hysize⟩ := convolve_startOnly (sigProcLibSetup f cpu).cpu
    (sigProcLibSetup f cpu).mem (x := x) (h := (sigProcLibSetup f cpu).GSMPulse4.c0)
    (show 0 < 16 by decide) (show 16 ≤ x.size by omega) (by omega)
  refine ⟨y, ?_, hysize.trans hxsize⟩
  simp only [shapeEdgeBurst, ← hnsyms, hx, hy, Option.bind_eq_bind, Option.bind_some]

/-- An EDGE burst at 4 samples a symbol. -/
theorem modulateEdgeBurst_makes {bits : List UInt8} (h : bits.length % 3 = 0) :
    Makes ((sigProcLibSetup f cpu).modulateEdgeBurst bits 4 false) 625 := by
  have hmap : (sigProcLibSetup f cpu).mapEdgeSymbols bits =
      some ((sigProcLibSetup f cpu).psk8Symbols (Trx.mapEdgeSymbols bits)) := by
    rw [mapEdgeSymbols, if_neg (not_not.mpr h)]
  rw [modulateEdgeBurst, if_neg (by simp), hmap]
  exact shapeEdgeBurst_makes f cpu _

/-! ## The length of a slot -/

/-- The samples of a transmit slot: 625 at 4 samples a symbol, and at one 157 in every fourth
timeslot and 156 in the others. -/
def slotLen (sps : ℕ) (tn : ℤ) : ℕ := if sps = 4 then 625 else 156 + if tn % 4 = 0 then 1 else 0

/-- A GMSK burst whose bits and guard make up a slot. -/
theorem modulateBurst_makes_iff {bits : List UInt8} {sps : ℕ} (hsps : sps = 1 ∨ sps = 4)
    {tn guard : ℤ} (hguard : 0 ≤ guard)
    (hlen : bits.length + guard = 156 + if tn % 4 = 0 then 1 else 0) :
    Makes ((sigProcLibSetup f cpu).modulateBurst bits guard sps false) (slotLen sps tn) ↔
      (sps = 4 → 2 ≤ bits.length ∧ bits.length ≤ 155) := by
  rw [modulateBurst, if_neg Bool.false_ne_true]
  rcases hsps with rfl | rfl
  · have hslot : (bits.length + guard).toNat = slotLen 1 tn := by
      rw [slotLen, if_neg (by decide), hlen]
      split_ifs <;> rfl
    rw [if_neg (by decide), ← hslot]
    refine iff_of_true (modulateBurstBasic_makes f cpu hguard ?_ ?_) fun h => absurd h (by decide)
    · rw [hlen]
      split_ifs <;> norm_num
    · rw [hlen]
      split_ifs <;> norm_num
  · rw [if_pos rfl, slotLen, if_pos rfl, modulateBurstLaurent_iff]
    simp

/-! ## Generated bursts -/

variable (rand : ℕ → ℕ)

@[simp] theorem length_randomBits (first count : ℕ) :
    (randomBits rand first count).length = count := by
  simp [randomBits]

theorem length_normalBits {tsc : ℤ} (h0 : 0 ≤ tsc) (h7 : tsc ≤ 7) :
    (normalBits rand tsc).length = 148 := by
  have hlt : tsc.toNat < gTrainingSequence.length := show tsc.toNat < 8 by omega
  have hseq := length_of_mem_gTrainingSequence _ (List.getElem_mem hlt)
  simp only [normalBits, List.getD_eq_getElem?_getD, List.getElem?_eq_getElem hlt,
    Option.getD_some, List.length_append, List.length_replicate, List.length_singleton,
    List.length_take, length_randomBits, hseq]
  norm_num

theorem length_accessBits {delay : ℤ} (hlow : -88 ≤ delay) (hhigh : delay ≤ 68) :
    ((accessBits rand delay).length : ℤ) = 88 + delay := by
  simp only [accessBits, List.length_append, List.length_replicate, List.length_take,
    length_randomBits, length_gRACHBurst]
  omega

section Generators

variable {sps : ℕ} (hsps : sps = 1 ∨ sps = 4) {tn : ℤ} (htn : 0 ≤ tn ∧ tn ≤ 7)

include hsps htn

/-- **Normal bursts** fill a slot exactly if there is such a training sequence. -/
theorem genRandNormalBurst_iff (tsc : ℤ) :
    Makes ((sigProcLibSetup f cpu).genRandNormalBurst rand tsc sps tn) (slotLen sps tn) ↔
      0 ≤ tsc ∧ tsc ≤ 7 := by
  by_cases htsc : 0 ≤ tsc ∧ tsc ≤ 7
  · have hlen := length_normalBits rand htsc.1 htsc.2
    rw [genRandNormalBurst, if_neg (by omega), if_neg (by omega), guardLen,
      modulateBurst_makes_iff f cpu hsps (by split_ifs <;> norm_num)
        (by rw [hlen]; push_cast; ring)]
    exact iff_of_true (fun _ => by omega) htsc
  · rw [genRandNormalBurst, if_pos (by omega)]
    exact iff_of_false (not_makes_null _) htsc

/-- **Access bursts** fill a slot exactly if their bits do, at 4 samples a symbol without the
padding going beyond it. -/
theorem genRandAccessBurst_iff (delay : ℤ) :
    Makes ((sigProcLibSetup f cpu).genRandAccessBurst rand delay sps tn) (slotLen sps tn) ↔
      -88 ≤ delay ∧ delay ≤ 68 ∧ (sps = 4 → -86 ≤ delay ∧ delay ≤ 67) := by
  rw [genRandAccessBurst, if_neg (by omega), if_neg (by omega)]
  by_cases hhigh : delay > 68
  · rw [if_pos hhigh]
    exact iff_of_false (not_makes_null _) (by omega)
  by_cases hlow : 88 + delay < 0
  · rw [if_neg hhigh, if_pos hlow]
    exact iff_of_false (not_makes_none _) (by omega)
  have hlen := length_accessBits rand (show -88 ≤ delay by omega) (not_lt.mp hhigh)
  rw [if_neg hhigh, if_neg hlow, modulateBurst_makes_iff f cpu hsps (by split_ifs <;> omega)
    (by rw [hlen]; ring)]
  omega

/-- **Empty bursts** always fill a slot, … -/
theorem generateEmptyBurst_makes : Makes (generateEmptyBurst (R := R) sps tn) (slotLen sps tn) := by
  rw [generateEmptyBurst, if_neg (by omega), slotLen]
  rcases hsps with rfl | rfl
  · exact ⟨_, rfl, rfl⟩
  · exact ⟨_, rfl, rfl⟩

/-- … and so do **dummy bursts**. -/
theorem generateDummyBurst_makes :
    Makes ((sigProcLibSetup f cpu).generateDummyBurst sps tn) (slotLen sps tn) := by
  have hlen := length_gDummyBurst
  rw [generateDummyBurst, if_neg (by omega), guardLen,
    modulateBurst_makes_iff f cpu hsps (by split_ifs <;> norm_num) (by rw [hlen]; push_cast; ring)]
  omega

omit htn in
/-- **EDGE bursts** fill a slot only at 4 samples a symbol. -/
theorem generateEdgeBurst_iff (tsc : ℤ) :
    Makes ((sigProcLibSetup f cpu).generateEdgeBurst rand tsc) (slotLen sps tn) ↔
      (0 ≤ tsc ∧ tsc ≤ 7) ∧ sps = 4 := by
  by_cases htsc : 0 ≤ tsc ∧ tsc ≤ 7
  · rw [generateEdgeBurst, if_neg (by omega)]
    obtain ⟨v, hv, hsize⟩ :=
      shapeEdgeBurst_makes f cpu ((sigProcLibSetup f cpu).psk8Symbols (edgeSymbols rand tsc))
    constructor
    · rintro ⟨w, hw, hwsize⟩
      rw [hv] at hw
      cases hw
      refine ⟨htsc, ?_⟩
      by_contra h4
      rw [hsize, slotLen, if_neg h4] at hwsize
      split_ifs at hwsize <;> omega
    · rintro ⟨-, rfl⟩
      exact ⟨v, hv, hsize⟩
  · rw [generateEdgeBurst, if_pos (by omega)]
    exact iff_of_false (not_makes_null _) fun h => htsc h.1

end Generators

end SigProcLib
end Trx
end OsmoTrx
