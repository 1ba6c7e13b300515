import OsmoTrx.Dsp.SpanConvolve
import OsmoTrx.Trx.SigProcLib

/-!
# The buffers of the modulators

At 4 samples a symbol the modulators move raw iterators through vectors of 625 samples.  What
leaves a vector shows in the model as no result at all, so the question is which inputs have one.

* `Inside` — a call that gives NULL at once, or a burst of 625 samples.
* `inside_modulateBurst_iff`, `inside_modulateEdgeBurst`, `inside_genRandAccessBurst_iff` — the two
  modulators for bits of any length, and the bursts of the generator for any delay.
* `ShapesInside` — the pulse shaping of such a burst: what it reads in front of the burst is the
  head room that the burst was made with.
* `modulators_inside` — **which calls stay inside their buffers**.
-/

namespace OsmoTrx
namespace Trx

open Dsp GSM SignalVector

namespace SigProcLib

variable {R : Type}

/-- The call gives NULL and has accessed nothing, or all its accesses were in bounds and it gives a
burst of 625 samples. -/
def Inside (r : Option (Option (SignalVector R))) : Prop := r = some none ∨ Makes r 625

theorem inside_of_makes {r : Option (Option (SignalVector R))} (h : Makes r 625) : Inside r :=
  Or.inr h

theorem not_inside_none : ¬ Inside (none : Option (Option (SignalVector R))) := by
  rintro (h | h)
  · cases h
  · exact not_makes_none 625 h

variable [CommRing R]

/-- Shaping a burst of 625 samples, with as much head room as the pulse has taps, copies nothing,
reads no sample but those of the burst and its head room, and gives 625 samples. -/
def ShapesInside (s : SigProcLib R) (pulse : SignalVector R) : Prop :=
  ∀ burst : SignalVector R, burst.size = 625 → burst.start = pulse.size →
    ∃ span, Span.of burst pulse 0 0 .START_ONLY = some span ∧ span.padded burst = burst ∧
      (∀ i < 625, ∀ t, span.Reads pulse.size i t → -(pulse.size : ℤ) ≤ t ∧ t < 625) ∧
      ∃ shaped, convolve s.cpu s.mem burst pulse none .START_ONLY 0 0 = some shaped ∧
        shaped.size = 625

variable (f : FloatValues R) (cpu : ConvolveCpuContext R)

/-! ## The modulators -/

/-- The Laurent modulator: no bits, one bit and 156 bits take it out of its vectors. -/
theorem inside_modulateBurst_iff (bits : List UInt8) (guard : ℤ) :
    Inside ((sigProcLibSetup f cpu).modulateBurst bits guard 4 false) ↔
      bits.length ≠ 0 ∧ bits.length ≠ 1 ∧ bits.length ≠ 156 := by
  have hmod : (sigProcLibSetup f cpu).modulateBurst bits guard 4 false =
      (sigProcLibSetup f cpu).modulateBurstLaurent bits := by
    rw [modulateBurst, if_neg Bool.false_ne_true, if_pos rfl]
  rw [hmod]
  rcases lt_trichotomy bits.length 156 with hlt | hfull | hlong
  · by_cases h2 : 2 ≤ bits.length
    · exact iff_of_true (inside_of_makes (modulateBurstLaurent_makes f cpu h2 (by omega)))
        (by omega)
    · rw [modulateBurstLaurent_of_short f cpu (not_le.mp h2)]
      exact iff_of_false not_inside_none (by omega)
  · rw [modulateBurstLaurent_of_full f cpu hfull]
    exact iff_of_false not_inside_none (by omega)
  · rw [modulateBurstLaurent_of_long f cpu hlong]
    exact iff_of_true (Or.inl rfl) (by omega)

/-- The 8-PSK modulator, for bits of any length. -/
theorem inside_modulateEdgeBurst (bits : List UInt8) :
    Inside ((sigProcLibSetup f cpu).modulateEdgeBurst bits 4 false) := by
  by_cases h : bits.length % 3 = 0
  · exact inside_of_makes (modulateEdgeBurst_makes f cpu h)
  · have hmap : (sigProcLibSetup f cpu).mapEdgeSymbols bits = none := by
      rw [mapEdgeSymbols, if_pos h]
    refine Or.inl ?_
    rw [modulateEdgeBurst, if_neg (by simp), hmap]

/-- The generator of access bursts, for any delay: it has no more than 155 bits for delays up to
67, and gives NULL from 69 on. -/
theorem inside_genRandAccessBurst_iff (rand : ℕ → ℕ) (delay tn : ℤ) :
    Inside ((sigProcLibSetup f cpu).genRandAccessBurst rand delay 4 tn) ↔
      (tn < 0 ∨ 7 < tn) ∨ 68 < delay ∨ -86 ≤ delay ∧ delay ≤ 67 := by
  rw [genRandAccessBurst]
  by_cases htn : tn < 0 ∨ tn > 7
  · rw [if_pos htn]
    exact iff_of_true (Or.inl rfl) (Or.inl htn)
  by_cases hhigh : delay > 68
  · rw [if_neg htn, if_neg (by decide), if_pos hhigh]
    exact iff_of_true (Or.inl rfl) (Or.inr (Or.inl hhigh))
  by_cases hlow : 88 + delay < 0
  · rw [if_neg htn, if_neg (by decide), if_neg hhigh, if_pos hlow]
    exact iff_of_false not_inside_none (by omega)
  have hlen := length_accessBits rand (show -88 ≤ delay by omega) (not_lt.mp hhigh)
  rw [if_neg htn, if_neg (by decide), if_neg hhigh, if_neg hlow, inside_modulateBurst_iff]
  omega

/-! ## Pulse shaping -/

theorem shapesInside {pulse : SignalVector R} (h1 : 1 ≤ pulse.size) (h625 : pulse.size ≤ 625) :
    (sigProcLibSetup f cpu).ShapesInside pulse := by
  intro burst hsize hstart
  have hspan : Span.of burst pulse 0 0 .START_ONLY =
      some ⟨pulse.size - 1, 0, 0, burst.size, burst.start < pulse.size - 1⟩ := rfl
  have hpadded : Span.padded ⟨pulse.size - 1, 0, 0, burst.size, burst.start < pulse.size - 1⟩
      burst = burst := by
    rw [Span.padded, if_neg]
    rw [decide_eq_true_eq]
    omega
  refine ⟨_, hspan, hpadded, fun i hi t ht => ?_, ?_⟩
  · have hfits : FitsInt burst pulse none .START_ONLY 0 0 :=
      .fresh (by omega) (by decide)
    have hwithin := Span.reads_within hfits hspan (show i < burst.size by omega) ht
    rw [hpadded, hsize, hstart] at hwithin
    exact hwithin
  · obtain ⟨shaped, hshaped, hshapedSize⟩ := convolve_startOnly (sigProcLibSetup f cpu).cpu
      (sigProcLibSetup f cpu).mem h1 (show pulse.size ≤ burst.size by omega) (by omega)
    exact ⟨shaped, hshaped, hshapedSize.trans hsize⟩

/-- **Which calls stay inside their buffers**, at 4 samples a symbol: of the Laurent modulator those
with at least two bits, unless there are exactly 156; of the 8-PSK modulator all; of the generator
of access bursts all that it refuses, and those with a delay that leaves at most 155 bits.  Pulse
shaping stays inside its bursts for each pulse. -/
theorem modulators_inside :
    (∀ (bits : List UInt8) (guard : ℤ),
      Inside ((sigProcLibSetup f cpu).modulateBurst bits guard 4 false) ↔
        bits.length ≠ 0 ∧ bits.length ≠ 1 ∧ bits.length ≠ 156) ∧
    (∀ bits : List UInt8, Inside ((sigProcLibSetup f cpu).modulateEdgeBurst bits 4 false)) ∧
    (∀ (rand : ℕ → ℕ) (delay tn : ℤ),
      Inside ((sigProcLibSetup f cpu).genRandAccessBurst rand delay 4 tn) ↔
        (tn < 0 ∨ 7 < tn) ∨ 68 < delay ∨ -86 ≤ delay ∧ delay ≤ 67) ∧
    (sigProcLibSetup f cpu).ShapesInside (sigProcLibSetup f cpu).GSMPulse4.c0 ∧
    ∀ c1_pulse ∈ (sigProcLibSetup f cpu).GSMPulse4.c1,
      (sigProcLibSetup f cpu).ShapesInside c1_pulse := by
  refine ⟨inside_modulateBurst_iff f cpu, inside_modulateEdgeBurst f cpu,
    inside_genRandAccessBurst_iff f cpu, ?_, ?_⟩
  · exact shapesInside f cpu (show 1 ≤ 16 by decide) (show 16 ≤ 625 by decide)
  · rintro _ ⟨⟩
    exact shapesInside f cpu (show 1 ≤ 8 by decide) (show 8 ≤ 625 by decide)

/-- The greatest delay that a configuration may have: 156 bits pass the check, and the padding
behind them would be sample 628 of 625. -/
theorem delay_leaves_burst :
    ¬ Inside ((sigProcLibSetup noValues (convolveInit true)).genRandAccessBurst (fun _ => 0) 68 4
      0) := by
  have hlen := length_accessBits (fun _ => 0) (show (-88 : ℤ) ≤ 68 by norm_num) le_rfl
  have hnone : (sigProcLibSetup noValues (convolveInit true)).genRandAccessBurst (fun _ => 0) 68 4
      0 = none := by
    rw [genRandAccessBurst, if_neg (by decide), if_neg (by decide), if_neg (by decide),
      if_neg (by decide), modulateBurst, if_neg Bool.false_ne_true, if_pos rfl]
    exact modulateBurstLaurent_of_full _ _ (by omega)
  rw [hnone]
  exact not_inside_none

end SigProcLib
end Trx
end OsmoTrx
