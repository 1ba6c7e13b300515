import OsmoTrx.Radio.Transmit
import OsmoTrx.Radio.Multi

/-!
# Transmitting at the rate of the device

`pushBuffer` of `radioInterfaceResamp.cpp` and of `radioInterfaceMulti.cpp`.  Both read a segment
of the inner send buffer together with the history in front of it and resample it to the rate of
the device; the multi-carrier interface does so for every active channel and combines the
channels by a synthesis filterbank, whose transform is computed in floating point: what it leaves
behind is an input here.

* `Resamp.pushBuffer`, `Multi.pushBuffer` — the code.
* `Resamp.pushBuffer_stamp`, `Multi.pushBuffer_stamp` — how the timestamp advances.
-/

namespace OsmoTrx
namespace Radio

open Dsp

/-- The floats around a pointer to a segment. -/
def around {R : Type} (m : ℕ → R × R) (segment : ℕ) : ℤ → R := fun j =>
  let sample := m ((segment : ℤ) + j / 2).toNat
  if j % 2 = 0 then sample.1 else sample.2

/-! ## One carrier -/

namespace Resamp

/-- `class RadioInterfaceResamp`, which has one channel, with the variables of its file that
`pushBuffer` uses. -/
structure RadioInterfaceResamp (R : Type) extends RadioInterface 0 (R × R) where
  resamp_inchunk : ℕ
  resamp_outchunk : ℕ
  upsampler : Resampler R
  outerSendBuffer : ℤ → R

variable {R D : Type} [CommRing R]

/-- `pushBuffer`; a short write is logged. -/
def pushBuffer (c : ConvolveCpuContext R) (convertFloatShort : ℚ → R × R → D)
    (t : RadioInterfaceResamp R) (d : DeviceAnswer) :
    Option (Option (RadioInterfaceResamp R × DeviceWrite 0 D)) :=
  if (t.sendBuffer 0).getAvailSegments ≤ 0 then some none
  else
    match (t.sendBuffer 0).getReadSegment with
    | (none, _) => none
    | (some segment, b) =>
      let out := (t.upsampler.rotate c (around b.buffer segment) t.resamp_inchunk
        t.outerSendBuffer t.resamp_outchunk).2
      some (some (
        { t with
          sendBuffer := fun _ => b
          outerSendBuffer := out
          underrun := d.underrun
          writeTimestamp := t.writeTimestamp + UInt64.ofNat t.resamp_outchunk },
        { data := fun _ =>
            (Multi.samples out t.resamp_outchunk).map (convertFloatShort (t.powerScaling 0))
          timestamp := t.writeTimestamp }))

variable {c : ConvolveCpuContext R} {convertFloatShort : ℚ → R × R → D}

/-- The timestamp advances by a chunk, whatever the device has sent. -/
theorem pushBuffer_stamp {t t' : RadioInterfaceResamp R} {d : DeviceAnswer}
    {w : DeviceWrite 0 D} (h : pushBuffer c convertFloatShort t d = some (some (t', w))) :
    w.timestamp = t.writeTimestamp ∧ (w.data 0).length = t.resamp_outchunk ∧
      t'.writeTimestamp = t.writeTimestamp + UInt64.ofNat t.resamp_outchunk ∧
      t'.resamp_outchunk = t.resamp_outchunk := by
  unfold pushBuffer at h
  split_ifs at h with hempty
  · cases h
  split at h
  · cases h
  · cases h
    exact ⟨rfl, by rw [List.length_map, Multi.length_samples], rfl, rfl⟩

end Resamp

/-! ## Several carriers -/

namespace Multi

variable {n : ℕ} {R D : Type} [CommRing R]

/-- `class Synthesis`: its lengths and its input buffers. -/
structure Synthesis (R : Type) where
  m : ℕ
  blockLen : ℕ
  inputBuffer : Fin MCHANS → ℤ → R

namespace Synthesis

def inputLen (s : Synthesis R) : ℕ := s.blockLen

def outputLen (s : Synthesis R) : ℕ := s.blockLen * s.m

/-- `resetBuffer`. -/
def resetBuffer (s : Synthesis R) (chan : Fin MCHANS) : Synthesis R :=
  { s with inputBuffer := Function.update s.inputBuffer chan fun j =>
      if 0 ≤ j ∧ j < 2 * (s.blockLen : ℤ) then 0 else s.inputBuffer chan j }

end Synthesis

/-- `class RadioInterfaceMulti` with what it transmits by. -/
structure Transmitter (n : ℕ) (R : Type) extends RadioInterfaceMulti n R where
  synthesis : Synthesis R
  outerSendBuffer : List (R × R)

/-- The turn of `pushBuffer` for a physical channel. -/
def pushChannel (c : ConvolveCpuContext R) (t : Transmitter n R) (pchan : Fin MCHANS) :
    Option (Transmitter n R) :=
  if !t.active pchan then some { t with synthesis := t.synthesis.resetBuffer pchan }
  else
    let lchan := getLogicalChan pchan (n + 1)
    if lchan < 0 then some t
    else if h : lchan.toNat < n + 1 then
      let i : Fin (n + 1) := ⟨lchan.toNat, h⟩
      match (t.sendBuffer i).getReadSegment with
      | (none, _) => none
      | (some segment, b) =>
        let s := t.synthesis
        let inp := (t.upsampler.rotate c (around b.buffer segment) b.segmentLen
          (s.inputBuffer pchan) s.inputLen).2
        some
          { t with
            sendBuffer := Function.update t.sendBuffer i b
            synthesis := { s with inputBuffer := Function.update s.inputBuffer pchan inp } }
    else none

/-- `synthesis->rotate`, which ends the program if the length is not its own; `transform` is
what it leaves in its buffers and in the outer buffer. -/
def Synthesis.rotate (s : Synthesis R)
    (transform : (Fin MCHANS → ℤ → R) → (Fin MCHANS → ℤ → R) × (ℤ → R)) (len : ℕ) :
    Option (List (R × R) × Synthesis R) :=
  if s.outputLen ≠ len then none
  else
    let r := transform s.inputBuffer
    some (samples r.2 len, { s with inputBuffer := r.1 })

/-- `pushBuffer`; a short write is logged. -/
def pushBuffer (c : ConvolveCpuContext R) (convertFloatShort : ℚ → R × R → D)
    (t : Transmitter n R)
    (transform : (Fin MCHANS → ℤ → R) → (Fin MCHANS → ℤ → R) × (ℤ → R)) (d : DeviceAnswer) :
    Option (Option (Transmitter n R × DeviceWrite 0 D)) :=
  if (t.sendBuffer 0).getAvailSegments ≤ 0 then some none
  else
    match (List.finRange MCHANS).foldlM (pushChannel c) t with
    | none => none
    | some t =>
      match t.synthesis.rotate transform t.outerSendBuffer.length with
      | none => none
      | some (out, synthesis) =>
        some (some (
          { t with
            synthesis := synthesis
            outerSendBuffer := out
            underrun := d.underrun
            writeTimestamp := t.writeTimestamp + UInt64.ofNat d.numSent },
          { data := fun _ => out.map (convertFloatShort (1 / ((n + 1 : ℕ) : ℚ)))
            timestamp := t.writeTimestamp }))

variable {c : ConvolveCpuContext R} {convertFloatShort : ℚ → R × R → D}

/-- A turn for a channel touches neither the timestamp nor the outer buffer. -/
theorem pushChannel_stamp {t t' : Transmitter n R} {pchan : Fin MCHANS}
    (h : pushChannel c t pchan = some t') :
    t'.writeTimestamp = t.writeTimestamp ∧ t'.outerSendBuffer = t.outerSendBuffer := by
  unfold pushChannel at h
  split_ifs at h
  · cases h
    exact ⟨rfl, rfl⟩
  · simp only at h
    split_ifs at h
    · cases h
      exact ⟨rfl, rfl⟩
    · split at h
      · cases h
      · cases h
        exact ⟨rfl, rfl⟩

theorem pushChannels_stamp {pchans : List (Fin MCHANS)} :
    ∀ {t t' : Transmitter n R}, pchans.foldlM (pushChannel c) t = some t' →
      t'.writeTimestamp = t.writeTimestamp ∧ t'.outerSendBuffer = t.outerSendBuffer := by
  induction pchans with
  | nil =>
    intro t t' h
    cases h
    exact ⟨rfl, rfl⟩
  | cons pchan pchans ih =>
    intro t t' h
    rw [List.foldlM_cons] at h
    obtain ⟨t₁, hturn, hrest⟩ := Option.bind_eq_some_iff.mp h
    obtain ⟨hstamp, houter⟩ := pushChannel_stamp hturn
    obtain ⟨hstamp', houter'⟩ := ih hrest
    exact ⟨hstamp'.trans hstamp, houter'.trans houter⟩

/-- The timestamp advances by what the device says it has sent. -/
theorem pushBuffer_stamp {t t' : Transmitter n R}
    {transform : (Fin MCHANS → ℤ → R) → (Fin MCHANS → ℤ → R) × (ℤ → R)} {d : DeviceAnswer}
    {w : DeviceWrite 0 D}
    (h : pushBuffer c convertFloatShort t transform d = some (some (t', w))) :
    w.timestamp = t.writeTimestamp ∧ (w.data 0).length = t.outerSendBuffer.length ∧
      t'.writeTimestamp = t.writeTimestamp + UInt64.ofNat d.numSent ∧
      t'.outerSendBuffer.length = t.outerSendBuffer.length := by
  unfold pushBuffer at h
  split_ifs at h with hempty
  · cases h
  split at h
  · cases h
  · rename_i t₁ hchannels
    obtain ⟨hstamp, houter⟩ := pushChannels_stamp hchannels
    unfold Synthesis.rotate at h
    split_ifs at h with hlen
    cases h
    have hlength := length_samples (transform t₁.synthesis.inputBuffer).2 t₁.outerSendBuffer.length
    rw [houter] at hlength
    refine ⟨hstamp, ?_, by rw [hstamp], ?_⟩
    · rw [List.length_map, houter]
      exact hlength
    · rw [houter]
      exact hlength

end Multi
end Radio
end OsmoTrx
