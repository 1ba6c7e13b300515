import OsmoTrx.Radio.ResampTransmit

/-!
# Transmitting several carriers

`driveTransmitRadio` with the `pushBuffer` of `radioInterfaceMulti.cpp`: as long as a segment is
complete on channel 0, one of every channel is resampled into a row of the synthesis filter, and the
filter combines the rows.  The filter leaves its own output in the rows; what it leaves is any
function of them here.

* `Turns` — the loop over the physical channels: the rows of those it has come to are written.
* `Sent` — every chunk was made of the next segment of every channel, and the rest is in the send
  buffers.
* `transmit_rows` — **at every call of the filter the rows are what they should be**: zero for a
  channel that is not active, the next upsampled segment for the others.
-/

namespace OsmoTrx
namespace Radio
namespace Multi

open Dsp
open RadioBuffer (streamAt)

variable {n : ℕ} {R D : Type} [CommRing R]

/-! ## The code -/

/-- The calls of `resetBuffer` in `init`. -/
def Synthesis.resetBuffers (chans : ℕ) (s : Synthesis R) : Synthesis R :=
  (List.finRange MCHANS).foldl (fun s chan =>
    if chan.val < chans then s.resetBuffer chan else s) s

/-- What `init` sets up to transmit by; the rows of the new filter hold anything. -/
def initTransmitter (t : RadioInterfaceMulti n R) (rows : Fin MCHANS → ℤ → R) : Transmitter n R :=
  let synthesis := Synthesis.resetBuffers (n + 1) ⟨MCHANS, outchunk, rows⟩
  { t with
    synthesis := synthesis
    outerSendBuffer := List.replicate synthesis.outputLen 0 }

/-- `start`. -/
def Transmitter.start (t : Transmitter n R) (d : DeviceStart) : Bool × Transmitter n R :=
  let r := t.toRadioInterfaceMulti.start d
  (r.1, { t with toRadioInterfaceMulti := r.2 })

/-- What `synthesis->rotate` leaves, in the rows and in the outer buffer. -/
abbrev Transform (R : Type) : Type := (Fin MCHANS → ℤ → R) → (Fin MCHANS → ℤ → R) × (ℤ → R)

/-- A call of `driveTransmitRadio`, and what the filter leaves at the turns of its loop. -/
structure MultiCall (n : ℕ) (R : Type) extends TxCall n (R × R) where
  transform : ℕ → Transform R

/-- A turn of the loop over `pushBuffer`: what the upsampler is given to read of every channel, the
rows that the filter is called with, what it leaves, and what the device gets. -/
structure Push (n : ℕ) (R D : Type) where
  windows : Fin (n + 1) → List (R × R)
  rows : Fin MCHANS → ℤ → R
  transform : Transform R
  write : DeviceWrite 0 D

/-- The rows after the loop over the channels. -/
def pushedRows (c : ConvolveCpuContext R) (t : Transmitter n R) : Fin MCHANS → ℤ → R :=
  ((List.finRange MCHANS).foldlM (pushChannel c) t).elim t.synthesis.inputBuffer
    fun t => t.synthesis.inputBuffer

/-- The loop over `pushBuffer`; each turn takes a segment off the send buffer of channel 0. -/
def pushLoop (c : ConvolveCpuContext R) (convertFloatShort : ℚ → R × R → D)
    (transform : ℕ → Transform R) (device : ℕ → DeviceAnswer) :
    ℕ → Transmitter n R → List (Push n R D) → Option (Transmitter n R × List (Push n R D))
  | 0, t, log => some (t, log)
  | fuel + 1, t, log =>
    match pushBuffer c convertFloatShort t (transform log.length) (device log.length) with
    | none => none
    | some none => some (t, log)
    | some (some (t', w)) =>
      pushLoop c convertFloatShort transform device fuel t'
        (log ++ [⟨fun i => (t.sendBuffer i).window, pushedRows c t, transform log.length, w⟩])

/-- The radio interface, the results of the writes, and the chunks handed over. -/
structure Transmission (n : ℕ) (R D : Type) where
  radio : Transmitter n R
  written : List (Fin (n + 1) → Bool)
  log : List (Push n R D)

/-- `driveTransmitRadio`. -/
def driveTransmitRadio (c : ConvolveCpuContext R) (convertFloatShort : ℚ → R × R → D)
    (s : Transmission n R D) (call : MultiCall n R) : Option (Transmission n R D) :=
  if !s.radio.mOn then some s
  else
    let w i := radioifyVector (s.radio.sendBuffer i) (call.bursts i) (call.zeros i)
    let t := { s.radio with sendBuffer := fun i => (w i).2 }
    (pushLoop c convertFloatShort call.transform call.device (t.sendBuffer 0).availSamples t []).map
      fun r => ⟨r.1, s.written ++ [fun i => (w i).1], s.log ++ r.2⟩

/-- One call; `none` once a step has faulted. -/
def transmitStep (c : ConvolveCpuContext R) (convertFloatShort : ℚ → R × R → D) :
    Option (Transmission n R D) → MultiCall n R → Option (Transmission n R D)
  | none, _ => none
  | some s, call => driveTransmitRadio c convertFloatShort s call

/-! ## One physical channel -/

/-- A segment of a channel, resampled behind its history. -/
def upsampled (f : Prototype R) (x : ℤ → R × R) : List (R × R) :=
  (List.range outchunk).map (resample RESAMP_OUTRATE RESAMP_INRATE filtLen f.tap x)

/-- What `init` and `start` have fixed. -/
structure Transmits (f : Prototype R) (t : Transmitter n R) : Prop where
  on : t.mOn = true
  chans : n + 1 ≤ MCHANS - 1
  active : activeChannels (n + 1) = some t.active
  upsampler : t.upsampler =
    ((Resampler.new RESAMP_OUTRATE RESAMP_INRATE filtLen).init f.proto f.scale).2
  branches : t.synthesis.m = MCHANS
  blockLen : t.synthesis.blockLen = outchunk
  outer : t.outerSendBuffer.length = outchunk * MCHANS

/-- The send buffer of a channel after `k` segments of its stream. -/
structure Sends (b : RadioBuffer (R × R)) (stream : List (R × R)) (k : ℕ) : Prop where
  layout : b.toLayout = ⟨NUMCHUNKS, inchunk, filtLen, true⟩
  streams : b.Streams stream k

/-- The loop over the physical channels after the turns `done`: the channels it has come to have
sent segment `k`, and their rows are written; the others still have that segment. -/
structure Turns (f : Prototype R) (stream : Fin (n + 1) → List (R × R)) (k : ℕ)
    (windows : Fin (n + 1) → List (R × R)) (done : List (Fin MCHANS)) (t : Transmitter n R) :
    Prop where
  transmits : Transmits f t
  waiting : ∀ i, physicalChan n i ∉ done → Sends (t.sendBuffer i) (stream i) k ∧
    inchunk ≤ (t.sendBuffer i).availSamples ∧ (t.sendBuffer i).window = windows i
  sent : ∀ i, physicalChan n i ∈ done → Sends (t.sendBuffer i) (stream i) (k + 1)
  fed : ∀ i, physicalChan n i ∈ done →
    samples (t.synthesis.inputBuffer (physicalChan n i)) outchunk =
      upsampled f (streamAt filtLen (windows i))
  silent : ∀ p ∈ done, (∀ i, physicalChan n i ≠ p) →
    ∀ j : ℤ, 0 ≤ j → j < 2 * outchunk → t.synthesis.inputBuffer p j = 0

variable {f : Prototype R} {stream : Fin (n + 1) → List (R × R)} {k : ℕ}
  {windows : Fin (n + 1) → List (R × R)} {done : List (Fin MCHANS)} {t : Transmitter n R}

omit [CommRing R] in
/-- **A segment** is read behind its history. -/
theorem Sends.getReadSegment {b : RadioBuffer (R × R)} {stream : List (R × R)}
    (h : Sends b stream k) (hlen : inchunk ≤ b.availSamples) :
    ∃ off b', b.getReadSegment = (some off, b') ∧ filtLen ≤ off ∧ b'.segmentLen = inchunk ∧
      b.window = (stream.drop (k * inchunk)).take (filtLen + inchunk) ∧
      Mem.slice b'.buffer (off - filtLen) (filtLen + inchunk) = b.window ∧
      Sends b' stream (k + 1) := by
  have hseg : b.segmentLen = inchunk := congrArg Layout.segmentLen h.layout
  have hhLen : b.hLen = filtLen := congrArg Layout.hLen h.layout
  obtain ⟨off, b', hget, hoff, hwindow, hslice, hstreams, hlay⟩ :=
    h.streams.getReadSegment (by rw [hseg]; exact hlen)
  have hlay' := hlay.trans h.layout
  have hseg' : b'.segmentLen = inchunk := congrArg Layout.segmentLen hlay'
  have hhLen' : b'.hLen = filtLen := congrArg Layout.hLen hlay'
  rw [hseg, hhLen] at hwindow
  rw [hseg', hhLen'] at hslice
  exact ⟨off, b', hget, hhLen' ▸ hoff, hseg', hwindow, hslice, hlay', hstreams⟩

/-- The turn of a channel that is not active clears its row. -/
theorem Turns.reset (h : Turns f stream k windows done t) (c : ConvolveCpuContext R)
    {p : Fin MCHANS} (hp : ∀ i, physicalChan n i ≠ p) :
    ∃ t', pushChannel c t p = some t' ∧ Turns f stream k windows (done ++ [p]) t' := by
  have hoff : ¬ t.active p = true := by
    rw [active_iff h.transmits.chans h.transmits.active]
    rintro ⟨i, hi⟩
    exact hp i hi
  have hmem : ∀ i, physicalChan n i ∈ done ++ [p] ↔ physicalChan n i ∈ done := by
    intro i
    rw [List.mem_append, List.mem_singleton, or_iff_left (hp i)]
  refine ⟨{ t with synthesis := t.synthesis.resetBuffer p },
    by rw [pushChannel, if_pos (by simpa using hoff)], { h.transmits with }, ?_, ?_, ?_, ?_⟩
  · intro i hi
    rw [hmem] at hi
    exact h.waiting i hi
  · intro i hi
    rw [hmem] at hi
    exact h.sent i hi
  · intro i hi
    rw [hmem] at hi
    simp only [Synthesis.resetBuffer, Function.update_of_ne (hp i)]
    exact h.fed i hi
  · intro q hq hphys j h0 hlt
    by_cases hqp : q = p
    · subst hqp
      simp only [Synthesis.resetBuffer, Function.update_self, h.transmits.blockLen]
      rw [if_pos ⟨h0, hlt⟩]
    · have hdone : q ∈ done := by
        rcases List.mem_append.mp hq with hq | hq
        · exact hq
        · exact absurd (List.mem_singleton.mp hq) hqp
      simp only [Synthesis.resetBuffer, Function.update_of_ne hqp]
      exact h.silent q hdone hphys j h0 hlt

/-- The turn of an active channel writes its next segment, upsampled, to its row. -/
theorem Turns.feed (h : Turns f stream k windows done t) (sse3 : Bool) {i : Fin (n + 1)}
    (hi : physicalChan n i ∉ done) :
    ∃ t', pushChannel (convolveInit sse3) t (physicalChan n i) = some t' ∧
      Turns f stream k windows (done ++ [physicalChan n i]) t' := by
  have hconf := h.transmits
  have hon : t.active (physicalChan n i) = true :=
    (active_iff hconf.chans hconf.active _).mpr ⟨i, rfl⟩
  have hlog := getLogicalChan_physicalChan hconf.chans i
  obtain ⟨hsends, havail, hwindow⟩ := h.waiting i hi
  obtain ⟨off, b', hget, hoff, hseg, -, hslice, hsends'⟩ := hsends.getReadSegment havail
  rw [hwindow] at hslice
  have hpos : ¬ ((i.val : ℤ) < 0) := by omega
  have hlt : (i.val : ℤ).toNat < n + 1 := by omega
  have hfin : (⟨(i.val : ℤ).toNat, hlt⟩ : Fin (n + 1)) = i := Fin.ext (by simp)
  have hrow : samples (t.upsampler.rotate (convolveInit sse3) (around b'.buffer off) inchunk
      (t.synthesis.inputBuffer (physicalChan n i)) outchunk).2 outchunk =
      upsampled f (streamAt filtLen (windows i)) := by
    rw [hconf.upsampler]
    exact Resamp.samples_rotate_window (by decide) (by decide) (by decide) (by decide) (by decide)
      f sse3 hoff hslice _
  have hne : ∀ j, j ≠ i → physicalChan n j ≠ physicalChan n i := fun j hj heq =>
    hj (physicalChan_injective hconf.chans heq)
  have hmem : ∀ j, j ≠ i →
      (physicalChan n j ∈ done ++ [physicalChan n i] ↔ physicalChan n j ∈ done) := by
    intro j hj
    rw [List.mem_append, List.mem_singleton, or_iff_left (hne j hj)]
  simp only [pushChannel, hon, Bool.not_true, Bool.false_eq_true, if_false, hlog, hpos, hlt,
    dif_pos, hfin, hget, hseg, Synthesis.inputLen, hconf.blockLen]
  refine ⟨_, rfl, ⟨hconf.on, hconf.chans, hconf.active, hconf.upsampler, hconf.branches, rfl,
    hconf.outer⟩, ?_, ?_, ?_, ?_⟩
  · intro j hj
    have hji : j ≠ i := fun heq => hj (heq ▸ List.mem_append_right _ (List.mem_singleton_self _))
    rw [hmem j hji] at hj
    simp only [Function.update_of_ne hji]
    exact h.waiting j hj
  · intro j hj
    rcases eq_or_ne j i with rfl | hji
    · simp only [Function.update_self]
      exact hsends'
    · rw [hmem j hji] at hj
      simp only [Function.update_of_ne hji]
      exact h.sent j hj
  · intro j hj
    rcases eq_or_ne j i with rfl | hji
    · simp only [Function.update_self]
      exact hrow
    · rw [hmem j hji] at hj
      simp only [Function.update_of_ne (hne j hji)]
      exact h.fed j hj
  · intro q hq hphys j h0 hlt'
    have hdone : q ∈ done := by
      rcases List.mem_append.mp hq with hq | hq
      · exact hq
      · exact absurd (List.mem_singleton.mp hq).symm (hphys i)
    simp only [Function.update_of_ne (hphys i).symm]
    exact h.silent q hdone hphys j h0 hlt'

/-- **The loop over the channels**: every channel sends one segment, and every row is written. -/
theorem Turns.all (h : Turns f stream k windows [] t) (sse3 : Bool) :
    ∃ t', (List.finRange MCHANS).foldlM (pushChannel (convolveInit sse3)) t = some t' ∧
      Turns f stream k windows (List.finRange MCHANS) t' := by
  refine Loop.foldlM_induction h fun done p rest hsplit t h => ?_
  have hnodup := List.nodup_finRange MCHANS
  rw [hsplit] at hnodup
  have hp : p ∉ done := fun hmem =>
    List.disjoint_of_nodup_append hnodup hmem List.mem_cons_self
  by_cases hex : ∃ i, physicalChan n i = p
  · obtain ⟨i, rfl⟩ := hex
    exact h.feed sse3 hp
  · exact h.reset _ fun i hi => hex ⟨i, hi⟩

omit [CommRing R] in
theorem Sends.avail {b : RadioBuffer (R × R)} {stream : List (R × R)} (h : Sends b stream k) :
    b.availSamples + (k * inchunk + filtLen) = stream.length := by
  have havail := h.streams.avail
  rwa [congrArg Layout.segmentLen h.layout, congrArg Layout.hLen h.layout] at havail

/-! ## The streams -/

/-- A chunk: the rows that the filter was called with, and the output that the device got. -/
structure Push.Composed (convertFloatShort : ℚ → R × R → D) (f : Prototype R) (l : Push n R D) :
    Prop where
  fed : ∀ i, samples (l.rows (physicalChan n i)) outchunk =
    upsampled f (streamAt filtLen (l.windows i))
  silent : ∀ p, (∀ i, physicalChan n i ≠ p) →
    ∀ j : ℤ, 0 ≤ j → j < 2 * outchunk → l.rows p j = 0
  data : l.write.data 0 = (samples (l.transform l.rows).2 (outchunk * MCHANS)).map
    (convertFloatShort (1 / ((n + 1 : ℕ) : ℚ)))

/-- The account of a run: chunk `k` was made of segment `k` of the stream of every channel, which
begins with what lay at the end of the ring at the start, and the send buffers hold the rest. -/
structure Sent (convertFloatShort : ℚ → R × R → D) (f : Prototype R)
    (stream : Fin (n + 1) → List (R × R)) (t : Transmitter n R) (log : List (Push n R D)) :
    Prop where
  transmits : Transmits f t
  level : ∀ i, (stream i).length = (stream 0).length
  sends : ∀ i, Sends (t.sendBuffer i) (stream i) log.length
  windows : ∀ k (hk : k < log.length), ∀ i,
    log[k].windows i = ((stream i).drop (k * inchunk)).take (filtLen + inchunk)
  composed : ∀ l ∈ log, l.Composed convertFloatShort f

namespace Sent

variable {convertFloatShort : ℚ → R × R → D} {log : List (Push n R D)}

/-- As much is left on every channel as on channel 0. -/
theorem avail (h : Sent convertFloatShort f stream t log) (i : Fin (n + 1)) :
    (t.sendBuffer i).availSamples = (t.sendBuffer 0).availSamples := by
  have hi := (h.sends i).avail
  have h0 := (h.sends 0).avail
  have hlevel := h.level i
  omega

/-- The bursts of a call are appended to the streams. -/
theorem radioify (h : Sent convertFloatShort f stream t log) {bursts : Fin (n + 1) → List (R × R)}
    (zeros : Fin (n + 1) → Bool) (hbursts : ∀ i, (bursts i).length = 625)
    (hleft : (t.sendBuffer 0).availSamples < inchunk) :
    (∀ i, (radioifyVector (t.sendBuffer i) (bursts i) (zeros i)).1 = true) ∧
      Sent convertFloatShort f (fun i => stream i ++ burstSamples (bursts i) (zeros i))
        { t with sendBuffer := fun i =>
            (radioifyVector (t.sendBuffer i) (bursts i) (zeros i)).2 } log := by
  have hroom : filtLen + inchunk + 625 ≤ NUMCHUNKS * inchunk := by
    norm_num [filtLen, inchunk, NUMCHUNKS, RESAMP_INRATE]
  have hfit : ∀ i, (t.sendBuffer i).hLen + (t.sendBuffer i).availSamples + (bursts i).length ≤
      (t.sendBuffer i).bufferLen := by
    intro i
    rw [congrArg Layout.hLen (h.sends i).layout, RadioBuffer.bufferLen, (h.sends i).layout,
      hbursts i, h.avail i]
    simp only
    omega
  have hspec := fun i => (h.sends i).streams.radioify (zeros i) (hfit i)
  have htransmits := h.transmits
  refine ⟨fun i => (hspec i).1, ⟨htransmits.on, htransmits.chans, htransmits.active,
    htransmits.upsampler, htransmits.branches, htransmits.blockLen, htransmits.outer⟩,
    fun i => ?_, fun i => ?_, fun k hk i => ?_, h.composed⟩
  · rw [List.length_append, List.length_append, length_burstSamples, length_burstSamples,
      hbursts, hbursts, h.level i]
  · exact ⟨(hspec i).2.2.trans (h.sends i).layout, (hspec i).2.1⟩
  · have havail := (h.sends i).avail
    have hk' : k * inchunk + inchunk ≤ log.length * inchunk := by
      rw [← Nat.succ_mul]
      exact Nat.mul_le_mul_right _ hk
    have hle : k * inchunk + (filtLen + inchunk) ≤ (stream i).length := by omega
    exact (h.windows k hk i).trans (Mem.take_drop_append _ hle).symm

/-- `pushBuffer` stops when less than a segment is left, … -/
theorem pushBuffer_stop (h : Sent convertFloatShort f stream t log) (c : ConvolveCpuContext R)
    (hstop : (t.sendBuffer 0).availSamples < inchunk) (transform : Transform R)
    (d : DeviceAnswer) : pushBuffer c convertFloatShort t transform d = some none := by
  have hseg : (t.sendBuffer 0).getAvailSegments ≤ 0 := by
    rw [RadioBuffer.getAvailSegments, congrArg Layout.segmentLen (h.sends 0).layout,
      Nat.div_eq_of_lt hstop]
  rw [pushBuffer, if_pos hseg]

/-- … and makes a chunk of the next one of every channel otherwise. -/
theorem pushBuffer_go (h : Sent convertFloatShort f stream t log) (sse3 : Bool)
    (hgo : inchunk ≤ (t.sendBuffer 0).availSamples) (transform : Transform R) (d : DeviceAnswer) :
    ∃ t' w, pushBuffer (convolveInit sse3) convertFloatShort t transform d = some (some (t', w)) ∧
      Sent convertFloatShort f stream t' (log ++ [⟨fun i => (t.sendBuffer i).window,
        pushedRows (convolveInit sse3) t, transform, w⟩]) := by
  have hseg : ¬ (t.sendBuffer 0).getAvailSegments ≤ 0 := by
    rw [RadioBuffer.getAvailSegments, congrArg Layout.segmentLen (h.sends 0).layout, not_le]
    exact Nat.div_pos hgo (by decide)
  have hgo' : ∀ i, inchunk ≤ (t.sendBuffer i).availSamples := fun i => (h.avail i).symm ▸ hgo
  have hstart : Turns f stream log.length (fun i => (t.sendBuffer i).window) [] t :=
    ⟨h.transmits, fun i _ => ⟨h.sends i, hgo' i, rfl⟩, fun i hi => absurd hi List.not_mem_nil,
      fun i hi => absurd hi List.not_mem_nil, fun p hp => absurd hp List.not_mem_nil⟩
  obtain ⟨t₁, hloop, h₁⟩ := hstart.all sse3
  have hrows : pushedRows (convolveInit sse3) t = t₁.synthesis.inputBuffer := by
    rw [pushedRows, hloop]
    rfl
  have hlen : ¬ t₁.synthesis.outputLen ≠ t₁.outerSendBuffer.length := by
    rw [Synthesis.outputLen, h₁.transmits.outer, h₁.transmits.branches, h₁.transmits.blockLen]
    exact not_not.mpr rfl
  obtain ⟨out, hout, houtlen⟩ : ∃ out,
      samples (transform t₁.synthesis.inputBuffer).2 (outchunk * MCHANS) = out ∧
        out.length = outchunk * MCHANS := ⟨_, rfl, length_samples _ _⟩
  have hrotate : t₁.synthesis.rotate transform t₁.outerSendBuffer.length =
      some (out, { t₁.synthesis with inputBuffer := (transform t₁.synthesis.inputBuffer).1 }) := by
    rw [Synthesis.rotate, if_neg hlen, h₁.transmits.outer, ← hout]
  refine ⟨{ t₁ with
      synthesis := { t₁.synthesis with inputBuffer := (transform t₁.synthesis.inputBuffer).1 }
      outerSendBuffer := out
      underrun := d.underrun
      writeTimestamp := t₁.writeTimestamp + UInt64.ofNat d.numSent },
    ⟨fun _ => out.map (convertFloatShort (1 / ((n + 1 : ℕ) : ℚ))), t₁.writeTimestamp⟩, ?_, ?_⟩
  · simp only [pushBuffer, if_neg hseg, hloop, hrotate]
  · rw [hrows]
    refine ⟨⟨h₁.transmits.on, h₁.transmits.chans, h₁.transmits.active, h₁.transmits.upsampler,
      h₁.transmits.branches, h₁.transmits.blockLen, houtlen⟩, h.level, fun i => ?_,
      fun k hk i => ?_, ?_⟩
    · rw [List.length_append, List.length_singleton]
      exact h₁.sent i (List.mem_finRange _)
    · rcases Run.getElem_log_cases hk with ⟨hold, hget⟩ | ⟨rfl, hget⟩
      · rw [hget]
        exact h.windows k hold i
      · rw [hget]
        obtain ⟨-, -, -, -, -, hwindow, -⟩ := (h.sends i).getReadSegment (hgo' i)
        exact hwindow
    · exact Run.forall_mem_log h.composed ⟨fun i => h₁.fed i (List.mem_finRange _),
        fun p hp => h₁.silent p (List.mem_finRange _) hp, by rw [hout]⟩

/-- **The loop makes a chunk of every complete segment** and leaves less than one. -/
theorem pushLoop (sse3 : Bool) (transform : ℕ → Transform R) (device : ℕ → DeviceAnswer)
    (fuel : ℕ) : ∀ {t : Transmitter n R} {prior calls : List (Push n R D)},
    Sent convertFloatShort f stream t (prior ++ calls) → (t.sendBuffer 0).availSamples ≤ fuel →
    ∃ t' calls', Multi.pushLoop (convolveInit sse3) convertFloatShort transform device fuel t
        calls = some (t', calls') ∧
      Sent convertFloatShort f stream t' (prior ++ calls') ∧
      (t'.sendBuffer 0).availSamples < inchunk := by
  have hpos : 0 < inchunk := by decide
  induction fuel with
  | zero =>
    intro t prior calls h hfuel
    exact ⟨t, calls, rfl, h, by omega⟩
  | succ fuel ih =>
    intro t prior calls h hfuel
    by_cases hgo : inchunk ≤ (t.sendBuffer 0).availSamples
    · obtain ⟨t₁, w, hpush, h₁⟩ := h.pushBuffer_go sse3 hgo (transform calls.length)
        (device calls.length)
      have havail := (h.sends 0).avail
      have havail₁ := (h₁.sends 0).avail
      rw [List.length_append, List.length_singleton, Nat.succ_mul] at havail₁
      rw [List.append_assoc] at h₁
      obtain ⟨t', calls', hloop, h', hleft⟩ := ih h₁ (by omega)
      refine ⟨t', calls', ?_, h', hleft⟩
      rw [Multi.pushLoop, hpush]
      exact hloop
    · refine ⟨t, calls, ?_, h, not_le.mp hgo⟩
      rw [Multi.pushLoop, h.pushBuffer_stop _ (not_le.mp hgo)]

end Sent

/-! ## Any run -/

variable {convertFloatShort : ℚ → R × R → D}

/-- The account between two calls. -/
structure Between (convertFloatShort : ℚ → R × R → D) (f : Prototype R)
    (stream : Fin (n + 1) → List (R × R)) (s : Transmission n R D) : Prop where
  sent : Sent convertFloatShort f stream s.radio s.log
  left : (s.radio.sendBuffer 0).availSamples < inchunk
  written : ∀ w ∈ s.written, ∀ i, w i = true

theorem between_step {s : Transmission n R D} (h : Between convertFloatShort f stream s)
    (sse3 : Bool) {call : MultiCall n R} (hcall : ∀ i, (call.bursts i).length = 625) :
    ∃ s', transmitStep (convolveInit sse3) convertFloatShort (some s) call = some s' ∧
      Between convertFloatShort f
        (fun i => stream i ++ burstSamples (call.bursts i) (call.zeros i)) s' := by
  obtain ⟨hok, hsent⟩ := h.sent.radioify call.zeros hcall h.left
  rw [← List.append_nil s.log] at hsent
  obtain ⟨t, calls, hloop, hsent', hleft⟩ :=
    hsent.pushLoop sse3 call.transform call.device _ le_rfl
  refine ⟨⟨t, s.written ++ [fun i => (radioifyVector (s.radio.sendBuffer i) (call.bursts i)
    (call.zeros i)).1], s.log ++ calls⟩, ?_, hsent', hleft, Run.forall_mem_log h.written hok⟩
  rw [transmitStep, driveTransmitRadio, if_neg (by rw [h.sent.transmits.on]; decide)]
  simp only [hloop, Option.map_some]

/-- The samples submitted on a channel. -/
def submittedOn (calls : List (MultiCall n R)) (i : Fin (n + 1)) : List (R × R) :=
  submitted (calls.map MultiCall.toTxCall) i

theorem between_exec (sse3 : Bool) (calls : List (MultiCall n R)) :
    ∀ {s : Transmission n R D} {stream : Fin (n + 1) → List (R × R)},
    Between convertFloatShort f stream s → (∀ c ∈ calls, ∀ i, (c.bursts i).length = 625) →
    ∃ s', Run.exec (transmitStep (convolveInit sse3) convertFloatShort) (some s) calls = some s' ∧
      Between convertFloatShort f (fun i => stream i ++ submittedOn calls i) s' := by
  induction calls with
  | nil =>
    intro s stream h _
    refine ⟨s, rfl, ?_⟩
    simpa only [submittedOn, submitted, List.map_nil, List.flatMap_nil, List.append_nil] using h
  | cons c calls ih =>
    intro s stream h hok
    obtain ⟨s₁, hstep, h₁⟩ := between_step h sse3 (hok c List.mem_cons_self)
    obtain ⟨s', hexec, h'⟩ := ih h₁ fun c' hc' => hok c' (List.mem_cons_of_mem _ hc')
    refine ⟨s', ?_, ?_⟩
    · rw [Run.exec_cons, hstep, hexec]
    · simpa only [submittedOn, submitted, List.map_cons, List.flatMap_cons, List.append_assoc]
        using h'

/-- What lies at the end of the ring of a channel when the first burst is written. -/
def initialHistory (t : Transmitter n R) (i : Fin (n + 1)) : List (R × R) :=
  Mem.slice (t.sendBuffer i).buffer (t.sendBuffer i).bufferLen (t.sendBuffer i).hLen

theorem Synthesis.resetBuffers_lens (chans : ℕ) (s : Synthesis R) :
    (s.resetBuffers chans).m = s.m ∧ (s.resetBuffers chans).blockLen = s.blockLen := by
  refine List.foldlRecOn _ _ (motive := fun s' : Synthesis R =>
    s'.m = s.m ∧ s'.blockLen = s.blockLen) ⟨rfl, rfl⟩ fun s' h chan _ => ?_
  split_ifs
  · exact h
  · exact h

omit [CommRing R] in
theorem sends_fresh {b : RadioBuffer (R × R)} (h : Fresh b ⟨NUMCHUNKS, inchunk, filtLen, true⟩) :
    Sends b (Mem.slice b.buffer b.bufferLen b.hLen) 0 := by
  refine ⟨h.layout, RadioBuffer.streams_fresh h ?_ ?_ ?_ ?_⟩
  · rw [h.layout]
  · rw [RadioBuffer.bufferLen, h.layout]
    exact (by decide : 0 < NUMCHUNKS * inchunk)
  · rw [h.layout]
    exact (by decide : filtLen ≤ inchunk)
  · rw [h.layout]
    exact (by decide : 0 < NUMCHUNKS)

section Start

variable {t₀ : RadioInterface n (R × R)} {dn up : Prototype R}
  {sendMem recvMem : Fin (n + 1) → ℕ → R × R} {t : RadioInterfaceMulti n R}

/-- After `init` and `start` the send buffers are fresh, … -/
theorem fresh_start (ht : init t₀ dn up sendMem recvMem = some t) (rows : Fin MCHANS → ℤ → R)
    (d : DeviceStart) (i : Fin (n + 1)) :
    Fresh (((initTransmitter t rows).start d).2.sendBuffer i)
      ⟨NUMCHUNKS, inchunk, filtLen, true⟩ := by
  unfold init at ht
  split_ifs at ht with hchans
  obtain ⟨active, -, rfl⟩ := Option.map_eq_some_iff.mp ht
  exact Fresh.send_start ⟨rfl, rfl, rfl, rfl⟩ d

/-- … and the rest is set up. -/
theorem transmits_start (ht : init t₀ dn up sendMem recvMem = some t)
    (rows : Fin MCHANS → ℤ → R) {d : DeviceStart}
    (hstart : ((initTransmitter t rows).start d).1 = true) :
    Transmits up ((initTransmitter t rows).start d).2 := by
  have hon : ((initTransmitter t rows).start d).2.mOn = true := RadioInterface.mOn_of_start hstart
  obtain ⟨hm, hblockLen⟩ :=
    Synthesis.resetBuffers_lens (n + 1) (⟨MCHANS, outchunk, rows⟩ : Synthesis R)
  unfold init at ht
  split_ifs at ht with hchans
  obtain ⟨active, hactive, rfl⟩ := Option.map_eq_some_iff.mp ht
  refine ⟨hon, not_lt.mp hchans, hactive, rfl, hm, hblockLen, ?_⟩
  change (List.replicate (Synthesis.outputLen _) (0 : R × R)).length = _
  rw [List.length_replicate, Synthesis.outputLen, hm, hblockLen]

theorem between_start (ht : init t₀ dn up sendMem recvMem = some t) (rows : Fin MCHANS → ℤ → R)
    {d : DeviceStart} (hstart : ((initTransmitter t rows).start d).1 = true) :
    Between convertFloatShort up (initialHistory ((initTransmitter t rows).start d).2)
      ⟨((initTransmitter t rows).start d).2, [], []⟩ := by
  have hfresh := fresh_start ht rows d
  have hlength : ∀ i, (initialHistory ((initTransmitter t rows).start d).2 i).length = filtLen := by
    intro i
    rw [initialHistory, Mem.length_slice, (hfresh i).layout]
  refine ⟨⟨transmits_start ht rows hstart, fun i => ?_, fun i => sends_fresh (hfresh i),
    fun k hk => ?_, fun l hl => ?_⟩, ?_, fun w hw => ?_⟩
  · rw [hlength, hlength]
  · exact absurd hk (Nat.not_lt_zero k)
  · exact absurd hl List.not_mem_nil
  · change (((initTransmitter t rows).start d).2.sendBuffer 0).availSamples < inchunk
    rw [(hfresh 0).avail]
    decide
  · exact absurd hw List.not_mem_nil

end Start

/-! ## The rows -/

/-- Segment `k` of a stream, upsampled. -/
def upsampledSegment (f : Prototype R) (x : ℤ → R × R) (k : ℕ) : List (R × R) :=
  (List.range outchunk).map fun j =>
    resample RESAMP_OUTRATE RESAMP_INRATE filtLen f.tap x (outchunk * k + j)

/-- A window of a stream gives its segment. -/
theorem upsampled_window (f : Prototype R) (stream : List (R × R)) (k : ℕ) :
    upsampled f (streamAt filtLen ((stream.drop (k * inchunk)).take (filtLen + inchunk))) =
      upsampledSegment f (streamAt filtLen stream) k := by
  refine List.map_congr_left fun j hj => ?_
  have hindex : RESAMP_INRATE * j / RESAMP_OUTRATE < inchunk :=
    resample_index_lt (by decide) (by decide) (List.mem_range.mp hj)
  rw [outchunk, resample_block (by decide)]
  refine resample_congr (by decide) fun i hi => ?_
  generalize RESAMP_INRATE * j / RESAMP_OUTRATE = m at hindex
  rw [RadioBuffer.streamAt_take_drop (by omega) (by omega), Nat.mul_comm]
  rfl

/-- **The rows at every call of the filter**, with `written` written behind what lay in the rings:
the row of a channel that is not active is zero, the row of an active channel is the next segment of
its logical channel, which has no other row, and every call takes one segment off every channel. -/
structure Rows (convertFloatShort : ℚ → R × R → D) (f : Prototype R)
    (initial written : Fin (n + 1) → List (R × R)) (s : Transmission n R D) : Prop where
  accepted : ∀ w ∈ s.written, ∀ i, w i = true
  feeds : ∀ i : Fin (n + 1), ∃! p : Fin MCHANS,
    s.radio.active p = true ∧ getLogicalChan p (n + 1) = i.val
  logical : ∀ p : Fin MCHANS, s.radio.active p = true →
    ∃ i : Fin (n + 1), getLogicalChan p (n + 1) = i.val
  silent : ∀ l ∈ s.log, ∀ p, s.radio.active p = false →
    ∀ j : ℤ, 0 ≤ j → j < 2 * outchunk → l.rows p j = 0
  fed : ∀ k (hk : k < s.log.length), ∀ p, s.radio.active p = true →
    ∀ i : Fin (n + 1), getLogicalChan p (n + 1) = i.val →
    samples (s.log[k].rows p) outchunk =
      upsampledSegment f (streamAt filtLen (initial i ++ written i)) k
  windows : ∀ k (hk : k < s.log.length), ∀ i,
    s.log[k].windows i = ((initial i ++ written i).drop (k * inchunk)).take (filtLen + inchunk)
  consumed : ∀ i, s.log.length * inchunk + (s.radio.sendBuffer i).availSamples =
    (written i).length
  left : ∀ i, (s.radio.sendBuffer i).availSamples < inchunk
  data : ∀ l ∈ s.log, l.write.data 0 = (samples (l.transform l.rows).2 (outchunk * MCHANS)).map
    (convertFloatShort (1 / ((n + 1 : ℕ) : ℚ)))

omit [CommRing R] in
/-- A logical channel has its physical channel only. -/
theorem eq_physicalChan (hn : n + 1 ≤ MCHANS - 1) {active : Fin MCHANS → Bool}
    (h : activeChannels (n + 1) = some active) {p : Fin MCHANS} (hp : active p = true)
    {i : Fin (n + 1)} (hi : getLogicalChan p (n + 1) = i.val) : p = physicalChan n i := by
  obtain ⟨j, rfl⟩ := (active_iff hn h p).mp hp
  rw [getLogicalChan_physicalChan hn j] at hi
  rw [Fin.ext (by omega : j.val = i.val)]

theorem Between.rows {initial written : Fin (n + 1) → List (R × R)} {s : Transmission n R D}
    (h : Between convertFloatShort f (fun i => initial i ++ written i) s)
    (hinitial : ∀ i, (initial i).length = filtLen) :
    Rows convertFloatShort f initial written s := by
  have hchans := h.sent.transmits.chans
  have hactive := h.sent.transmits.active
  refine
    { accepted := h.written
      feeds := fun i => ?_
      logical := fun p hp => ?_
      silent := fun l hl p hp => (h.sent.composed l hl).silent p fun i hi => ?_
      fed := fun k hk p hp i hi => ?_
      windows := h.sent.windows
      consumed := fun i => ?_
      left := fun i => (h.sent.avail i).symm ▸ h.left
      data := fun l hl => (h.sent.composed l hl).data }
  · exact ⟨physicalChan n i, ⟨(active_iff hchans hactive _).mpr ⟨i, rfl⟩,
      getLogicalChan_physicalChan hchans i⟩, fun p hp => eq_physicalChan hchans hactive hp.1 hp.2⟩
  · obtain ⟨i, rfl⟩ := (active_iff hchans hactive p).mp hp
    exact ⟨i, getLogicalChan_physicalChan hchans i⟩
  · rw [(active_iff hchans hactive p).mpr ⟨i, hi⟩] at hp
    exact Bool.noConfusion hp
  · rw [eq_physicalChan hchans hactive hp hi, (h.sent.composed _ (List.getElem_mem hk)).fed i,
      h.sent.windows k hk i, upsampled_window]
  · have havail := (h.sent.sends i).avail
    rw [List.length_append, hinitial i] at havail
    omega

/-- **The rows are what they should be**: in every run of calls from a start, for one, two or three
channels, whatever the filter leaves in the rows. -/
theorem transmit_rows {t₀ : RadioInterface n (R × R)} {dn up : Prototype R}
    {sendMem recvMem : Fin (n + 1) → ℕ → R × R} {t : RadioInterfaceMulti n R}
    (ht : init t₀ dn up sendMem recvMem = some t) (rows : Fin MCHANS → ℤ → R) {d : DeviceStart}
    (hstart : ((initTransmitter t rows).start d).1 = true) (sse3 : Bool)
    (convertFloatShort : ℚ → R × R → D) (calls : List (MultiCall n R))
    (hcalls : ∀ c ∈ calls, ∀ i, (c.bursts i).length = 625) :
    ∃ s, Run.exec (transmitStep (convolveInit sse3) convertFloatShort)
        (some ⟨((initTransmitter t rows).start d).2, [], []⟩) calls = some s ∧
      Rows convertFloatShort up (initialHistory ((initTransmitter t rows).start d).2)
        (submittedOn calls) s := by
  obtain ⟨s, hexec, h⟩ := between_exec sse3 calls (between_start ht rows hstart) hcalls
  refine ⟨s, hexec, h.rows fun i => ?_⟩
  rw [initialHistory, Mem.length_slice, (fresh_start ht rows d i).layout]

/-- Two bursts for three channels, the second of them zeros on channel 1; the filter leaves ones. -/
def twoBursts : List (MultiCall 2 ℤ) :=
  [false, true].map fun zero =>
    { bursts := fun _ => List.replicate 625 (1, -1)
      zeros := fun i => zero && i.val == 1
      device := fun _ => ⟨768, false⟩
      transform := fun _ _ => (fun _ _ => 1, fun _ => 1) }

theorem transmit_rows_two :
    ∃ t, init (idle 2) delay delay (fun _ _ => 0) (fun _ _ => 0) = some t ∧
      ∃ s, Run.exec (transmitStep (convolveInit true) fun _ x => x)
          (some ⟨((initTransmitter t fun _ _ => 1).start ⟨true, 0, 0⟩).2, [], []⟩) twoBursts =
          some s ∧
        Rows (fun _ x => x) delay
          (initialHistory ((initTransmitter t fun _ _ => 1).start ⟨true, 0, 0⟩).2)
          (submittedOn twoBursts) s := by
  refine ⟨_, rfl, transmit_rows rfl (fun _ _ => 1) rfl true (fun _ x => x) twoBursts ?_⟩
  intro c hc i
  obtain ⟨zero, -, rfl⟩ := List.mem_map.mp hc
  exact List.length_replicate

end Multi
end Radio
end OsmoTrx
