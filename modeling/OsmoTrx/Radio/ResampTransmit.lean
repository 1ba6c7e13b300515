import OsmoTrx.Radio.Downsampled
import OsmoTrx.Radio.History

/-!
# Transmitting through the resampler

`driveTransmitRadio` with the `pushBuffer` of `radioInterfaceResamp.cpp`: a burst is written to the
send buffer, and as long as a segment is complete it is resampled, together with the history in
front of it, and handed to the device.

* `Sent` — the segments handed over are the beginning of the stream, each with its history, and the
  rest is in the send buffer.
* `Sent.radioify`, `Sent.pushBuffer_go`, `Sent.pushLoop` — it is kept by the burst of a call, by one
  chunk, and by the loop, which leaves less than a segment.
* `transmit_stream` — **the written bursts are resampled as one stream**, over any run.
-/

namespace OsmoTrx
namespace Radio
namespace Resamp

open Dsp
open Multi (Prototype filtLen)
open RadioBuffer (streamAt)

variable {R D : Type} [CommRing R]

/-! ## The code -/

/-- A turn of the loop over `pushBuffer`: what the filter is given to read, and what the device
gets. -/
structure Push (R D : Type) where
  window : List (R × R)
  write : DeviceWrite 0 D

/-- The loop over `pushBuffer`; each turn takes a segment off the send buffer. -/
def pushLoop (c : ConvolveCpuContext R) (convertFloatShort : ℚ → R × R → D)
    (device : ℕ → DeviceAnswer) :
    ℕ → RadioInterfaceResamp R → List (Push R D) → Option (RadioInterfaceResamp R × List (Push R D))
  | 0, t, log => some (t, log)
  | fuel + 1, t, log =>
    match pushBuffer c convertFloatShort t (device log.length) with
    | none => none
    | some none => some (t, log)
    | some (some (t', w)) =>
      pushLoop c convertFloatShort device fuel t' (log ++ [⟨(t.sendBuffer chan).window, w⟩])

/-- The radio interface, the results of the writes, and the chunks handed over. -/
structure Transmission (R D : Type) where
  radio : RadioInterfaceResamp R
  written : List Bool
  log : List (Push R D)

/-- `driveTransmitRadio`. -/
def driveTransmitRadio (c : ConvolveCpuContext R) (convertFloatShort : ℚ → R × R → D)
    (s : Transmission R D) (call : TxCall 0 (R × R)) : Option (Transmission R D) :=
  if !s.radio.mOn then some s
  else
    let w := radioifyVector (s.radio.sendBuffer chan) (call.bursts chan) (call.zeros chan)
    let t := { s.radio with sendBuffer := fun _ => w.2 }
    (pushLoop c convertFloatShort call.device (t.sendBuffer chan).availSamples t []).map fun r =>
      ⟨r.1, s.written ++ [w.1], s.log ++ r.2⟩

/-- One call; `none` once a segment that is not there has been read. -/
def transmitStep (c : ConvolveCpuContext R) (convertFloatShort : ℚ → R × R → D) :
    Option (Transmission R D) → TxCall 0 (R × R) → Option (Transmission R D)
  | none, _ => none
  | some s, call => driveTransmitRadio c convertFloatShort s call

/-! ## One segment -/

omit [CommRing R] in
/-- A sample around a pointer. -/
theorem samplesOf_around (m : ℕ → R × R) (segment : ℕ) (t : ℤ) :
    Resampler.samplesOf (around m segment) t = m ((segment : ℤ) + t).toNat := by
  have heven : 2 * t / 2 = t := by omega
  have hodd : (2 * t + 1) / 2 = t := by omega
  have hzero : 2 * t % 2 = 0 := by omega
  have hone : ¬ (2 * t + 1) % 2 = 0 := by omega
  rw [Resampler.samplesOf, Loop.loadPair, around, around, heven, hodd, if_pos hzero, if_neg hone]

variable {p q b : ℕ}

/-- What `rotate` leaves of a segment is its window resampled, whatever was there before. -/
theorem samples_rotate_window (hq : 0 < q) (hp : 0 < p) (hfits : q * b ≤ MAX_OUTPUT_LEN)
    (hhead : filtLen ≤ p * b) (hint : p * b < 2 ^ 31) (f : Prototype R) (sse3 : Bool) {m : ℕ → R × R} {off : ℕ}
    {w : List (R × R)} (hoff : filtLen ≤ off)
    (hslice : Mem.slice m (off - filtLen) (filtLen + p * b) = w) (out : ℤ → R) :
    Multi.samples (((Resampler.new q p filtLen).init f.proto f.scale).2.rotate (convolveInit sse3)
      (around m off) (p * b) out (q * b)).2 (q * b) =
      (List.range (q * b)).map (resample q p filtLen f.tap (streamAt filtLen w)) := by
  rw [Resampler.rotate_eq hq hp (by decide) hfits hhead hint sse3 f.proto f.scale _ out,
    Multi.samples_pairs]
  refine List.map_congr_left fun j hj => ?_
  refine resample_congr hq fun i hi => ?_
  have hindex : p * j / q < p * b := resample_index_lt hq hp (List.mem_range.mp hj)
  generalize p * j / q = n at hindex
  rw [samplesOf_around]
  exact RadioBuffer.streamAt_window hoff hslice (by omega) (by omega)

/-! ## The stream -/

/-- The account of a run: of the stream, which begins with what lay at the end of the ring at the
start, the segments of `log` have been handed over, each resampled behind its history, and the send
buffer holds the rest. -/
structure Sent (convertFloatShort : ℚ → R × R → D) (f : Prototype R) (p q b : ℕ) (scaling : ℚ)
    (stream : List (R × R)) (t : RadioInterfaceResamp R) (log : List (Push R D)) : Prop where
  on : t.mOn = true
  upsampler : t.upsampler = ((Resampler.new q p filtLen).init f.proto f.scale).2
  inchunk : t.resamp_inchunk = p * b
  outchunk : t.resamp_outchunk = q * b
  scaling_eq : t.powerScaling 0 = scaling
  layout : (t.sendBuffer 0).toLayout = ⟨NUMCHUNKS, p * b, filtLen, true⟩
  streams : (t.sendBuffer 0).Streams stream log.length
  windows : ∀ k (hk : k < log.length),
    log[k].window = (stream.drop (k * (p * b))).take (filtLen + p * b)
  data : ∀ l ∈ log, l.write.data 0 = ((List.range (q * b)).map
    (resample q p filtLen f.tap (streamAt filtLen l.window))).map (convertFloatShort scaling)

namespace Sent

variable {convertFloatShort : ℚ → R × R → D} {f : Prototype R} {scaling : ℚ}
  {stream : List (R × R)} {t : RadioInterfaceResamp R} {log : List (Push R D)}

theorem segmentLen (h : Sent convertFloatShort f p q b scaling stream t log) :
    (t.sendBuffer 0).segmentLen = p * b := by
  rw [h.layout]

theorem hLen (h : Sent convertFloatShort f p q b scaling stream t log) :
    (t.sendBuffer 0).hLen = filtLen := by
  rw [h.layout]

theorem read_le (h : Sent convertFloatShort f p q b scaling stream t log) :
    log.length * (p * b) + filtLen ≤ stream.length := by
  have hle := h.streams.read_le
  rwa [h.segmentLen, h.hLen] at hle

/-- The burst of a call is appended to the stream. -/
theorem radioify (h : Sent convertFloatShort f p q b scaling stream t log) (hr : Rates p q b)
    {burst : List (R × R)} (zero : Bool) (hburst : burst.length ≤ 625)
    (hleft : (t.sendBuffer 0).availSamples < p * b) :
    (radioifyVector (t.sendBuffer 0) burst zero).1 = true ∧
      Sent convertFloatShort f p q b scaling (stream ++ burstSamples burst zero)
        { t with sendBuffer := fun _ => (radioifyVector (t.sendBuffer 0) burst zero).2 } log := by
  have hroom := hr.room
  have hlen : (t.sendBuffer 0).bufferLen = NUMCHUNKS * (p * b) := by
    rw [RadioBuffer.bufferLen, h.layout]
  have hfit : (t.sendBuffer 0).hLen + (t.sendBuffer 0).availSamples + burst.length ≤
      (t.sendBuffer 0).bufferLen := by
    rw [h.hLen, hlen]
    omega
  obtain ⟨hok, hstreams, hlay⟩ := h.streams.radioify zero hfit
  refine ⟨hok, h.on, h.upsampler, h.inchunk, h.outchunk, h.scaling_eq, hlay.trans h.layout,
    hstreams, fun k hk => ?_, h.data⟩
  have hle := h.read_le
  have hk' : k * (p * b) + p * b ≤ log.length * (p * b) := by
    rw [← Nat.succ_mul]
    exact Nat.mul_le_mul_right _ hk
  rw [h.windows k hk, Mem.take_drop_append _ (by omega)]

/-- `pushBuffer` stops when less than a segment is left, … -/
theorem pushBuffer_stop (h : Sent convertFloatShort f p q b scaling stream t log)
    (c : ConvolveCpuContext R) (hstop : (t.sendBuffer 0).availSamples < p * b)
    (d : DeviceAnswer) : pushBuffer c convertFloatShort t d = some none := by
  have hseg : (t.sendBuffer 0).getAvailSegments ≤ 0 := by
    rw [RadioBuffer.getAvailSegments, h.segmentLen, Nat.div_eq_of_lt hstop]
  rw [pushBuffer, if_pos hseg]

/-- … and hands over the next one otherwise. -/
theorem pushBuffer_go (h : Sent convertFloatShort f p q b scaling stream t log) (hr : Rates p q b)
    (sse3 : Bool) (hgo : p * b ≤ (t.sendBuffer 0).availSamples) (d : DeviceAnswer) :
    ∃ t' w, pushBuffer (convolveInit sse3) convertFloatShort t d = some (some (t', w)) ∧
      (t'.sendBuffer 0).availSamples + p * b = (t.sendBuffer 0).availSamples ∧
      Sent convertFloatShort f p q b scaling stream t'
        (log ++ [⟨(t.sendBuffer 0).window, w⟩]) := by
  have hpos : 0 < p * b := Nat.mul_pos hr.p_pos hr.b_pos
  have hseg : ¬ (t.sendBuffer 0).getAvailSegments ≤ 0 := by
    rw [RadioBuffer.getAvailSegments, h.segmentLen, not_le]
    exact Nat.div_pos hgo hpos
  obtain ⟨off, b', hget, hoff, hwindow, hslice, hstreams, hlay⟩ := h.streams.getReadSegment
    (by rw [h.segmentLen]; exact hgo)
  have hlay' : b'.toLayout = ⟨NUMCHUNKS, p * b, filtLen, true⟩ := hlay.trans h.layout
  have hhLen : b'.hLen = filtLen := congrArg Layout.hLen hlay'
  have hsegLen : b'.segmentLen = p * b := congrArg Layout.segmentLen hlay'
  have havail := h.streams.avail
  have havail' := hstreams.avail
  rw [h.segmentLen, h.hLen] at havail hwindow
  rw [hsegLen, hhLen, Nat.succ_mul] at havail'
  rw [hsegLen, hhLen] at hslice
  have hrot := samples_rotate_window hr.q_pos hr.p_pos hr.fits_outer hr.head
    (hr.fits.trans_lt (by decide)) f sse3 (hhLen ▸ hoff) hslice t.outerSendBuffer
  refine ⟨{ t with
      sendBuffer := fun _ => b'
      outerSendBuffer := (t.upsampler.rotate (convolveInit sse3) (around b'.buffer off) (p * b)
        t.outerSendBuffer (q * b)).2
      underrun := d.underrun
      writeTimestamp := t.writeTimestamp + UInt64.ofNat (q * b) },
    ⟨fun _ => ((List.range (q * b)).map (resample q p filtLen f.tap
      (streamAt filtLen (t.sendBuffer 0).window))).map (convertFloatShort scaling),
      t.writeTimestamp⟩, ?_, ?_, ?_⟩
  · rw [pushBuffer, if_neg hseg, hget]
    simp only [h.inchunk, h.outchunk, h.upsampler, h.scaling_eq, hrot]
  · change b'.availSamples + p * b = _
    omega
  · refine ⟨h.on, h.upsampler, h.inchunk, h.outchunk, h.scaling_eq, hlay', ?_, ?_, ?_⟩
    · rw [List.length_append, List.length_singleton]
      exact hstreams
    · intro k hk
      rcases Run.getElem_log_cases hk with ⟨hold, hget'⟩ | ⟨rfl, hget'⟩
      · rw [hget']
        exact h.windows k hold
      · rw [hget']
        exact hwindow
    · exact Run.forall_mem_log h.data rfl

/-- **The loop hands over every complete segment** and leaves less than one. -/
theorem pushLoop (hr : Rates p q b) (sse3 : Bool) (device : ℕ → DeviceAnswer) (fuel : ℕ) :
    ∀ {t : RadioInterfaceResamp R} {prior calls : List (Push R D)},
    Sent convertFloatShort f p q b scaling stream t (prior ++ calls) →
    (t.sendBuffer 0).availSamples ≤ fuel →
    ∃ t' calls', Resamp.pushLoop (convolveInit sse3) convertFloatShort device fuel t calls =
        some (t', calls') ∧
      Sent convertFloatShort f p q b scaling stream t' (prior ++ calls') ∧
      (t'.sendBuffer 0).availSamples < p * b := by
  have hpos : 0 < p * b := Nat.mul_pos hr.p_pos hr.b_pos
  induction fuel with
  | zero =>
    intro t prior calls h hfuel
    exact ⟨t, calls, rfl, h, by omega⟩
  | succ fuel ih =>
    intro t prior calls h hfuel
    by_cases hgo : p * b ≤ (t.sendBuffer 0).availSamples
    · obtain ⟨t₁, w, hpush, havail, h₁⟩ := h.pushBuffer_go hr sse3 hgo (device calls.length)
      rw [List.append_assoc] at h₁
      obtain ⟨t', calls', hloop, h', hleft⟩ := ih h₁ (by omega)
      refine ⟨t', calls', ?_, h', hleft⟩
      rw [Resamp.pushLoop, hpush]
      exact hloop
    · refine ⟨t, calls, ?_, h, not_le.mp hgo⟩
      rw [Resamp.pushLoop, h.pushBuffer_stop _ (not_le.mp hgo)]

end Sent

/-! ## Any run -/

variable {convertFloatShort : ℚ → R × R → D} {f : Prototype R} {scaling : ℚ}
  {stream : List (R × R)}

/-- The account between two calls. -/
structure Between (convertFloatShort : ℚ → R × R → D) (f : Prototype R) (p q b : ℕ) (scaling : ℚ)
    (stream : List (R × R)) (s : Transmission R D) : Prop where
  sent : Sent convertFloatShort f p q b scaling stream s.radio s.log
  left : (s.radio.sendBuffer 0).availSamples < p * b
  written : ∀ w ∈ s.written, w = true

theorem between_step {s : Transmission R D} (hr : Rates p q b)
    (h : Between convertFloatShort f p q b scaling stream s) (sse3 : Bool)
    {call : TxCall 0 (R × R)} (hcall : (call.bursts 0).length ≤ 625) :
    ∃ s', transmitStep (convolveInit sse3) convertFloatShort (some s) call = some s' ∧
      Between convertFloatShort f p q b scaling
        (stream ++ burstSamples (call.bursts 0) (call.zeros 0)) s' := by
  obtain ⟨hok, hsent⟩ := h.sent.radioify hr (call.zeros 0) hcall h.left
  rw [← List.append_nil s.log] at hsent
  obtain ⟨t, calls, hloop, hsent', hleft⟩ := hsent.pushLoop hr sse3 call.device _ le_rfl
  refine ⟨⟨t, s.written ++ [(radioifyVector (s.radio.sendBuffer 0) (call.bursts 0)
    (call.zeros 0)).1], s.log ++ calls⟩, ?_, hsent', hleft, Run.forall_mem_log h.written hok⟩
  rw [transmitStep, driveTransmitRadio, if_neg (by rw [h.sent.on]; decide)]
  simp only [chan_eq, hloop, Option.map_some]

theorem between_exec (hr : Rates p q b) (sse3 : Bool) (calls : List (TxCall 0 (R × R))) :
    ∀ {s : Transmission R D} {stream : List (R × R)},
    Between convertFloatShort f p q b scaling stream s →
    (∀ c ∈ calls, (c.bursts 0).length ≤ 625) →
    ∃ s', Run.exec (transmitStep (convolveInit sse3) convertFloatShort) (some s) calls = some s' ∧
      Between convertFloatShort f p q b scaling (stream ++ submitted calls 0) s' := by
  induction calls with
  | nil =>
    intro s stream h _
    refine ⟨s, rfl, ?_⟩
    simpa only [submitted, List.flatMap_nil, List.append_nil] using h
  | cons c calls ih =>
    intro s stream h hok
    obtain ⟨s₁, hstep, h₁⟩ := between_step hr h sse3 (hok c List.mem_cons_self)
    obtain ⟨s', hexec, h'⟩ := ih h₁ fun c' hc' => hok c' (List.mem_cons_of_mem _ hc')
    refine ⟨s', ?_, ?_⟩
    · rw [Run.exec_cons, hstep, hexec]
    · simpa only [submitted, List.flatMap_cons, List.append_assoc] using h'

/-- What lies at the end of the ring when the first burst is written. -/
def initialHistory (t : RadioInterfaceResamp R) : List (R × R) :=
  Mem.slice (t.sendBuffer chan).buffer (t.sendBuffer chan).bufferLen (t.sendBuffer chan).hLen

theorem between_start {dn up : Prototype R} {t : Receiver R} (h : Initialised dn up p q b t)
    (hr : Rates p q b) (hon : t.mOn = true) :
    Between convertFloatShort up p q b (t.powerScaling 0)
      (initialHistory t.toRadioInterfaceResamp) ⟨t.toRadioInterfaceResamp, [], []⟩ := by
  have hpos : 0 < p * b := Nat.mul_pos hr.p_pos hr.b_pos
  have hlen : (t.sendBuffer 0).bufferLen = NUMCHUNKS * (p * b) := by
    rw [RadioBuffer.bufferLen, h.send.layout]
  have hstreams : (t.sendBuffer 0).Streams (initialHistory t.toRadioInterfaceResamp) 0 := by
    refine RadioBuffer.streams_fresh h.send ?_ ?_ ?_ ?_
    · rw [h.send.layout]
    · rw [hlen]
      exact Nat.mul_pos (by decide) hpos
    · rw [h.send.layout]
      exact hr.head
    · rw [h.send.layout]
      exact (by decide : 0 < NUMCHUNKS)
  refine ⟨⟨hon, h.upsampler, h.inchunk, h.outchunk, rfl, h.send.layout, hstreams, ?_, ?_⟩, ?_, ?_⟩
  · intro k hk
    exact absurd hk (Nat.not_lt_zero k)
  · intro l hl
    exact absurd hl List.not_mem_nil
  · change (t.sendBuffer 0).availSamples < p * b
    rw [h.send.avail]
    exact hpos
  · intro w hw
    exact absurd hw List.not_mem_nil

/-- **Transmit streaming**, with `written` written behind what lay in the ring: every write
succeeds, less than a segment is left, in front of every segment lie the samples that come before
it, and what is handed to the device is the stream resampled, at every output whose filter window
lies in what has been written. -/
structure Streaming (convertFloatShort : ℚ → R × R → D) (f : Prototype R) (p q b : ℕ)
    (scaling : ℚ) (initial written : List (R × R)) (s : Transmission R D) : Prop where
  accepted : ∀ w ∈ s.written, w = true
  left : (s.radio.sendBuffer 0).availSamples < p * b
  count : s.log.length = written.length / (p * b)
  history : ∀ k (hk : k < s.log.length),
    s.log[k].window = ((initial ++ written).drop (k * (p * b))).take (filtLen + p * b)
  output : (s.log.flatMap fun l => l.write.data 0) =
    ((List.range (q * b * s.log.length)).map
      (resample q p filtLen f.tap (streamAt filtLen (initial ++ written)))).map
        (convertFloatShort scaling)
  inside : ∀ x : ℤ → R × R, (∀ i (hi : i < written.length), x i = written[i]) →
    ∀ j < q * b * s.log.length, filtLen ≤ p * j / q + 1 →
    (s.log.flatMap fun l => l.write.data 0)[j]? =
      some (convertFloatShort scaling (resample q p filtLen f.tap x j))

/-- The windows resampled one by one are the stream resampled. -/
theorem Sent.output {t : RadioInterfaceResamp R} {log : List (Push R D)}
    (h : Sent convertFloatShort f p q b scaling stream t log) (hr : Rates p q b) :
    (log.flatMap fun l => l.write.data 0) = ((List.range (q * b * log.length)).map
      (resample q p filtLen f.tap (streamAt filtLen stream))).map (convertFloatShort scaling) := by
  have hdata : (log.flatMap fun l => l.write.data 0) =
      ((log.map fun l => streamAt filtLen l.window).flatMap fun y =>
        (List.range (q * b)).map (resample q p filtLen f.tap y)).map
          (convertFloatShort scaling) := by
    rw [List.flatMap_map, List.map_flatMap]
    exact List.flatMap_congr h.data
  have hlen : (log.map fun l => streamAt filtLen l.window).length = log.length :=
    List.length_map _
  rw [hdata, ← hlen, flatMap_resample (x := streamAt filtLen stream) hr.q_pos hr.p_pos]
  intro k hk t hlo hhi
  rw [hlen] at hk
  have hcell : ((k * (p * b) : ℕ) : ℤ) + t = (p * b : ℕ) * k + t := by
    push_cast
    ring
  rw [List.getElem_map, h.windows k hk, RadioBuffer.streamAt_take_drop hlo.le hhi, hcell]

theorem Between.streaming {initial written : List (R × R)} {s : Transmission R D}
    (h : Between convertFloatShort f p q b scaling (initial ++ written) s)
    (hinitial : initial.length = filtLen) (hr : Rates p q b) :
    Streaming convertFloatShort f p q b scaling initial written s := by
  have hpos : 0 < p * b := Nat.mul_pos hr.p_pos hr.b_pos
  have havail := h.sent.streams.avail
  rw [h.sent.segmentLen, h.sent.hLen, List.length_append, hinitial] at havail
  have hleft := h.left
  have houtput := h.sent.output hr
  refine ⟨h.written, hleft, ?_, h.sent.windows, houtput, fun x hx j hj hin => ?_⟩
  · refine (Nat.div_eq_of_lt_le (by omega) ?_).symm
    rw [Nat.succ_mul]
    omega
  · have hindex : p * j / q < p * b * s.log.length := by
      rw [Nat.mul_assoc] at hj ⊢
      exact resample_index_lt hr.q_pos hr.p_pos hj
    have hwritten : p * b * s.log.length ≤ written.length := by
      rw [Nat.mul_comm]
      omega
    have hsame : resample q p filtLen f.tap (streamAt filtLen (initial ++ written)) j =
        resample q p filtLen f.tap x j := by
      refine resample_congr hr.q_pos fun i hi => ?_
      generalize p * j / q = n at hindex hin
      have hcell : (((n : ℤ) - i) + filtLen).toNat = initial.length + (n - i) := by omega
      have hle : n - i < written.length := by omega
      rw [RadioBuffer.streamAt, hcell, List.getElem?_append_right (Nat.le_add_right _ _),
        Nat.add_sub_cancel_left, List.getElem?_eq_getElem hle, Option.getD_some, ← hx _ hle]
      congr 1
      omega
    rw [houtput, List.getElem?_map, List.getElem?_map, List.getElem?_range hj, Option.map_some,
      Option.map_some, hsame]

/-- **The written bursts are resampled as one stream**, in every run of calls from a start. -/
theorem transmit_stream {t₀ : RadioInterface 0 (R × R)} {type : InterfaceType}
    {dn up : Prototype R} {sendMem recvMem : ℕ → R × R} {t : Receiver R}
    (ht : init t₀ type dn up sendMem recvMem = some t) (hsps : t₀.mSPSRx = 1 ∨ t₀.mSPSRx = 4)
    {d : DeviceStart} (hstart : (t.start d).1 = true) (sse3 : Bool)
    (convertFloatShort : ℚ → R × R → D) (calls : List (TxCall 0 (R × R)))
    (hcalls : ∀ c ∈ calls, (c.bursts 0).length ≤ 625) :
    ∃ p q s, type.rates = some (p, q) ∧
      Run.exec (transmitStep (convolveInit sse3) convertFloatShort)
        (some ⟨(t.start d).2.toRadioInterfaceResamp, [], []⟩) calls = some s ∧
      Streaming convertFloatShort up p q (4 * t₀.mSPSRx) ((t.start d).2.powerScaling 0)
        (initialHistory (t.start d).2.toRadioInterfaceResamp) (submitted calls 0) s := by
  obtain ⟨p, q, hrates, hinit⟩ := initialised_init ht
  have hr := rates_of_type hsps hrates
  have hon : (t.start d).2.mOn = true := RadioInterface.mOn_of_start hstart
  have hbetween : Between convertFloatShort up p q (4 * t₀.mSPSRx) ((t.start d).2.powerScaling 0)
      (initialHistory (t.start d).2.toRadioInterfaceResamp)
      ⟨(t.start d).2.toRadioInterfaceResamp, [], []⟩ := between_start (hinit.start d) hr hon
  obtain ⟨s, hexec, h⟩ := between_exec hr sse3 calls hbetween hcalls
  have hlen : (initialHistory (t.start d).2.toRadioInterfaceResamp).length = filtLen := by
    rw [initialHistory, chan_eq, Mem.length_slice, (hinit.start d).send.layout]
  exact ⟨p, q, s, hrates, hexec, h.streaming hlen hr⟩

/-- Three bursts, the second of them zeros. -/
def threeBursts : List (TxCall 0 (ℤ × ℤ)) :=
  [(625, false), (625, true), (157, false)].map fun r =>
    ⟨fun _ => List.replicate r.1 (1, -1), fun _ => r.2, fun _ => ⟨384, false⟩⟩

theorem threeBursts_length : ∀ c ∈ threeBursts, (c.bursts 0).length ≤ 625 := by
  have hle : ∀ r ∈ [(625, false), (625, true), (157, false)], r.1 ≤ 625 := by decide
  intro c hc
  obtain ⟨r, hr, rfl⟩ := List.mem_map.mp hc
  rw [List.length_replicate]
  exact hle r hr

theorem transmit_stream_three :
    ∃ t, init (Multi.idle 0) .RESAMP_64M Multi.delay Multi.delay (fun _ => 0) (fun _ => 0) =
        some t ∧
      ∃ p q s, InterfaceType.RESAMP_64M.rates = some (p, q) ∧
        Run.exec (transmitStep (convolveInit true) fun _ x => x)
          (some ⟨(t.start ⟨true, 0, 0⟩).2.toRadioInterfaceResamp, [], []⟩) threeBursts = some s ∧
        Streaming (fun _ x => x) Multi.delay p q (4 * (Multi.idle 0).mSPSRx)
          ((t.start ⟨true, 0, 0⟩).2.powerScaling 0)
          (initialHistory (t.start ⟨true, 0, 0⟩).2.toRadioInterfaceResamp)
          (submitted threeBursts 0) s :=
  ⟨_, rfl, transmit_stream rfl (.inl rfl) rfl true (fun _ x => x) threeBursts threeBursts_length⟩

end Resamp
end Radio
end OsmoTrx
