import OsmoTrx.Radio.Interface
import OsmoTrx.Lib.Run

/-!
# The transmit path

`driveTransmitRadio` of `radioInterface.cpp` with `radioifyVector` and `pushBuffer`: a burst
for every channel is written to the send buffers, and as many chunks as are complete are
handed to the device.  Only the buffer of channel 0 is asked whether a chunk is complete;
reading a chunk that is not there is the result `none`.

* `radioifyVector_spec`, `drain_spec` — one channel.
* `Stream` — the chunks handed over are the beginning of what was submitted, and the rest
  is in the buffers.
* `stream_radioify`, `stream_pushBuffer`, `stream_pushLoop` — it is kept by the bursts of
  a call, by one chunk, and by the loop, which leaves less than a chunk.
* `transmit_integrity` — **the device gets the submitted samples, in order and in time**.
-/

namespace OsmoTrx
namespace Radio

open GSM Trx

variable {n : ℕ} {S D : Type}

/-! ## The code -/

/-- `radioifyVector`: the result of the write, which the source does not look at, and the
buffer. -/
def radioifyVector [Zero S] (b : RadioBuffer S) (wVector : List S) (zero : Bool) :
    Bool × RadioBuffer S :=
  if zero then b.zero wVector.length else b.write wVector

/-- The samples of the segment `getReadSegment` points to. -/
def RadioBuffer.drain (b : RadioBuffer S) : Option (List S × RadioBuffer S) :=
  match b.getReadSegment with
  | (none, _) => none
  | (some segment, b) => some (Mem.slice b.buffer segment b.segmentLen, b)

/-- What `writeSamples` is called with. -/
structure DeviceWrite (n : ℕ) (D : Type) where
  data : Fin (n + 1) → List D
  timestamp : UInt64

/-- What `writeSamples` answers. -/
structure DeviceAnswer where
  numSent : ℕ
  underrun : Bool

/-- `pushBuffer`: hand a chunk to the device, if channel 0 has one; `some none` is the
result `false`. -/
def pushBuffer (convertFloatShort : ℚ → S → D) (t : RadioInterface n S) (d : DeviceAnswer) :
    Option (Option (RadioInterface n S × DeviceWrite n D)) :=
  if (t.sendBuffer 0).getAvailSegments < 1 then some none
  else
    match allSome fun i => (t.sendBuffer i).drain with
    | none => none
    | some r =>
      some (some (
        { t with
          sendBuffer := fun i => (r i).2
          underrun := d.underrun
          writeTimestamp := t.writeTimestamp + UInt64.ofNat d.numSent },
        { data := fun i => (r i).1.map (convertFloatShort (t.powerScaling i))
          timestamp := t.writeTimestamp }))

/-- The loop over `pushBuffer`; each turn takes a segment off the buffer of channel 0. -/
def pushLoop (convertFloatShort : ℚ → S → D) (device : ℕ → DeviceAnswer) :
    ℕ → RadioInterface n S → List (DeviceWrite n D) →
    Option (RadioInterface n S × List (DeviceWrite n D))
  | 0, t, log => some (t, log)
  | fuel + 1, t, log =>
    match pushBuffer convertFloatShort t (device log.length) with
    | none => none
    | some none => some (t, log)
    | some (some (t, w)) => pushLoop convertFloatShort device fuel t (log ++ [w])

/-- A call of `driveTransmitRadio`, and the answers of the device during the call. -/
structure TxCall (n : ℕ) (S : Type) where
  bursts : Fin (n + 1) → List S
  zeros : Fin (n + 1) → Bool
  device : ℕ → DeviceAnswer

/-- What a call does: the radio interface afterwards, the results of the writes to the
send buffers, and the chunks handed to the device. -/
structure Transmitted (n : ℕ) (S D : Type) where
  radio : RadioInterface n S
  written : Fin (n + 1) → Bool
  chunks : List (DeviceWrite n D)

/-- `driveTransmitRadio`. -/
def driveTransmitRadio [Zero S] (convertFloatShort : ℚ → S → D) (t : RadioInterface n S)
    (c : TxCall n S) : Option (Transmitted n S D) :=
  if !t.mOn then some ⟨t, fun _ => true, []⟩
  else
    let w i := radioifyVector (t.sendBuffer i) (c.bursts i) (c.zeros i)
    let t := { t with sendBuffer := fun i => (w i).2 }
    (pushLoop convertFloatShort c.device (t.sendBuffer 0).availSamples t []).map fun r =>
      ⟨r.1, fun i => (w i).1, r.2⟩

/-! ## One channel -/

/-- The samples a burst stands for. -/
def burstSamples [Zero S] (wVector : List S) (zero : Bool) : List S :=
  if zero then List.replicate wVector.length 0 else wVector

@[simp] theorem length_burstSamples [Zero S] (wVector : List S) (zero : Bool) :
    (burstSamples wVector zero).length = wVector.length := by
  unfold burstSamples
  split_ifs <;> simp

theorem radioifyVector_spec [Zero S] {b : RadioBuffer S} {xs wVector : List S} (zero : Bool)
    (h : b.Holds xs) (hdir : b.outDirection = true)
    (hfit : xs.length + wVector.length ≤ b.bufferLen) :
    (radioifyVector b wVector zero).1 = true ∧
      (radioifyVector b wVector zero).2.Holds (xs ++ burstSamples wVector zero) ∧
      (radioifyVector b wVector zero).2.toLayout = b.toLayout ∧
      (radioifyVector b wVector zero).2.readIndex = b.readIndex := by
  cases zero with
  | true => exact RadioBuffer.zero_spec h hdir hfit
  | false => exact RadioBuffer.write_spec h hdir hfit

theorem RadioBuffer.drain_spec {b : RadioBuffer S} {xs : List S} (h : b.Holds xs)
    (hdir : b.outDirection = true) (hal : b.segmentLen ∣ b.readIndex)
    (hlen : b.segmentLen ≤ xs.length) :
    ∃ b', b.drain = some (xs.take b.segmentLen, b') ∧ b'.Holds (xs.drop b.segmentLen) ∧
      b'.toLayout = b.toLayout ∧ b'.segmentLen ∣ b'.readIndex := by
  obtain ⟨off, b', hget, hslice, hholds, hlay, hal'⟩ := getReadSegment_spec h hdir hal hlen
  have hseg : b'.segmentLen = b.segmentLen := congrArg Layout.segmentLen hlay
  exact ⟨b', by simp only [drain, hget, hseg, hslice], hholds, hlay, hal'⟩

/-! ## The stream -/

/-- The account of a run: after the samples `input` have been submitted on the channels,
the chunks `log` are the beginning of the input and the send buffers hold the rest.  The
first chunk is stamped `start`. -/
structure Stream (convertFloatShort : ℚ → S → D) (start : UInt64) (sps : ℕ)
    (scaling : Fin (n + 1) → ℚ) (input : Fin (n + 1) → List S) (t : RadioInterface n S)
    (log : List (DeviceWrite n D)) : Prop where
  sps_pos : 0 < sps
  scaling_eq : t.powerScaling = scaling
  layout : ∀ i, (t.sendBuffer i).toLayout = bufferLayout sps true
  aligned : ∀ i, (t.sendBuffer i).segmentLen ∣ (t.sendBuffer i).readIndex
  level : ∀ i, (input i).length = (input 0).length
  sent_le : log.length * (CHUNK * sps) ≤ (input 0).length
  holds : ∀ i, (t.sendBuffer i).Holds ((input i).drop (log.length * (CHUNK * sps)))
  sent : ∀ i, (log.flatMap fun w => w.data i) =
    ((input i).take (log.length * (CHUNK * sps))).map (convertFloatShort (scaling i))
  /-- Each chunk has a chunk's length and is stamped with the place of its first sample. -/
  chunk : ∀ k (hk : k < log.length),
    log[k].timestamp = start + UInt64.ofNat (k * (CHUNK * sps)) ∧
    ∀ i, (log[k].data i).length = CHUNK * sps
  timestamp : t.writeTimestamp = start + UInt64.ofNat (log.length * (CHUNK * sps))

namespace Stream

variable {convertFloatShort : ℚ → S → D} {start : UInt64} {sps : ℕ}
  {scaling : Fin (n + 1) → ℚ} {input : Fin (n + 1) → List S} {t : RadioInterface n S}
  {log : List (DeviceWrite n D)}

theorem segmentLen (h : Stream convertFloatShort start sps scaling input t log)
    (i : Fin (n + 1)) : (t.sendBuffer i).segmentLen = CHUNK * sps := by
  rw [h.layout i, bufferLayout]

theorem avail (h : Stream convertFloatShort start sps scaling input t log) (i : Fin (n + 1)) :
    (t.sendBuffer i).availSamples = (input 0).length - log.length * (CHUNK * sps) := by
  rw [(h.holds i).avail, List.length_drop, h.level i]

theorem append_nil (h : Stream convertFloatShort start sps scaling input t log) :
    Stream convertFloatShort start sps scaling input t (log ++ []) := by
  rwa [List.append_nil]

/-- The bursts of a call are appended to the input, and every write succeeds. -/
theorem radioify [Zero S] (h : Stream convertFloatShort start sps scaling input t log)
    {bursts : Fin (n + 1) → List S} (zeros : Fin (n + 1) → Bool)
    (hfit : (input 0).length - log.length * (CHUNK * sps) + (bursts 0).length ≤
      NUMCHUNKS * (CHUNK * sps))
    (hlen : ∀ i, (bursts i).length = (bursts 0).length) :
    (∀ i, (radioifyVector (t.sendBuffer i) (bursts i) (zeros i)).1 = true) ∧
    Stream convertFloatShort start sps scaling
      (fun i => input i ++ burstSamples (bursts i) (zeros i))
      { t with sendBuffer := fun i =>
          (radioifyVector (t.sendBuffer i) (bursts i) (zeros i)).2 } log := by
  have hroom : ∀ i, ((input i).drop (log.length * (CHUNK * sps))).length + (bursts i).length ≤
      (t.sendBuffer i).bufferLen := fun i => by
    rw [List.length_drop, h.level i, hlen i, RadioBuffer.bufferLen, h.layout i, bufferLayout]
    exact hfit
  have hspec := fun i => radioifyVector_spec (zeros i) (h.holds i)
    (by rw [h.layout i, bufferLayout]) (hroom i)
  refine ⟨fun i => (hspec i).1, ?_⟩
  exact
    { sps_pos := h.sps_pos
      scaling_eq := h.scaling_eq
      layout := fun i => (hspec i).2.2.1.trans (h.layout i)
      aligned := fun i => by
        have hlay := congrArg Layout.segmentLen (hspec i).2.2.1
        simp only
        rw [hlay, (hspec i).2.2.2]
        exact h.aligned i
      level := fun i => by
        rw [List.length_append, List.length_append, length_burstSamples, length_burstSamples,
          h.level i, hlen i]
      sent_le := h.sent_le.trans (by rw [List.length_append]; omega)
      holds := fun i => by
        rw [List.drop_append_of_le_length (by rw [h.level i]; exact h.sent_le)]
        exact (hspec i).2.1
      sent := fun i => by
        rw [List.take_append_of_le_length (by rw [h.level i]; exact h.sent_le)]
        exact h.sent i
      chunk := h.chunk
      timestamp := h.timestamp }

/-- `pushBuffer` stops when less than a chunk is left, … -/
theorem pushBuffer_stop (h : Stream convertFloatShort start sps scaling input t log)
    (hstop : (input 0).length - log.length * (CHUNK * sps) < CHUNK * sps) (d : DeviceAnswer) :
    pushBuffer convertFloatShort t d = some none := by
  have hseg : ¬ 0 < (t.sendBuffer 0).getAvailSegments := by
    rw [(h.holds 0).getAvailSegments_pos_iff, h.segmentLen 0, List.length_drop]
    omega
  rw [pushBuffer, if_pos (by omega)]

/-- … and hands over the next chunk otherwise. -/
theorem pushBuffer_go (h : Stream convertFloatShort start sps scaling input t log)
    (hgo : CHUNK * sps ≤ (input 0).length - log.length * (CHUNK * sps)) {d : DeviceAnswer}
    (hd : d.numSent = CHUNK * sps) :
    ∃ t' w, pushBuffer convertFloatShort t d = some (some (t', w)) ∧ t'.mOn = t.mOn ∧
      Stream convertFloatShort start sps scaling input t' (log ++ [w]) := by
  have hroom : ∀ i, (t.sendBuffer i).segmentLen ≤
      ((input i).drop (log.length * (CHUNK * sps))).length := fun i => by
    rw [h.segmentLen i, List.length_drop, h.level i]
    exact hgo
  choose b hb hholds hlay hal using fun i => RadioBuffer.drain_spec (h.holds i)
    (by rw [h.layout i, bufferLayout]) (h.aligned i) (hroom i)
  have hseg : 0 < (t.sendBuffer 0).getAvailSegments :=
    (h.holds 0).getAvailSegments_pos_iff.mpr (hroom 0)
  refine ⟨{ t with
      sendBuffer := b
      underrun := d.underrun
      writeTimestamp := t.writeTimestamp + UInt64.ofNat d.numSent },
    ⟨fun i => (((input i).drop (log.length * (CHUNK * sps))).take (CHUNK * sps)).map
      (convertFloatShort (scaling i)), t.writeTimestamp⟩, ?_, rfl, ?_⟩
  · rw [pushBuffer, if_neg (by omega), allSome_eq_some hb]
    simp only [h.segmentLen, h.scaling_eq]
  · have hcount : ∀ w : DeviceWrite n D, (log ++ [w]).length * (CHUNK * sps) =
        log.length * (CHUNK * sps) + CHUNK * sps := fun w => by
      rw [List.length_append, List.length_singleton, Nat.add_mul, Nat.one_mul]
    exact
      { sps_pos := h.sps_pos
        scaling_eq := h.scaling_eq
        layout := fun i => (hlay i).trans (h.layout i)
        aligned := hal
        level := h.level
        sent_le := by
          have := h.sent_le
          rw [hcount]
          omega
        holds := fun i => by
          have hi := hholds i
          rw [List.drop_drop, h.segmentLen i] at hi
          rw [hcount]
          exact hi
        sent := fun i => by
          rw [hcount, List.flatMap_append, List.flatMap_singleton, h.sent i, List.take_add,
            List.map_append]
        chunk := fun k hk => by
          rcases Run.getElem_log_cases hk with ⟨hold, hget⟩ | ⟨rfl, hget⟩
          · rw [hget]
            exact h.chunk k hold
          · rw [hget]
            refine ⟨h.timestamp, fun i => ?_⟩
            rw [List.length_map, List.length_take, List.length_drop, h.level i]
            omega
        timestamp := by
          simp only
          rw [h.timestamp, hd, hcount, UInt64.ofNat_add, UInt64.add_assoc] }

/-- **The loop hands over every complete chunk** and leaves less than one. -/
theorem pushLoop {device : ℕ → DeviceAnswer} (hd : ∀ k, (device k).numSent = CHUNK * sps)
    (fuel : ℕ) : ∀ {t : RadioInterface n S} {prior calls : List (DeviceWrite n D)},
    Stream convertFloatShort start sps scaling input t (prior ++ calls) →
    (input 0).length - (prior ++ calls).length * (CHUNK * sps) ≤ fuel →
    ∃ t' calls', Radio.pushLoop convertFloatShort device fuel t calls = some (t', calls') ∧
      t'.mOn = t.mOn ∧ Stream convertFloatShort start sps scaling input t' (prior ++ calls') ∧
      (input 0).length - (prior ++ calls').length * (CHUNK * sps) < CHUNK * sps := by
  induction fuel with
  | zero =>
    intro t prior calls h hfuel
    have hpos : 0 < CHUNK * sps := Nat.mul_pos (by decide) h.sps_pos
    exact ⟨t, calls, rfl, rfl, h, by omega⟩
  | succ fuel ih =>
    intro t prior calls h hfuel
    have hpos : 0 < CHUNK * sps := Nat.mul_pos (by decide) h.sps_pos
    by_cases hgo : CHUNK * sps ≤ (input 0).length - (prior ++ calls).length * (CHUNK * sps)
    · obtain ⟨t₁, w, hpush, hon, h₁⟩ := h.pushBuffer_go hgo (hd calls.length)
      rw [List.append_assoc] at h₁
      have hcount : (prior ++ (calls ++ [w])).length * (CHUNK * sps) =
          (prior ++ calls).length * (CHUNK * sps) + CHUNK * sps := by
        rw [← List.append_assoc, List.length_append, List.length_singleton, Nat.add_mul,
          Nat.one_mul]
      obtain ⟨t', calls', hloop, hon', h', hleft⟩ := ih h₁ (by omega)
      refine ⟨t', calls', ?_, hon'.trans hon, h', hleft⟩
      rw [Radio.pushLoop, hpush]
      exact hloop
    · refine ⟨t, calls, ?_, rfl, h, not_le.mp hgo⟩
      rw [Radio.pushLoop, h.pushBuffer_stop (not_le.mp hgo)]

end Stream

/-! ## Runs -/

/-- The radio interface, the results of the writes, and the chunks handed over. -/
structure Transmission (n : ℕ) (S D : Type) where
  radio : RadioInterface n S
  written : List (Fin (n + 1) → Bool)
  chunks : List (DeviceWrite n D)

/-- One call; `none` once a segment that is not there has been read. -/
def transmitStep [Zero S] (convertFloatShort : ℚ → S → D) :
    Option (Transmission n S D) → TxCall n S → Option (Transmission n S D)
  | none, _ => none
  | some s, c => (driveTransmitRadio convertFloatShort s.radio c).map fun r =>
      ⟨r.radio, s.written ++ [r.written], s.chunks ++ r.chunks⟩

/-- The samples submitted on a channel. -/
def submitted [Zero S] (calls : List (TxCall n S)) (i : Fin (n + 1)) : List S :=
  calls.flatMap fun c => burstSamples (c.bursts i) (c.zeros i)

/-- The bursts of a call have one length, at most a chunk, and the device accepts whole
chunks. -/
structure CallOK (sps : ℕ) (c : TxCall n S) : Prop where
  length_eq : ∀ i, (c.bursts i).length = (c.bursts 0).length
  length_le : (c.bursts 0).length ≤ CHUNK * sps
  accepts : ∀ k, (c.device k).numSent = CHUNK * sps

/-- The stream after a number of calls, with less than a chunk left. -/
structure Sent (convertFloatShort : ℚ → S → D) (start : UInt64) (sps : ℕ)
    (scaling : Fin (n + 1) → ℚ) (input : Fin (n + 1) → List S) (s : Transmission n S D) :
    Prop where
  on : s.radio.mOn = true
  stream : Stream convertFloatShort start sps scaling input s.radio s.chunks
  leftover : (input 0).length - s.chunks.length * (CHUNK * sps) < CHUNK * sps
  written : ∀ w ∈ s.written, ∀ i, w i = true

theorem sent_start (convertFloatShort : ℚ → S → D) {t : RadioInterface n S} (ht : Started t)
    (hsps : 0 < t.mSPSTx) :
    Sent convertFloatShort t.writeTimestamp t.mSPSTx t.powerScaling (fun _ => [])
      ⟨t, [], []⟩ where
  on := ht.on
  stream :=
    { sps_pos := hsps
      scaling_eq := rfl
      layout := fun i => (ht.send i).layout
      aligned := fun i => by rw [(ht.send i).read]; exact dvd_zero _
      level := fun _ => rfl
      sent_le := by simp
      holds := fun i => by
        rw [List.drop_nil]
        exact (ht.send i).holds hsps
      sent := by simp
      chunk := by intro k hk; simp at hk
      timestamp := by simp }
  leftover := by
    simp only [List.length_nil, Nat.zero_mul, Nat.sub_zero]
    exact Nat.mul_pos (by decide) hsps
  written := by intro w hw; simp at hw

variable [Zero S] {convertFloatShort : ℚ → S → D} {start : UInt64} {sps : ℕ}
  {scaling : Fin (n + 1) → ℚ}

theorem sent_step {input : Fin (n + 1) → List S} {s : Transmission n S D}
    (h : Sent convertFloatShort start sps scaling input s) {c : TxCall n S} (hc : CallOK sps c) :
    ∃ s', transmitStep convertFloatShort (some s) c = some s' ∧
      Sent convertFloatShort start sps scaling
        (fun i => input i ++ burstSamples (c.bursts i) (c.zeros i)) s' := by
  have hfit : (input 0).length - s.chunks.length * (CHUNK * sps) + (c.bursts 0).length ≤
      NUMCHUNKS * (CHUNK * sps) := by
    have := h.leftover
    have := hc.length_le
    simp only [NUMCHUNKS]
    omega
  obtain ⟨hwritten, hstream⟩ := h.stream.radioify c.zeros hfit hc.length_eq
  have hfuel := (hstream.append_nil.avail 0).ge
  obtain ⟨t, calls, hloop, hon, hstream', hleft⟩ :=
    hstream.append_nil.pushLoop hc.accepts _ hfuel
  refine ⟨⟨t, s.written ++ [fun i =>
    (radioifyVector (s.radio.sendBuffer i) (c.bursts i) (c.zeros i)).1], s.chunks ++ calls⟩, ?_, ?_⟩
  · rw [transmitStep, driveTransmitRadio, if_neg (by rw [h.on]; decide)]
    simp only [hloop, Option.map_some]
  · exact ⟨hon.trans h.on, hstream', hleft, Run.forall_mem_log h.written hwritten⟩

theorem sent_exec (calls : List (TxCall n S)) :
    ∀ {s : Transmission n S D} {input : Fin (n + 1) → List S},
    Sent convertFloatShort start sps scaling input s → (∀ c ∈ calls, CallOK sps c) →
    ∃ s', Run.exec (transmitStep convertFloatShort) (some s) calls = some s' ∧
      Sent convertFloatShort start sps scaling (fun i => input i ++ submitted calls i) s' := by
  induction calls with
  | nil =>
    intro s input h _
    refine ⟨s, rfl, ?_⟩
    simpa only [submitted, List.flatMap_nil, List.append_nil] using h
  | cons c calls ih =>
    intro s input h hok
    obtain ⟨s', hstep, h'⟩ := sent_step h (hok c List.mem_cons_self)
    obtain ⟨s'', hexec, h''⟩ := ih h' fun c' hc' => hok c' (List.mem_cons_of_mem _ hc')
    refine ⟨s'', ?_, ?_⟩
    · rw [Run.exec_cons, hstep, hexec]
    · simpa only [submitted, List.flatMap_cons, List.append_assoc] using h''

/-- **The device gets the submitted samples, in order and in time.**  In every run of
calls from a start, in which the bursts of a call have one length and the device accepts
whole chunks, every write to a send buffer succeeds, less than a chunk is left after
every call, and on each channel the chunks are the whole chunks of the submitted samples,
the `k`-th stamped `k` chunks after the first. -/
theorem transmit_integrity (convertFloatShort : ℚ → S → D) {t : RadioInterface n S}
    (ht : Started t) (hsps : 0 < t.mSPSTx) (calls : List (TxCall n S))
    (hok : ∀ c ∈ calls, CallOK t.mSPSTx c) :
    ∃ s, Run.exec (transmitStep convertFloatShort) (some ⟨t, [], []⟩) calls = some s ∧
      (∀ w ∈ s.written, ∀ i, w i = true) ∧
      (∀ i, (s.radio.sendBuffer i).availSamples = (s.radio.sendBuffer 0).availSamples ∧
        (s.radio.sendBuffer i).availSamples < CHUNK * t.mSPSTx) ∧
      (∀ i, (s.chunks.flatMap fun w => w.data i) = ((submitted calls i).take
        ((submitted calls i).length / (CHUNK * t.mSPSTx) * (CHUNK * t.mSPSTx))).map
          (convertFloatShort (t.powerScaling i))) ∧
      ∀ k (hk : k < s.chunks.length),
        s.chunks[k].timestamp = t.writeTimestamp + UInt64.ofNat (k * (CHUNK * t.mSPSTx)) ∧
        ∀ i, (s.chunks[k].data i).length = CHUNK * t.mSPSTx := by
  obtain ⟨s, hexec, h⟩ := sent_exec calls (sent_start convertFloatShort ht hsps) hok
  simp only [List.nil_append] at h
  have hpos : 0 < CHUNK * t.mSPSTx := Nat.mul_pos (by decide) hsps
  have hleft := h.leftover
  have hle := h.stream.sent_le
  refine ⟨s, hexec, h.written, fun i => ?_, fun i => ?_, h.stream.chunk⟩
  · have hi := h.stream.avail i
    exact ⟨hi.trans (h.stream.avail 0).symm, by omega⟩
  · have hcount : (submitted calls i).length / (CHUNK * t.mSPSTx) = s.chunks.length := by
      rw [h.stream.level i]
      refine Nat.div_eq_of_lt_le hle ?_
      rw [Nat.add_mul, Nat.one_mul]
      omega
    rw [hcount]
    exact h.stream.sent i

/-- Five bursts of the longest kind, the zero flag set on every second. -/
def fiveBursts : List (TxCall 0 ℤ) :=
  [false, true, false, true, false].map fun zero =>
    ⟨fun _ => List.replicate 157 1, fun _ => zero, fun _ => ⟨625, false⟩⟩

theorem fiveBursts_ok : ∀ c ∈ fiveBursts, CallOK oneChannel.mSPSTx c := by
  intro c hc
  obtain ⟨zero, -, rfl⟩ := List.mem_map.mp hc
  refine ⟨fun _ => rfl, ?_, fun _ => rfl⟩
  rw [List.length_replicate]
  decide

theorem transmit_integrity_five :
    ∃ s, Run.exec (transmitStep fun _ x => x) (some ⟨oneChannel, [], []⟩) fiveBursts = some s ∧
      (∀ w ∈ s.written, ∀ i, w i = true) ∧
      (∀ i, (s.radio.sendBuffer i).availSamples = (s.radio.sendBuffer 0).availSamples ∧
        (s.radio.sendBuffer i).availSamples < CHUNK * oneChannel.mSPSTx) ∧
      (∀ i, (s.chunks.flatMap fun w => w.data i) = ((submitted fiveBursts i).take
        ((submitted fiveBursts i).length / (CHUNK * oneChannel.mSPSTx) *
          (CHUNK * oneChannel.mSPSTx))).map fun x => x) ∧
      ∀ k (hk : k < s.chunks.length),
        s.chunks[k].timestamp =
          oneChannel.writeTimestamp + UInt64.ofNat (k * (CHUNK * oneChannel.mSPSTx)) ∧
        ∀ i, (s.chunks[k].data i).length = CHUNK * oneChannel.mSPSTx :=
  transmit_integrity (fun _ x => x) oneChannel_started (by decide) fiveBursts fiveBursts_ok

end Radio
end OsmoTrx
