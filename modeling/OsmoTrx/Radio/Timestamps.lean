import OsmoTrx.Radio.Upsampled

/-!
# Transmit timestamps

The three radio interfaces under any sequence of bursts and of calls of `pushBuffer`, where the
device answers each write with any result: the length of the chunk, less, 0 or -1.

* `Sender` — a radio interface of one of the three classes.
* `pushBuffer_stamp` — by how much a chunk advances its timestamp.
* `OnTime` — the chunk of a step is stamped with its position in the stream.
* `stamps_iff` — **the chunks of a run are on time exactly if each write of a plain or a
  multi-carrier interface is answered with the length of the chunk**.
* `resamp_onTime` — those of a resampling interface always are.
-/

namespace OsmoTrx
namespace Radio

open Dsp

/-! ## The three interfaces -/

/-- What `writeSamples` answers: an `int`, and a flag. -/
structure WriteResult where
  rc : ℤ
  underrun : Bool

/-- The result in the `size_t` that it is stored in. -/
def WriteResult.stored (r : WriteResult) : DeviceAnswer := ⟨(r.rc % 2 ^ 64).toNat, r.underrun⟩

/-- A call of `pushBuffer`: what the device answers, and the transform of a synthesis. -/
structure PushCall (R : Type) where
  result : WriteResult
  transform : (Fin Multi.MCHANS → ℤ → R) → (Fin Multi.MCHANS → ℤ → R) × (ℤ → R)

/-- A radio interface of one of the three classes. -/
inductive Sender (n : ℕ) (R : Type)
  | normal (t : RadioInterface n (R × R))
  | resamp (t : Resamp.RadioInterfaceResamp R)
  | multi (t : Multi.Transmitter n R)

/-- A chunk handed to the device: its length and its timestamp. -/
structure Chunk where
  len : ℕ
  timestamp : UInt64

/-- The length and the timestamp of what the device gets. -/
def DeviceWrite.chunk {n : ℕ} {D : Type} (w : DeviceWrite n D) : Chunk :=
  ⟨(w.data 0).length, w.timestamp⟩

namespace Sender

variable {n : ℕ} {R D : Type} [CommRing R]

omit [CommRing R] in
/-- The timestamp of the next chunk. -/
def writeTimestamp : Sender n R → UInt64
  | normal t => t.writeTimestamp
  | resamp t => t.writeTimestamp
  | multi t => t.writeTimestamp

omit [CommRing R] in
/-- Samples per chunk at the rate of the device. -/
def chunkLen : Sender n R → ℕ
  | normal t => (t.sendBuffer 0).segmentLen
  | resamp t => t.resamp_outchunk
  | multi t => t.outerSendBuffer.length

omit [CommRing R] in
/-- An interface that resamples a single carrier. -/
def isResamp : Sender n R → Bool
  | resamp _ => true
  | normal _ | multi _ => false

/-- `radioifyVector` for every channel. -/
def radioify (s : Sender n R) (bursts : ℕ → List (R × R)) (zeros : ℕ → Bool) : Sender n R :=
  let written {m : ℕ} (b : Fin (m + 1) → RadioBuffer (R × R)) (i : Fin (m + 1)) :=
    (radioifyVector (b i) (bursts i) (zeros i)).2
  match s with
  | normal t => normal { t with sendBuffer := written t.sendBuffer }
  | resamp t => resamp { t with sendBuffer := written t.sendBuffer }
  | multi t => multi { t with sendBuffer := written t.sendBuffer }

/-- The virtual `pushBuffer`: the interface afterwards and the chunk. -/
def pushBuffer (c : ConvolveCpuContext R) (convertFloatShort : ℚ → R × R → D) (s : Sender n R)
    (p : PushCall R) : Option (Option (Sender n R × Chunk)) :=
  let d := p.result.stored
  match s with
  | normal t => (Radio.pushBuffer convertFloatShort t d).map
      (Option.map fun r => (normal r.1, r.2.chunk))
  | resamp t => (Resamp.pushBuffer c convertFloatShort t d).map
      (Option.map fun r => (resamp r.1, r.2.chunk))
  | multi t => (Multi.pushBuffer c convertFloatShort t p.transform d).map
      (Option.map fun r => (multi r.1, r.2.chunk))

/-- By how much a chunk advances the timestamp. -/
def advance (s : Sender n R) (r : WriteResult) : UInt64 :=
  UInt64.ofNat (if s.isResamp then s.chunkLen else r.stored.numSent)

end Sender

/-! ## One step -/

theorem radioifyVector_layout {S : Type} [Zero S] (b : RadioBuffer S) (wVector : List S)
    (zero : Bool) : (radioifyVector b wVector zero).2.toLayout = b.toLayout := by
  unfold radioifyVector RadioBuffer.zero RadioBuffer.write
  split_ifs <;> rfl

theorem RadioBuffer.getReadSegment_layout {S : Type} (b : RadioBuffer S) :
    b.getReadSegment.2.toLayout = b.toLayout := by
  simp only [getReadSegment]
  split_ifs <;> rfl

theorem RadioBuffer.drain_layout {S : Type} {b b' : RadioBuffer S} {chunk : List S}
    (h : b.drain = some (chunk, b')) :
    b'.toLayout = b.toLayout ∧ chunk.length = b.segmentLen := by
  have hlayout := b.getReadSegment_layout
  unfold drain at h
  split at h
  · cases h
  · rename_i segment b₁ hget
    cases h
    rw [hget] at hlayout
    exact ⟨hlayout, by rw [Mem.length_slice, ← hlayout]⟩

/-- `RadioInterface::pushBuffer`: the timestamp advances by what the device says it has sent. -/
theorem pushBuffer_stamp {n : ℕ} {S D : Type} {convertFloatShort : ℚ → S → D}
    {t t' : RadioInterface n S} {d : DeviceAnswer} {w : DeviceWrite n D}
    (h : pushBuffer convertFloatShort t d = some (some (t', w))) :
    w.timestamp = t.writeTimestamp ∧ (w.data 0).length = (t.sendBuffer 0).segmentLen ∧
      t'.writeTimestamp = t.writeTimestamp + UInt64.ofNat d.numSent ∧
      (t'.sendBuffer 0).segmentLen = (t.sendBuffer 0).segmentLen := by
  unfold pushBuffer at h
  split_ifs at h with hempty
  · cases h
  split at h
  · cases h
  · rename_i r hdrain
    cases h
    obtain ⟨hlayout, hlen⟩ := RadioBuffer.drain_layout (allSome_apply hdrain 0)
    exact ⟨rfl, by rw [List.length_map, hlen], rfl, congrArg Layout.segmentLen hlayout⟩

namespace Sender

variable {n : ℕ} {R D : Type} [CommRing R] {c : ConvolveCpuContext R}
  {convertFloatShort : ℚ → R × R → D} {s s' : Sender n R}

theorem radioify_stamp (s : Sender n R) (bursts : ℕ → List (R × R)) (zeros : ℕ → Bool) :
    (s.radioify bursts zeros).writeTimestamp = s.writeTimestamp ∧
      (s.radioify bursts zeros).chunkLen = s.chunkLen ∧
      (s.radioify bursts zeros).isResamp = s.isResamp := by
  cases s with
  | normal t => exact ⟨rfl, congrArg Layout.segmentLen (radioifyVector_layout _ _ _), rfl⟩
  | resamp t => exact ⟨rfl, rfl, rfl⟩
  | multi t => exact ⟨rfl, rfl, rfl⟩

/-- A chunk is stamped with the timestamp, and advances it. -/
theorem pushBuffer_stamp {p : PushCall R} {chunk : Chunk}
    (h : s.pushBuffer c convertFloatShort p = some (some (s', chunk))) :
    chunk = ⟨s.chunkLen, s.writeTimestamp⟩ ∧
      s'.writeTimestamp = s.writeTimestamp + s.advance p.result ∧
      s'.chunkLen = s.chunkLen ∧ s'.isResamp = s.isResamp := by
  cases s with
  | normal t =>
    obtain ⟨r, hpush, hr⟩ := Option.map_eq_some_iff.mp h
    obtain ⟨⟨t', w⟩, rfl, hw⟩ := Option.map_eq_some_iff.mp hr
    cases hw
    obtain ⟨hstamp, hlen, hnext, hchunk⟩ := Radio.pushBuffer_stamp hpush
    exact ⟨congrArg₂ Chunk.mk hlen hstamp, hnext, hchunk, rfl⟩
  | resamp t =>
    obtain ⟨r, hpush, hr⟩ := Option.map_eq_some_iff.mp h
    obtain ⟨⟨t', w⟩, rfl, hw⟩ := Option.map_eq_some_iff.mp hr
    cases hw
    obtain ⟨hstamp, hlen, hnext, hchunk⟩ := Resamp.pushBuffer_stamp hpush
    exact ⟨congrArg₂ Chunk.mk hlen hstamp, hnext, hchunk, rfl⟩
  | multi t =>
    obtain ⟨r, hpush, hr⟩ := Option.map_eq_some_iff.mp h
    obtain ⟨⟨t', w⟩, rfl, hw⟩ := Option.map_eq_some_iff.mp hr
    cases hw
    obtain ⟨hstamp, hlen, hnext, hchunk⟩ := Multi.pushBuffer_stamp hpush
    exact ⟨congrArg₂ Chunk.mk hlen hstamp, hnext, hchunk, rfl⟩

end Sender

/-! ## Runs -/

/-- A radio interface and the number of chunks it has handed to the device. -/
structure Sending (n : ℕ) (R : Type) where
  sender : Sender n R
  drained : ℕ

namespace Sending

/-- Bursts are written to the send buffers, or a chunk is handed to the device. -/
inductive Event (R : Type)
  | radioify (bursts : ℕ → List (R × R)) (zeros : ℕ → Bool)
  | push (p : PushCall R)

variable {n : ℕ} {R D : Type} [CommRing R] (c : ConvolveCpuContext R)
  (convertFloatShort : ℚ → R × R → D)

/-- One step; a segment that is not there, or a length that the synthesis does not take, ends
the run. -/
def step : Option (Sending n R) → Event R → Option (Sending n R)
  | none, _ => none
  | some s, .radioify bursts zeros => some { s with sender := s.sender.radioify bursts zeros }
  | some s, .push p => (s.sender.pushBuffer c convertFloatShort p).map fun r =>
      r.elim s fun (sender, _) => ⟨sender, s.drained + 1⟩

/-- The timestamp of chunk `k` of a stream of chunks of length `len` that begins at `start`. -/
def position (start : UInt64) (len k : ℕ) : UInt64 := start + UInt64.ofNat (k * len)

/-- The chunk of a step, if there is one, has the length `len` and is stamped with its position,
and the next one will be. -/
def OnTime (start : UInt64) (len : ℕ) : Option (Sending n R) → Event R → Prop
  | some s, .push p => ∀ sender chunk,
      s.sender.pushBuffer c convertFloatShort p = some (some (sender, chunk)) →
        chunk = ⟨len, position start len s.drained⟩ ∧
          sender.writeTimestamp = position start len (s.drained + 1)
  | _, _ => True

/-- If the step hands over a chunk and the interface does not resample a single carrier, the
device answers with the length of the chunk. -/
def FullSend (len : ℕ) : Option (Sending n R) → Event R → Prop
  | some s, .push p => (∃ sent, s.sender.pushBuffer c convertFloatShort p = some (some sent)) →
      s.sender.isResamp = true ∨ UInt64.ofNat p.result.stored.numSent = UInt64.ofNat len
  | _, _ => True

/-- The next chunk will be stamped with its position. -/
def Positioned (start : UInt64) (len : ℕ) (s : Option (Sending n R)) : Prop :=
  ∀ s' ∈ s, s'.sender.chunkLen = len ∧ s'.sender.writeTimestamp = position start len s'.drained

variable {c convertFloatShort} {start : UInt64} {len : ℕ} {s : Option (Sending n R)}

theorem position_succ (start : UInt64) (len k : ℕ) :
    position start len (k + 1) = position start len k + UInt64.ofNat len := by
  rw [position, position, Nat.succ_mul, UInt64.ofNat_add, UInt64.add_assoc]

/-- The step lemma. -/
theorem positioned_step {e : Event R} (h : Positioned start len s)
    (hontime : OnTime c convertFloatShort start len s e) :
    Positioned start len (step c convertFloatShort s e) := by
  intro s' hs'
  cases s with
  | none => cases hs'
  | some s =>
    obtain ⟨hlen, hstamp⟩ := h s rfl
    cases e with
    | radioify bursts zeros =>
      cases hs'
      obtain ⟨hstamp', hlen', -⟩ := s.sender.radioify_stamp bursts zeros
      exact ⟨hlen'.trans hlen, hstamp'.trans hstamp⟩
    | push p =>
      obtain ⟨r, hpush, rfl⟩ := Option.map_eq_some_iff.mp hs'
      cases r with
      | none => exact ⟨hlen, hstamp⟩
      | some r =>
        obtain ⟨-, -, hlen', -⟩ := Sender.pushBuffer_stamp hpush
        exact ⟨hlen'.trans hlen, (hontime _ _ hpush).2⟩

/-- When a step is on time. -/
theorem onTime_iff {e : Event R} (h : Positioned start len s) :
    OnTime c convertFloatShort start len s e ↔ FullSend c convertFloatShort len s e := by
  cases s with
  | none => exact Iff.rfl
  | some s =>
    obtain ⟨hlen, hstamp⟩ := h s rfl
    cases e with
    | radioify bursts zeros => exact Iff.rfl
    | push p =>
      have hadvance : s.sender.advance p.result = UInt64.ofNat len ↔ s.sender.isResamp = true ∨
          UInt64.ofNat p.result.stored.numSent = UInt64.ofNat len := by
        unfold Sender.advance
        cases s.sender.isResamp <;> simp [hlen]
      rw [FullSend, ← hadvance]
      constructor
      · rintro hontime ⟨⟨sender, chunk⟩, hpush⟩
        obtain ⟨-, hnext, -⟩ := Sender.pushBuffer_stamp hpush
        have hnext' := (hontime sender chunk hpush).2
        rw [hnext, hstamp, position_succ] at hnext'
        exact (UInt64.add_right_inj _).mp hnext'
      · intro hfull sender chunk hpush
        obtain ⟨hchunk, hnext, -⟩ := Sender.pushBuffer_stamp hpush
        refine ⟨by rw [hchunk, hlen, hstamp], ?_⟩
        rw [hnext, hstamp, hfull ⟨_, hpush⟩, position_succ]

/-- **The chunks of a run are on time exactly if each write of a plain or a multi-carrier
interface is answered with the length of the chunk.** -/
theorem stamps_iff (c : ConvolveCpuContext R) (convertFloatShort : ℚ → R × R → D)
    (s : Sender n R) (events : List (Event R)) :
    Run.Along (step c convertFloatShort) (OnTime c convertFloatShort s.writeTimestamp s.chunkLen)
        (some ⟨s, 0⟩) events ↔
      Run.Along (step c convertFloatShort) (FullSend c convertFloatShort s.chunkLen)
        (some ⟨s, 0⟩) events := by
  refine Run.along_iff_of_invariant (I := Positioned s.writeTimestamp s.chunkLen)
    (fun _ e h hontime => positioned_step h hontime) (fun _ e h => onTime_iff h) ?_ events
  intro s' hs'
  cases hs'
  exact ⟨rfl, by simp [position]⟩

/-- The chunks of a resampling interface are on time, whatever the device answers. -/
theorem resamp_onTime (c : ConvolveCpuContext R) (convertFloatShort : ℚ → R × R → D)
    (t : Resamp.RadioInterfaceResamp R) (events : List (Event R)) :
    Run.Along (step c convertFloatShort)
      (OnTime c convertFloatShort t.writeTimestamp t.resamp_outchunk)
      (some (⟨.resamp t, 0⟩ : Sending n R)) events := by
  have hfull (s : Option (Sending n R)) (e : Event R)
      (h : ∀ s' ∈ s, s'.sender.isResamp = true) :
      FullSend c convertFloatShort t.resamp_outchunk s e := by
    cases s with
    | none => trivial
    | some s =>
      cases e with
      | radioify bursts zeros => trivial
      | push p => exact fun _ => .inl (h s rfl)
  refine Run.along_invariant
    (I := fun s => Positioned t.writeTimestamp t.resamp_outchunk s ∧
      ∀ s' ∈ s, s'.sender.isResamp = true)
    (fun s e h => ⟨positioned_step h.1 ((onTime_iff h.1).mpr (hfull s e h.2)), ?_⟩)
    (fun s e h => (onTime_iff h.1).mpr (hfull s e h.2)) ?_ events
  · intro s' hs'
    cases s with
    | none => cases hs'
    | some s =>
      have hs := h.2 s rfl
      cases e with
      | radioify bursts zeros =>
        cases hs'
        exact (s.sender.radioify_stamp bursts zeros).2.2.trans hs
      | push p =>
        obtain ⟨r, hpush, rfl⟩ := Option.map_eq_some_iff.mp hs'
        cases r with
        | none => exact hs
        | some r => exact (Sender.pushBuffer_stamp hpush).2.2.2.trans hs
  · refine ⟨?_, ?_⟩ <;> rintro s' hs' <;> cases hs'
    · exact ⟨rfl, by simp [position, Sender.writeTimestamp]⟩
    · rfl

/-- A radio interface that has two chunks to send. -/
def twoChunksLeft : Sender 0 ℤ :=
  .normal { Multi.idle 0 with sendBuffer := fun _ =>
    { bufferLayout 1 true with
      writeIndex := 2 * CHUNK
      readIndex := 0
      availSamples := 2 * CHUNK
      buffer := fun _ => 0 } }

/-- A write that fails sets the timestamp of the next chunk back by one sample. -/
theorem stamp_after_error :
    ¬ Run.Along (step (convolveInit true) fun _ => id)
        (OnTime (convolveInit true) (fun _ => id) twoChunksLeft.writeTimestamp
          twoChunksLeft.chunkLen)
        (some ⟨twoChunksLeft, 0⟩) [.push ⟨⟨-1, false⟩, fun x => (x, fun _ => 0)⟩] := by
  rintro ⟨hontime, -⟩
  have hnext := (hontime _ _ rfl).2
  revert hnext
  decide

end Sending
end Radio
end OsmoTrx
