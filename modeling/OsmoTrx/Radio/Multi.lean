import OsmoTrx.Radio.Receive
import OsmoTrx.Dsp.Resampler

/-!
# The receive path of the multi-carrier interface

`init` and `pullBuffer` of `radioInterfaceMulti.cpp`.  One wide stream from the device is
split by a channelizer into the physical channels; what that leaves in its output buffers
is an input here.  A block of an active channel gets the channel's history written in front
of it and is resampled into the channel's receive buffer.

* `updateHistory_spec` — the loops over the history leave `hLen` copies of the *first* sample
  of the block in it, not its last `hLen` samples.
* `Channel` — what has been received on a channel; `Channel.rotate` and `Channel.take` keep it.
* `Pulled` — all channels have received the same reads; `pulled_exec` holds it along a run.
* `pullBuffer_continuous_iff` — **the channel is resampled as one stream if and only if every
  block but the last ends as it began.**
-/

namespace OsmoTrx
namespace Radio
namespace Multi

open Dsp

/-! ## State -/

def RESAMP_INRATE : ℕ := 65

def RESAMP_OUTRATE : ℕ := 96 / 2

def NUMCHUNKS : ℕ := 24

def MCHANS : ℕ := 4

/-- Taps of a partition of a resampler, the default of its constructor. -/
def filtLen : ℕ := 16

/-- Samples in a segment of an inner buffer. -/
def inchunk : ℕ := RESAMP_INRATE * 4

/-- Samples in a block of the channelizer's output. -/
def outchunk : ℕ := RESAMP_OUTRATE * 4

/-- `class Channelizer`: its lengths. -/
structure Channelizer where
  m : ℕ
  blockLen : ℕ

namespace Channelizer

def inputLen (c : Channelizer) : ℕ := c.blockLen * c.m

def outputLen (c : Channelizer) : ℕ := c.blockLen

end Channelizer

/-- What a resampler computes its filters from. -/
structure Prototype (R : Type) where
  proto : ℕ → R
  scale : R

/-- The coefficients of the filter. -/
def Prototype.tap {R : Type} [CommRing R] (f : Prototype R) : ℕ → R := prototypeTap f.proto f.scale

/-- `class RadioInterfaceMulti` with `mChans = n + 1`; a sample is a pair of `R`. -/
structure RadioInterfaceMulti (n : ℕ) (R : Type) extends RadioInterface n (R × R) where
  history : Fin (n + 1) → ℕ → R × R
  active : Fin MCHANS → Bool
  dnsampler : Resampler R
  upsampler : Resampler R
  channelizer : Channelizer

/-- `getLogicalChan`. -/
def getLogicalChan (pchan chans : ℕ) : ℤ :=
  match chans with
  | 1 => if pchan = 0 then 0 else -1
  | 2 => if pchan = 0 then 0 else if pchan = 3 then 1 else -1
  | 3 => if pchan = 1 then 0 else if pchan = 0 then 1 else if pchan = 3 then 2 else -1
  | _ => -1

/-- The channels that `init` activates. -/
def activeChannels (chans : ℕ) : Option (Fin MCHANS → Bool) :=
  match chans with
  | 1 => some fun pchan => pchan.val == 0
  | 2 => some fun pchan => pchan.val == 0 || pchan.val == 3
  | 3 => some fun pchan => pchan.val == 0 || pchan.val == 1 || pchan.val == 3
  | _ => none

section Interface

variable {n : ℕ} {R : Type} [CommRing R]

/-- `init`; `none` if it fails.  New signal vectors are zero, the memory of the inner buffers
has some contents. -/
def init (t : RadioInterface n (R × R)) (dn up : Prototype R)
    (sendMem recvMem : Fin (n + 1) → ℕ → R × R) : Option (RadioInterfaceMulti n R) :=
  if n + 1 > MCHANS - 1 then none
  else if inchunk * NUMCHUNKS < 625 * 2 then none
  else
    let dnsampler := (Resampler.new RESAMP_INRATE RESAMP_OUTRATE filtLen).init dn.proto dn.scale
    let upsampler := (Resampler.new RESAMP_OUTRATE RESAMP_INRATE filtLen).init up.proto up.scale
    if !dnsampler.1 then none
    else if !upsampler.1 then none
    else
      (activeChannels (n + 1)).map fun active =>
        { t with
          sendBuffer := fun i => .new NUMCHUNKS inchunk upsampler.2.len true (sendMem i)
          recvBuffer := fun i => .new NUMCHUNKS inchunk 0 false (recvMem i)
          powerScaling := fun _ => 0
          mReceiveFIFO := fun _ => []
          history := fun _ _ => 0
          active := active
          dnsampler := dnsampler.2
          upsampler := upsampler.2
          channelizer := ⟨MCHANS, outchunk⟩ }

/-- `start`, which the class inherits. -/
def RadioInterfaceMulti.start (t : RadioInterfaceMulti n R) (d : DeviceStart) :
    Bool × RadioInterfaceMulti n R :=
  let r := t.toRadioInterface.start d
  (r.1, { t with toRadioInterface := r.2 })

/-! ## Taking a chunk from the device -/

/-- What `readSamples` returns, and what the channelizer leaves in its output buffers: a
block from cell 0 on, and something in front of it. -/
structure MultiRead (R : Type) where
  num : ℤ
  overrun : Bool
  local_underrun : Bool
  outputBuffer : Fin MCHANS → ℤ → R

/-- The first loop over the history writes it in front of the block: the buffer and the
pointer `fdst` afterwards. -/
def writeHistory (hLen : ℕ) (buf : ℤ → R) (history : ℕ → R × R) : (ℤ → R) × ℤ :=
  Loop.upTo hLen (fun i (buf, fdst) => (Loop.storePair buf fdst (history i), fdst + 2))
    (buf, 2 * -(hLen : ℤ))

/-- The second loop moves `fsrc` over the end of the block, but reads through `fdst`. -/
def saveHistory (hLen cLen : ℕ) (buf : ℤ → R) (fdst : ℤ) (history : ℕ → R × R) : ℕ → R × R :=
  (Loop.upTo hLen (fun i (s : (ℕ → R × R) × ℤ) =>
    (Function.update s.1 i (Loop.loadPair buf fdst), s.2 + 2))
    (history, 2 * ((cLen : ℤ) - hLen))).1

/-- The update of the history: the output buffer and the history afterwards. -/
def updateHistory (hLen cLen : ℕ) (buf : ℤ → R) (history : ℕ → R × R) :
    (ℤ → R) × (ℕ → R × R) :=
  let head := writeHistory hLen buf history
  (head.1, saveHistory hLen cLen head.1 head.2 history)

/-- The floats behind a pointer to a segment. -/
def floats (m : ℕ → R × R) (segment : ℕ) : ℤ → R := fun j =>
  if j % 2 = 0 then (m (segment + (j / 2).toNat)).1 else (m (segment + (j / 2).toNat)).2

/-- The first `len` samples of an array of floats. -/
def samples (x : ℤ → R) (len : ℕ) : List (R × R) :=
  (List.range len).map fun k : ℕ => Resampler.samplesOf x k

/-- What one turn of the loop over the channels does: the block of the channel, the output
buffer when it is resampled, and the samples written to the receive buffer. -/
structure Rotation (R : Type) where
  block : ℤ → R
  input : ℤ → R
  written : List (R × R)

/-- The radio interface, the chunks that `pullBuffer` has taken, and the rotations of every
logical channel. -/
structure Reception (n : ℕ) (R : Type) where
  radio : RadioInterfaceMulti n R
  reads : List (MultiRead R)
  log : Fin (n + 1) → List (Rotation R)

/-- One turn of the loop over the channels; `none` if a null segment is written to or a
vector is indexed out of its bounds. -/
def pullChannel (c : ConvolveCpuContext R) (r : MultiRead R) (s : Reception n R)
    (pchan : Fin MCHANS) : Option (Reception n R) :=
  if !s.radio.active pchan then some s
  else
    let lchan := getLogicalChan pchan (n + 1)
    if lchan < 0 then some s
    else if h : lchan.toNat < n + 1 then
      let i : Fin (n + 1) := ⟨lchan.toNat, h⟩
      let t := s.radio
      let cLen := t.channelizer.outputLen
      let hist := updateHistory t.dnsampler.len cLen (r.outputBuffer pchan) (t.history i)
      match (t.recvBuffer i).getWriteSegment with
      | (none, _) => none
      | (some segment, b) =>
        let out := (t.dnsampler.rotate c hist.1 cLen (floats b.buffer segment) b.segmentLen).2
        let wr := samples out b.segmentLen
        some
          { s with
            radio := { t with
              history := Function.update t.history i hist.2
              recvBuffer := Function.update t.recvBuffer i (b.store segment wr) }
            log := Function.update s.log i
              (s.log i ++ [⟨r.outputBuffer pchan, hist.1, wr⟩]) }
    else none

/-- `pullBuffer`. -/
def pullBuffer (c : ConvolveCpuContext R) (s : Reception n R) (r : MultiRead R) :
    Option (ℤ × Reception n R) :=
  if (s.radio.recvBuffer 0).getFreeSegments ≤ 0 then some (-1, s)
  else
    let t := { s.radio with overrun := r.overrun }
    if r.num ≠ t.channelizer.inputLen then some (-1, { s with radio := t })
    else
      let t := { t with
        underrun := t.underrun || r.local_underrun
        readTimestamp := t.readTimestamp + UInt64.ofNat r.num.toNat }
      ((List.finRange MCHANS).foldlM (pullChannel c r) { s with radio := t }).map fun s =>
        (0, { s with reads := s.reads ++ [r] })

/-- What happens to the receive buffers: `pullBuffer` is called, or `driveReceiveRadio` takes
the samples of one burst from every channel. -/
inductive Event (R : Type) where
  | pull (r : MultiRead R)
  | take (size : ℕ)

/-- One event; `none` once a step has faulted. -/
def step (c : ConvolveCpuContext R) : Option (Reception n R) → Event R → Option (Reception n R)
  | none, _ => none
  | some s, .pull r => (pullBuffer c s r).map Prod.snd
  | some s, .take size => some { s with radio := { s.radio with
      recvBuffer := fun i => (unRadioifyVector (s.radio.recvBuffer i) size).2 } }

/-- The chunk of an event, if `pullBuffer` answers it with 0. -/
def answered (c : ConvolveCpuContext R) : Option (Reception n R) → Event R → List (MultiRead R)
  | some s, .pull r => if (pullBuffer c s r).map Prod.fst = some 0 then [r] else []
  | _, _ => []

/-- The chunks of a run that `pullBuffer` answers with 0. -/
def accepted (c : ConvolveCpuContext R) :
    Option (Reception n R) → List (Event R) → List (MultiRead R)
  | _, [] => []
  | s, e :: events => answered c s e ++ accepted c (step c s e) events

/-! ## One channel -/

omit [CommRing R] in
theorem length_samples (x : ℤ → R) (len : ℕ) : (samples x len).length = len := by
  simp [samples]

omit [CommRing R] in
/-- The history comes to lie in front of the block, and `fdst` on its first sample. -/
theorem writeHistory_spec (hLen : ℕ) (buf : ℤ → R) (history : ℕ → R × R) :
    (writeHistory hLen buf history).2 = 0 ∧
    (∀ m < hLen, Resampler.samplesOf (writeHistory hLen buf history).1 (m - hLen) = history m) ∧
    ∀ t, 0 ≤ t → Resampler.samplesOf (writeHistory hLen buf history).1 t =
      Resampler.samplesOf buf t := by
  have hloop : (writeHistory hLen buf history).2 = 2 * ((hLen : ℤ) - hLen) ∧
      (∀ m < hLen, Resampler.samplesOf (writeHistory hLen buf history).1 (m - hLen) = history m) ∧
      ∀ t, (hLen : ℤ) - hLen ≤ t → Resampler.samplesOf (writeHistory hLen buf history).1 t =
        Resampler.samplesOf buf t := by
    refine Loop.upTo_induction (P := fun i (s : (ℤ → R) × ℤ) => s.2 = 2 * ((i : ℤ) - hLen) ∧
      (∀ m < i, Resampler.samplesOf s.1 (m - hLen) = history m) ∧
      ∀ t, (i : ℤ) - hLen ≤ t → Resampler.samplesOf s.1 t = Resampler.samplesOf buf t) ?_ ?_
    · exact ⟨by simp, by simp, fun _ _ => rfl⟩
    · rintro i hi ⟨b, fdst⟩ ⟨hfdst, hdone, hrest⟩
      simp only at hfdst hdone hrest
      subst hfdst
      refine ⟨by push_cast; ring, ?_, ?_⟩
      · intro m hm
        simp only [Resampler.samplesOf, Loop.loadPair_storePair_mul]
        split_ifs with h
        · rw [show m = i by omega]
        · exact hdone m (by omega)
      · intro t ht
        simp only [Resampler.samplesOf, Loop.loadPair_storePair_mul]
        rw [if_neg (by omega)]
        exact hrest t (by omega)
  obtain ⟨hfdst, hdone, hrest⟩ := hloop
  refine ⟨?_, hdone, fun t ht => hrest t (by omega)⟩
  rw [hfdst]
  ring

omit [CommRing R] in
/-- Every sample saved is the one that `fdst` points to. -/
theorem saveHistory_eq {hLen : ℕ} (cLen : ℕ) (buf : ℤ → R) (fdst : ℤ) (history : ℕ → R × R)
    {m : ℕ} (hm : m < hLen) :
    saveHistory hLen cLen buf fdst history m = Loop.loadPair buf fdst := by
  refine Loop.upTo_induction (P := fun i (s : (ℕ → R × R) × ℤ) =>
    ∀ m < i, s.1 m = Loop.loadPair buf fdst) (by simp) ?_ m hm
  rintro i - ⟨dst, fsrc⟩ hdone k hk
  rcases Nat.lt_succ_iff_lt_or_eq.mp hk with hk | rfl
  · exact (Function.update_of_ne hk.ne _ _).trans (hdone k hk)
  · exact Function.update_self _ _ _

omit [CommRing R] in
/-- **What becomes of the history**: it is put in front of the block, and replaced by copies
of the first sample of the block. -/
theorem updateHistory_spec (hLen cLen : ℕ) (buf : ℤ → R) (history : ℕ → R × R) :
    (∀ m < hLen, Resampler.samplesOf (updateHistory hLen cLen buf history).1 (m - hLen) =
      history m) ∧
    (∀ t, 0 ≤ t → Resampler.samplesOf (updateHistory hLen cLen buf history).1 t =
      Resampler.samplesOf buf t) ∧
    ∀ m < hLen, (updateHistory hLen cLen buf history).2 m = Resampler.samplesOf buf 0 := by
  obtain ⟨hfdst, hhead, hrest⟩ := writeHistory_spec hLen buf history
  refine ⟨hhead, hrest, fun m hm => ?_⟩
  have hsave := saveHistory_eq cLen (writeHistory hLen buf history).1
    (writeHistory hLen buf history).2 history hm
  rw [hfdst] at hsave
  rw [← hrest 0 le_rfl, Resampler.samplesOf, mul_zero, ← hsave, ← hfdst]
  rfl

omit [CommRing R] in
/-- The samples of an array whose first `n` pairs are given. -/
theorem samples_pairs (n : ℕ) (g : ℕ → R × R) (out : ℤ → R) :
    samples (Loop.pairs n g out) n = (List.range n).map g := by
  refine List.map_congr_left fun k hk => ?_
  rw [Resampler.samplesOf, Loop.loadPair_pairs _ _ (List.mem_range.mp hk)]

/-- A segment of the stream resampled. -/
def resampled (f : Prototype R) (x : ℤ → R × R) (len : ℕ) : List (R × R) :=
  (List.range len).map (resample RESAMP_INRATE RESAMP_OUTRATE filtLen f.tap x)

/-- What `rotate` writes to a segment is the block resampled, whatever was there before. -/
theorem samples_rotate (f : Prototype R) (sse3 : Bool) (inp out : ℤ → R) :
    samples (((Resampler.new RESAMP_INRATE RESAMP_OUTRATE filtLen).init f.proto f.scale).2.rotate
      (convolveInit sse3) inp outchunk out inchunk).2 inchunk =
      resampled f (Resampler.samplesOf inp) inchunk := by
  have hrot := Resampler.rotate_eq (by decide : 0 < RESAMP_INRATE)
    (by decide : 0 < RESAMP_OUTRATE) (by decide : 0 < filtLen)
    (by decide : RESAMP_INRATE * 4 ≤ MAX_OUTPUT_LEN) (by decide) (by decide) sse3 f.proto f.scale
    inp out
  rw [inchunk, outchunk, hrot, samples_pairs]
  rfl

/-! ## What has been received on a channel -/

/-- The samples of a block. -/
def Rotation.stream (r : Rotation R) : ℤ → R × R := Resampler.samplesOf r.block

/-- The first sample of the last block; zero before there is one. -/
def firstOfLast (blocks : List (ℤ → R)) : R × R :=
  (blocks.getLast?).elim 0 fun b => Resampler.samplesOf b 0

/-- The rotations of a channel for a list of blocks, and the history afterwards: every block
is resampled behind copies of the first sample of the block before it. -/
structure Rotated (f : Prototype R) (history : ℕ → R × R) (log : List (Rotation R))
    (blocks : List (ℤ → R)) : Prop where
  blocks_eq : log.map Rotation.block = blocks
  written : ∀ r ∈ log, r.written = resampled f (Resampler.samplesOf r.input) inchunk
  frame : ∀ r ∈ log, ∀ t, 0 ≤ t → Resampler.samplesOf r.input t = r.stream t
  head : ∀ k (hk : k < log.length), ∀ m < filtLen,
    Resampler.samplesOf log[k].input (m - filtLen) = firstOfLast (blocks.take k)
  stored : ∀ m < filtLen, history m = firstOfLast blocks

variable {f : Prototype R} {history : ℕ → R × R} {log : List (Rotation R)}
  {blocks : List (ℤ → R)} {taken : ℕ} {b : RadioBuffer (R × R)}

theorem Rotated.length_eq (h : Rotated f history log blocks) : log.length = blocks.length := by
  rw [← h.blocks_eq, List.length_map]

theorem Rotated.length_written (h : Rotated f history log blocks) :
    (log.flatMap Rotation.written).length = inchunk * blocks.length := by
  have hlen : ∀ r ∈ log, r.written.length = inchunk := by
    intro r hr
    rw [h.written r hr, resampled, List.length_map, List.length_range]
  rw [List.length_flatMap, List.map_congr_left hlen, List.map_const', List.sum_replicate,
    h.length_eq, smul_eq_mul, mul_comm]

/-- One more block. -/
theorem Rotated.concat (h : Rotated f history log blocks) (block : ℤ → R) :
    let hist := updateHistory filtLen outchunk block history
    Rotated f hist.2
      (log ++ [⟨block, hist.1, resampled f (Resampler.samplesOf hist.1) inchunk⟩])
      (blocks ++ [block]) := by
  intro hist
  obtain ⟨hhead, hframe, htail⟩ := updateHistory_spec filtLen outchunk block history
  refine ⟨?_, ?_, ?_, ?_, ?_⟩
  · rw [List.map_append, h.blocks_eq, List.map_singleton]
  · exact Run.forall_mem_log h.written rfl
  · exact Run.forall_mem_log h.frame hframe
  · intro k hk m hm
    rcases Run.getElem_log_cases hk with ⟨hold, hget⟩ | ⟨rfl, hget⟩
    · rw [hget, List.take_append_of_le_length (by rw [← h.length_eq]; exact hold.le)]
      exact h.head k hold m hm
    · rw [hget, h.length_eq, List.take_left, hhead m hm]
      exact h.stored m hm
  · intro m hm
    rw [htail m hm, firstOfLast, List.getLast?_append_of_ne_nil _ (by simp)]
    rfl

/-- The receive buffer of a channel, its history and its rotations: the buffer holds what has
been written and not yet taken. -/
structure Channel (f : Prototype R) (b : RadioBuffer (R × R)) (history : ℕ → R × R)
    (log : List (Rotation R)) (blocks : List (ℤ → R)) (taken : ℕ) : Prop where
  layout : b.toLayout = ⟨NUMCHUNKS, inchunk, 0, false⟩
  aligned : b.segmentLen ∣ b.writeIndex
  taken_le : taken ≤ inchunk * blocks.length
  holds : b.Holds ((log.flatMap Rotation.written).drop taken)
  rotated : Rotated f history log blocks

namespace Channel

theorem avail (h : Channel f b history log blocks taken) :
    b.availSamples + taken = inchunk * blocks.length := by
  have := h.taken_le
  rw [h.holds.avail, List.length_drop, h.rotated.length_written]
  omega

theorem segmentLen (h : Channel f b history log blocks taken) : b.segmentLen = inchunk := by
  rw [h.layout]

theorem bufferLen (h : Channel f b history log blocks taken) :
    b.bufferLen = NUMCHUNKS * inchunk := by
  rw [RadioBuffer.bufferLen, h.layout]

/-- There is a free segment as long as the buffer is not full. -/
theorem room_iff (h : Channel f b history log blocks taken) :
    0 < b.getFreeSegments ↔ inchunk * blocks.length + inchunk ≤ NUMCHUNKS * inchunk + taken := by
  have havail := h.avail
  have hlen := h.bufferLen
  have hfits := h.holds.fits
  have hheld := h.holds.avail
  rw [RadioBuffer.getFreeSegments, RadioBuffer.getFreeSamples, Nat.div_pos_iff, h.segmentLen]
  have hpos : 0 < inchunk := by decide
  omega

/-- The segment of a new block is written. -/
theorem rotate (h : Channel f b history log blocks taken)
    (hroom : inchunk * blocks.length + inchunk ≤ NUMCHUNKS * inchunk + taken) (block : ℤ → R) :
    let hist := updateHistory filtLen outchunk block history
    let wr := resampled f (Resampler.samplesOf hist.1) inchunk
    ∃ segment b', b.getWriteSegment = (some segment, b') ∧ b'.segmentLen = inchunk ∧
      Channel f (b'.store segment wr) hist.2 (log ++ [⟨block, hist.1, wr⟩]) (blocks ++ [block])
        taken := by
  intro hist wr
  have hlen := h.rotated.length_written
  have htaken := h.taken_le
  have hwr : wr.length = inchunk := by simp [wr, resampled]
  obtain ⟨segment, b', hget, hholds, hlay, hal⟩ := RadioBuffer.getWriteSegment_spec h.holds
    (by rw [h.layout]) h.aligned (hwr.trans h.segmentLen.symm)
    (by rw [h.segmentLen, h.bufferLen, List.length_drop, hlen]; omega)
  refine ⟨segment, b', hget, by rw [hlay, h.layout], hlay.trans h.layout, hal, ?_, ?_,
    h.rotated.concat block⟩
  · rw [List.length_append, List.length_singleton, Nat.mul_succ]
    omega
  · rw [List.flatMap_append, List.flatMap_singleton, List.drop_append_of_le_length (by omega)]
    exact hholds

/-- Samples are taken off, if there are as many. -/
theorem take (h : Channel f b history log blocks taken) (size : ℕ) :
    Channel f (unRadioifyVector b size).2 history log blocks
      (if size + taken ≤ inchunk * blocks.length then taken + size else taken) := by
  have havail := h.avail
  by_cases hsize : size + taken ≤ inchunk * blocks.length
  · have hheld : size ≤ ((log.flatMap Rotation.written).drop taken).length := by
      rw [← h.holds.avail]
      omega
    obtain ⟨-, hholds, hlay, hwrite⟩ := unRadioifyVector_spec h.holds (by rw [h.layout])
      (by rw [h.layout]) hheld
    have hseg := congrArg Layout.segmentLen hlay
    rw [if_pos hsize]
    refine ⟨hlay.trans h.layout, ?_, by omega, ?_, h.rotated⟩
    · rw [hwrite, hseg]
      exact h.aligned
    · rwa [List.drop_drop] at hholds
  · rw [if_neg hsize, unRadioifyVector, if_pos (by omega)]
    exact h

end Channel

/-! ## All channels -/

/-- The physical channel of a logical one. -/
def physicalChan (n : ℕ) (i : Fin (n + 1)) : Fin MCHANS :=
  match n, i.val with
  | 1, 1 => ⟨3, by decide⟩
  | 2, 0 => ⟨1, by decide⟩
  | 2, 2 => ⟨3, by decide⟩
  | _, _ => ⟨0, by decide⟩

theorem getLogicalChan_physicalChan (hn : n + 1 ≤ MCHANS - 1) (i : Fin (n + 1)) :
    getLogicalChan (physicalChan n i) (n + 1) = i.val := by
  have hn : n < 3 := by simpa [MCHANS] using hn
  revert i
  interval_cases n <;> decide

theorem physicalChan_injective (hn : n + 1 ≤ MCHANS - 1) : Function.Injective (physicalChan n) := by
  intro i j hij
  have hi := getLogicalChan_physicalChan hn i
  rw [hij, getLogicalChan_physicalChan hn j] at hi
  exact Fin.ext (by omega)

/-- Exactly the channels that have a logical one are active. -/
theorem active_iff (hn : n + 1 ≤ MCHANS - 1) {active : Fin MCHANS → Bool}
    (h : activeChannels (n + 1) = some active) (pchan : Fin MCHANS) :
    active pchan = true ↔ ∃ i, physicalChan n i = pchan := by
  have hn : n < 3 := by simpa [MCHANS] using hn
  revert pchan
  interval_cases n <;> (obtain rfl := Option.some.inj h; decide)

/-- What `init` has fixed. -/
structure Configured (f : Prototype R) (t : RadioInterfaceMulti n R) : Prop where
  chans : n + 1 ≤ MCHANS - 1
  active : activeChannels (n + 1) = some t.active
  dnsampler : t.dnsampler =
    ((Resampler.new RESAMP_INRATE RESAMP_OUTRATE filtLen).init f.proto f.scale).2
  channelizer : t.channelizer = ⟨MCHANS, outchunk⟩

/-- Every channel `i` has received the blocks `blocks i`. -/
structure Channels (f : Prototype R) (s : Reception n R) (blocks : Fin (n + 1) → List (ℤ → R))
    (taken : ℕ) : Prop where
  configured : Configured f s.radio
  chan : ∀ i, Channel f (s.radio.recvBuffer i) (s.radio.history i) (s.log i) (blocks i) taken

variable {s : Reception n R} {chanBlocks : Fin (n + 1) → List (ℤ → R)}

/-- The turn of a channel that is not active does nothing. -/
theorem pullChannel_skip (sse3 : Bool) (h : Configured f s.radio) (r : MultiRead R)
    {pchan : Fin MCHANS}
    (hp : ∀ i, physicalChan n i ≠ pchan) :
    pullChannel (convolveInit sse3) r s pchan = some s := by
  have hoff : ¬ s.radio.active pchan = true := by
    rw [active_iff h.chans h.active]
    rintro ⟨i, hi⟩
    exact hp i hi
  rw [pullChannel, if_pos (by simpa using hoff)]

/-- The turn of an active channel receives its block. -/
theorem pullChannel_active (sse3 : Bool) (h : Channels f s chanBlocks taken) (r : MultiRead R)
    (i : Fin (n + 1))
    (hroom : inchunk * (chanBlocks i).length + inchunk ≤ NUMCHUNKS * inchunk + taken) :
    ∃ s', pullChannel (convolveInit sse3) r s (physicalChan n i) = some s' ∧ s'.reads = s.reads ∧
      Channels f s' (Function.update chanBlocks i
        (chanBlocks i ++ [r.outputBuffer (physicalChan n i)])) taken := by
  have hconf := h.configured
  have hon : s.radio.active (physicalChan n i) = true :=
    (active_iff hconf.chans hconf.active _).mpr ⟨i, rfl⟩
  have hlog := getLogicalChan_physicalChan hconf.chans i
  have hlen : ((Resampler.new RESAMP_INRATE RESAMP_OUTRATE filtLen).init f.proto f.scale).2.len =
      filtLen := rfl
  have hcLen : s.radio.channelizer.outputLen = outchunk := by rw [hconf.channelizer]; rfl
  obtain ⟨segment, b', hget, hseg, hchan⟩ := (h.chan i).rotate hroom
    (r.outputBuffer (physicalChan n i))
  have hpos : ¬ ((i.val : ℤ) < 0) := by omega
  have hlt : (i.val : ℤ).toNat < n + 1 := by omega
  have hi : (⟨(i.val : ℤ).toNat, hlt⟩ : Fin (n + 1)) = i := Fin.ext (by simp)
  simp only [pullChannel, hon, Bool.not_true, Bool.false_eq_true, if_false, hlog, hpos, hlt,
    dif_pos, hi, hlen, hcLen, hget, hseg, hconf.dnsampler, samples_rotate]
  refine ⟨_, rfl, rfl, ⟨hconf.chans, hconf.active, rfl, hconf.channelizer⟩, ?_⟩
  intro j
  rcases eq_or_ne j i with rfl | hne
  · simp only [Function.update_self]
    exact hchan
  · simp only [Function.update_of_ne hne]
    exact h.chan j

/-- **The loop over the channels** receives a block on every active channel it visits. -/
theorem pullChannels (sse3 : Bool) (r : MultiRead R) {l : List (Fin MCHANS)} (hl : l.Nodup)
    (h : Channels f s chanBlocks taken)
    (hroom : ∀ i, physicalChan n i ∈ l →
      inchunk * (chanBlocks i).length + inchunk ≤ NUMCHUNKS * inchunk + taken) :
    ∃ s', l.foldlM (pullChannel (convolveInit sse3) r) s = some s' ∧ s'.reads = s.reads ∧
      Channels f s' (fun i => if physicalChan n i ∈ l then
        chanBlocks i ++ [r.outputBuffer (physicalChan n i)] else chanBlocks i) taken := by
  -- The channels on the part of the list that is done have one block more.
  refine Loop.foldlM_induction (P := fun done s' => s'.reads = s.reads ∧
    Channels f s' (fun i => if physicalChan n i ∈ done then
      chanBlocks i ++ [r.outputBuffer (physicalChan n i)] else chanBlocks i) taken)
    ⟨rfl, by simpa using h⟩ ?_
  rintro done p rest rfl s' ⟨hreads, hdone⟩
  by_cases hex : ∃ i, physicalChan n i = p
  · obtain ⟨i, rfl⟩ := hex
    have hfresh : physicalChan n i ∉ done := fun hi =>
      List.disjoint_of_nodup_append hl hi List.mem_cons_self
    obtain ⟨s1, hpull, hreads1, h1⟩ := pullChannel_active sse3 hdone r i (by
      rw [if_neg hfresh]
      exact hroom i (List.mem_append_right _ List.mem_cons_self))
    refine ⟨s1, hpull, hreads1.trans hreads, ?_⟩
    convert h1 using 2 with j
    rcases eq_or_ne j i with rfl | hne
    · rw [if_pos (List.mem_append_right _ List.mem_cons_self), Function.update_self, if_neg hfresh]
    · have hphys : physicalChan n j ≠ physicalChan n i := fun hji =>
        hne (physicalChan_injective h.configured.chans hji)
      simp only [Function.update_of_ne hne, List.mem_append, List.mem_singleton, hphys, or_false]
  · refine ⟨s', pullChannel_skip sse3 hdone.configured r fun i hi => hex ⟨i, hi⟩, hreads, ?_⟩
    convert hdone using 2 with j
    have hphys : physicalChan n j ≠ p := fun hj => hex ⟨j, hj⟩
    simp only [List.mem_append, List.mem_singleton, hphys, or_false]

/-! ## Runs -/

/-- The blocks that a logical channel has received. -/
def received (s : Reception n R) (i : Fin (n + 1)) : List (ℤ → R) :=
  s.reads.map fun r => r.outputBuffer (physicalChan n i)

/-- All channels have received the blocks of the same reads. -/
abbrev Pulled (f : Prototype R) (s : Reception n R) (taken : ℕ) : Prop :=
  Channels f s (received s) taken

omit [CommRing R] in
theorem length_received (s : Reception n R) (i : Fin (n + 1)) :
    (received s i).length = s.reads.length := List.length_map _

/-- A full chunk is taken if there is room for it. -/
theorem Pulled.accept (sse3 : Bool) (h : Pulled f s taken) {r : MultiRead R}
    (hroom : inchunk * s.reads.length + inchunk ≤ NUMCHUNKS * inchunk + taken)
    (hnum : r.num = (MCHANS * outchunk : ℕ)) :
    ∃ s', pullBuffer (convolveInit sse3) s r = some (0, s') ∧ s'.reads = s.reads ++ [r] ∧
      Pulled f s' taken := by
  have hfree : ¬ (s.radio.recvBuffer 0).getFreeSegments ≤ 0 := by
    rw [not_le, (h.chan 0).room_iff, length_received]
    exact hroom
  have hlen : s.radio.channelizer.inputLen = MCHANS * outchunk := by
    rw [h.configured.channelizer]
    rfl
  have hmid : Channels f { s with radio := { s.radio with
      overrun := r.overrun
      underrun := s.radio.underrun || r.local_underrun
      readTimestamp := s.radio.readTimestamp + UInt64.ofNat r.num.toNat } } (received s) taken :=
    ⟨⟨h.configured.chans, h.configured.active, h.configured.dnsampler, h.configured.channelizer⟩,
      h.chan⟩
  obtain ⟨s', hfold, hreads, h'⟩ := pullChannels sse3 r (List.nodup_finRange MCHANS) hmid
    (fun i _ => by rw [length_received]; exact hroom)
  refine ⟨{ s' with reads := s'.reads ++ [r] }, ?_, by rw [hreads], ?_⟩
  · simp only [pullBuffer, hfree, if_false, hlen, hnum, ne_eq, not_true_eq_false]
    rw [hnum] at hfold
    rw [hfold]
    rfl
  · have hblocks : received { s' with reads := s'.reads ++ [r] } = fun i =>
        if physicalChan n i ∈ List.finRange MCHANS then
          received s i ++ [r.outputBuffer (physicalChan n i)] else received s i := by
      funext i
      rw [if_pos (List.mem_finRange _), received, hreads, List.map_append]
      rfl
    rw [Pulled, hblocks]
    exact ⟨h'.configured, h'.chan⟩

/-- **A call of `pullBuffer`** never faults.  It takes a full chunk where a segment is free, and
nothing otherwise. -/
theorem Pulled.pull (sse3 : Bool) (h : Pulled f s taken) (r : MultiRead R) :
    ∃ s', pullBuffer (convolveInit sse3) s r =
        some (if 0 < (s.radio.recvBuffer 0).getFreeSegments ∧ r.num = (MCHANS * outchunk : ℕ)
          then 0 else -1, s') ∧
      s'.reads = s.reads ++
        (if 0 < (s.radio.recvBuffer 0).getFreeSegments ∧ r.num = (MCHANS * outchunk : ℕ)
          then [r] else []) ∧
      Pulled f s' taken := by
  by_cases hfree : 0 < (s.radio.recvBuffer 0).getFreeSegments
  · by_cases hnum : r.num = (MCHANS * outchunk : ℕ)
    · have hroom := hfree
      rw [(h.chan 0).room_iff, length_received] at hroom
      obtain ⟨s', hpull, hreads, h'⟩ := h.accept sse3 hroom hnum
      exact ⟨s', by rw [hpull, if_pos ⟨hfree, hnum⟩], by rw [hreads, if_pos ⟨hfree, hnum⟩], h'⟩
    · have hrefused := not_and_of_not_right (0 < (s.radio.recvBuffer 0).getFreeSegments) hnum
      have hlen : s.radio.channelizer.inputLen = MCHANS * outchunk := by
        rw [h.configured.channelizer]
        rfl
      refine ⟨{ s with radio := { s.radio with overrun := r.overrun } }, ?_, ?_, ?_⟩
      · rw [pullBuffer, if_neg (not_le.mpr hfree), if_neg hrefused]
        simp only [hlen, ne_eq, hnum, not_false_eq_true, if_true]
      · rw [if_neg hrefused, List.append_nil]
      · exact ⟨⟨h.configured.chans, h.configured.active, h.configured.dnsampler,
          h.configured.channelizer⟩, h.chan⟩
  · have hrefused := not_and_of_not_left (r.num = (MCHANS * outchunk : ℕ)) hfree
    refine ⟨s, ?_, ?_, h⟩
    · rw [pullBuffer, if_pos (not_lt.mp hfree), if_neg hrefused]
    · rw [if_neg hrefused, List.append_nil]

/-- One event keeps the account, and adds the chunk that is answered with 0. -/
theorem pulled_step (sse3 : Bool) (h : Pulled f s taken) (e : Event R) :
    ∃ s' taken', step (convolveInit sse3) (some s) e = some s' ∧
      s'.reads = s.reads ++ answered (convolveInit sse3) (some s) e ∧ Pulled f s' taken' := by
  cases e with
  | pull r =>
    obtain ⟨s', hpull, hreads, h'⟩ := h.pull sse3 r
    refine ⟨s', taken, by rw [step, hpull]; rfl, ?_, h'⟩
    rw [hreads, answered, hpull, Option.map_some]
    by_cases haccept : 0 < (s.radio.recvBuffer 0).getFreeSegments ∧
      r.num = (MCHANS * outchunk : ℕ)
    · simp [haccept]
    · simp only [if_neg haccept]
      simp
  | take size =>
    refine ⟨_, if size + taken ≤ inchunk * s.reads.length then taken + size else taken, rfl,
      (List.append_nil _).symm, ?_⟩
    refine ⟨⟨h.configured.chans, h.configured.active, h.configured.dnsampler,
      h.configured.channelizer⟩, fun i => ?_⟩
    have htake := (h.chan i).take size
    rw [length_received] at htake
    exact htake

/-- **A run keeps the account**, with the chunks that were answered with 0, and never faults. -/
theorem pulled_exec (sse3 : Bool) (events : List (Event R)) :
    ∀ {s : Reception n R} {taken : ℕ}, Pulled f s taken →
    ∃ s' taken', Run.exec (step (convolveInit sse3)) (some s) events = some s' ∧
      s'.reads = s.reads ++ accepted (convolveInit sse3) (some s) events ∧
      Pulled f s' taken' := by
  induction events with
  | nil =>
    intro s taken h
    exact ⟨s, taken, rfl, (List.append_nil _).symm, h⟩
  | cons e events ih =>
    intro s taken h
    obtain ⟨s', taken', hstep, hreads, h'⟩ := pulled_step sse3 h e
    obtain ⟨s'', taken'', hexec, hreads', h''⟩ := ih h'
    refine ⟨s'', taken'', by rw [Run.exec_cons, hstep, hexec], ?_, h''⟩
    rw [hreads', hreads, accepted, hstep, List.append_assoc]

/-- A new receive buffer, and what `start` makes of it. -/
theorem channel_fresh {b : RadioBuffer (R × R)}
    (hb : Fresh b ⟨NUMCHUNKS, inchunk, 0, false⟩) :
    Channel f b (fun _ => 0) [] [] 0 := by
  have hpos : 0 < b.bufferLen := by
    rw [RadioBuffer.bufferLen, hb.layout]
    decide
  refine ⟨hb.layout, ?_, Nat.zero_le _, RadioBuffer.holds_nil hpos hb.read hb.write hb.avail, ?_⟩
  · rw [hb.write]
    exact dvd_zero _
  · exact ⟨rfl, by simp, by simp, by simp, fun _ _ => rfl⟩

/-- The radio interface after `init` and `start` has received nothing. -/
theorem pulled_start {t₀ : RadioInterface n (R × R)} {dn up : Prototype R}
    {sendMem recvMem : Fin (n + 1) → ℕ → R × R} {t : RadioInterfaceMulti n R}
    (ht : init t₀ dn up sendMem recvMem = some t) (d : DeviceStart) :
    Pulled dn ⟨(t.start d).2, [], fun _ => []⟩ 0 := by
  unfold init at ht
  split_ifs at ht with hchans
  obtain ⟨active, hactive, rfl⟩ := Option.map_eq_some_iff.mp ht
  refine ⟨⟨not_lt.mp hchans, hactive, rfl, rfl⟩, fun i => channel_fresh ?_⟩
  simp only [RadioInterfaceMulti.start, RadioInterface.start]
  split_ifs <;> exact ⟨rfl, rfl, rfl, rfl⟩

/-! ## Continuity -/

/-- **Receive continuity** of a channel: in front of every block lies the end of the block
before it, zeros in front of the first, and the segments written are the stream of all
blocks resampled. -/
structure Continuous (f : Prototype R) (log : List (Rotation R)) : Prop where
  first : ∀ h : 0 < log.length, ∀ m < filtLen,
    Resampler.samplesOf log[0].input (m - filtLen) = 0
  next : ∀ k (hk : k + 1 < log.length), ∀ m < filtLen,
    Resampler.samplesOf log[k + 1].input (m - filtLen) =
      Resampler.samplesOf log[k].block (outchunk - filtLen + m)
  output : log.flatMap Rotation.written =
    resampled f (blockStream outchunk (log.map Rotation.stream)) (inchunk * log.length)

/-- Every block but the last ends with `filtLen` copies of its first sample. -/
def EndAsBegan (blocks : List (ℤ → R)) : Prop :=
  ∀ k (hk : k + 1 < blocks.length), ∀ m < filtLen,
    Resampler.samplesOf blocks[k] (outchunk - filtLen + m) =
      Resampler.samplesOf blocks[k] 0

/-- What lies in front of a block that is not the first. -/
theorem Rotated.head_succ (h : Rotated f history log blocks) {k : ℕ} (hk : k + 1 < log.length)
    {m : ℕ} (hm : m < filtLen) :
    Resampler.samplesOf log[k + 1].input (m - filtLen) =
      Resampler.samplesOf log[k].block 0 := by
  have hk' : k < log.length := Nat.lt_of_succ_lt hk
  have hlen : k < blocks.length := by rw [← h.length_eq]; exact hk'
  have hblock : blocks[k] = log[k].block := by
    simp only [← h.blocks_eq, List.getElem_map]
  rw [h.head (k + 1) hk m hm, firstOfLast, List.take_add_one, List.getElem?_eq_getElem hlen,
    Option.toList_some, List.getLast?_concat, hblock]
  rfl

/-- If the history is continuous, the output is. -/
theorem Rotated.output_of_history (h : Rotated f history log blocks)
    (hfirst : ∀ h : 0 < log.length, ∀ m < filtLen,
      Resampler.samplesOf log[0].input (m - filtLen) = 0)
    (hnext : ∀ k (hk : k + 1 < log.length), ∀ m < filtLen,
      Resampler.samplesOf log[k + 1].input (m - filtLen) =
        Resampler.samplesOf log[k].block (outchunk - filtLen + m)) :
    log.flatMap Rotation.written =
      resampled f (blockStream outchunk (log.map Rotation.stream)) (inchunk * log.length) := by
  have hwritten : log.flatMap Rotation.written =
      (log.map fun r => Resampler.samplesOf r.input).flatMap fun x => resampled f x inchunk := by
    rw [List.flatMap_map]
    exact List.flatMap_congr h.written
  have hflat : ((log.map fun r => Resampler.samplesOf r.input).flatMap fun x =>
      resampled f x (RESAMP_INRATE * 4)) =
      resampled f (blockStream (RESAMP_OUTRATE * 4) (log.map Rotation.stream))
        (RESAMP_INRATE * 4 * (log.map fun r => Resampler.samplesOf r.input).length) := by
    refine flatMap_resample_blocks (by decide) (by decide) (by decide) (by simp) ?_ ?_ ?_
    · intro k hk t h0 _
      rw [List.length_map] at hk
      rw [List.getElem_map, List.getElem_map]
      exact h.frame _ (List.getElem_mem hk) t h0
    · intro h0 m hm
      rw [List.length_map] at h0
      rw [List.getElem_map]
      exact hfirst h0 m hm
    · intro k hk m hm
      rw [List.length_map] at hk
      rw [List.getElem_map, List.getElem_map]
      exact hnext k hk m hm
  rw [List.length_map] at hflat
  exact hwritten.trans hflat

/-- The channel is continuous exactly if its blocks end as they began. -/
theorem Rotated.continuous_iff (h : Rotated f history log blocks) :
    Continuous f log ↔ EndAsBegan blocks := by
  have hlen := h.length_eq
  have hblock : ∀ k (hk : k < log.length), log[k].block = blocks[k] := fun k hk => by
    simp only [← h.blocks_eq, List.getElem_map]
  constructor
  · intro hc k hk m hm
    have hk' : k + 1 < log.length := by omega
    rw [← hblock k (by omega), ← hc.next k hk' m hm]
    exact h.head_succ hk' hm
  · intro hend
    have hfirst : ∀ h : 0 < log.length, ∀ m < filtLen,
        Resampler.samplesOf log[0].input (m - filtLen) = 0 := fun h0 m hm => by
      rw [h.head 0 h0 m hm]
      rfl
    have hnext : ∀ k (hk : k + 1 < log.length), ∀ m < filtLen,
        Resampler.samplesOf log[k + 1].input (m - filtLen) =
          Resampler.samplesOf log[k].block (outchunk - filtLen + m) := fun k hk m hm => by
      rw [h.head_succ hk hm, hblock k (by omega)]
      exact (hend k (by omega) m hm).symm
    exact ⟨hfirst, hnext, h.output_of_history hfirst hnext⟩

/-- **The channel is resampled as one stream if and only if every block but the last ends as
it began**: in every run of calls from a start, which never faults, and on every channel.  The
blocks are those of the chunks that `pullBuffer` has answered with 0, and after any run it takes the
next one just if a segment is free and the chunk is full.  What the code puts in front of a block is its history, but what it saves as the history is
the first sample of the block, `filtLen` times, in place of the last `filtLen` samples. -/
theorem pullBuffer_continuous_iff {t₀ : RadioInterface n (R × R)} {dn up : Prototype R}
    {sendMem recvMem : Fin (n + 1) → ℕ → R × R} {t : RadioInterfaceMulti n R}
    (ht : init t₀ dn up sendMem recvMem = some t) (d : DeviceStart) (sse3 : Bool)
    (events : List (Event R)) :
    ∃ s taken, Run.exec (step (convolveInit sse3)) (some ⟨(t.start d).2, [], fun _ => []⟩) events =
        some s ∧
      s.reads = accepted (convolveInit sse3) (some ⟨(t.start d).2, [], fun _ => []⟩) events ∧
      (∀ r, (pullBuffer (convolveInit sse3) s r).map Prod.fst =
        some (if 0 < (s.radio.recvBuffer 0).getFreeSegments ∧ r.num = (MCHANS * outchunk : ℕ)
          then 0 else -1)) ∧
      Pulled dn s taken ∧ ∀ i, Continuous dn (s.log i) ↔ EndAsBegan (received s i) := by
  obtain ⟨s, taken, hexec, hreads, h⟩ := pulled_exec sse3 events (pulled_start ht d)
  refine ⟨s, taken, hexec, hreads, fun r => ?_, h, fun i => (h.chan i).rotated.continuous_iff⟩
  obtain ⟨s', hpull, -, -⟩ := h.pull sse3 r
  rw [hpull, Option.map_some]

end Interface

/-! ## Two blocks -/

/-- A filter that delays by one sample. -/
def delay : Prototype ℤ := ⟨fun k => if k = RESAMP_INRATE then 1 else 0, 1⟩

/-- A radio interface that has not been started. -/
def idle (n : ℕ) : RadioInterface n (ℤ × ℤ) where
  mSPSTx := 4
  mSPSRx := 1
  receiveOffset := 3
  mOn := false
  mClock := ⟨0, 0⟩
  sendBuffer := fun _ => .new 0 0 0 true fun _ => 0
  recvBuffer := fun _ => .new 0 0 0 false fun _ => 0
  powerScaling := fun _ => 1
  mReceiveFIFO := fun _ => []
  underrun := false
  overrun := false
  writeTimestamp := 0
  readTimestamp := 0

/-- A full chunk in which all channels have a block that is zero but for its last sample. -/
def endsWithOne : MultiRead ℤ := ⟨768, false, false, fun _ j => if j = 382 then 1 else 0⟩

/-- A full chunk of silence. -/
def silence : MultiRead ℤ := ⟨768, false, false, fun _ _ => 0⟩

theorem pullBuffer_continuous_iff_two :
    ∃ t, init (idle 1) delay delay (fun _ _ => 0) (fun _ _ => 0) = some t ∧
      ∃ s taken, Run.exec (step (convolveInit true))
          (some ⟨(t.start ⟨true, 0, 0⟩).2, [], fun _ => []⟩)
          [.pull endsWithOne, .take 156, .pull silence] = some s ∧
        s.reads = accepted (convolveInit true) (some ⟨(t.start ⟨true, 0, 0⟩).2, [], fun _ => []⟩)
          [.pull endsWithOne, .take 156, .pull silence] ∧
        (∀ r, (pullBuffer (convolveInit true) s r).map Prod.fst =
          some (if 0 < (s.radio.recvBuffer 0).getFreeSegments ∧ r.num = (MCHANS * outchunk : ℕ)
            then 0 else -1)) ∧
        Pulled delay s taken ∧ ∀ i, Continuous delay (s.log i) ↔ EndAsBegan (received s i) :=
  ⟨_, rfl, pullBuffer_continuous_iff rfl ⟨true, 0, 0⟩ true _⟩

/-- At the outputs that the first partition computes, the filter takes the sample before. -/
theorem resample_delay (x : ℤ → ℤ × ℤ) {j : ℕ} (hj : RESAMP_OUTRATE * j % RESAMP_INRATE = 0) :
    resample RESAMP_INRATE RESAMP_OUTRATE filtLen delay.tap x j =
      x ((RESAMP_OUTRATE * j / RESAMP_INRATE : ℕ) - 1) := by
  have htap : ∀ i, delay.tap (RESAMP_INRATE * i + 0) = if i = 1 then 1 else 0 := by
    intro i
    simp only [Prototype.tap, prototypeTap, delay, RESAMP_INRATE, mul_one]
    split_ifs <;> omega
  rw [resample_polyphase (by decide), hj, Finset.sum_eq_single_of_mem 1 (by decide)]
  · rw [htap, if_pos rfl, one_smul]
    rfl
  · intro i _ hi
    rw [htap, if_neg hi, zero_smul]

/-- After a block that is zero but for its last sample, the second segment starts with a
zero: it should start with that sample. -/
theorem history_lost :
    ∃ t, init (idle 0) delay delay (fun _ _ => 0) (fun _ _ => 0) = some t ∧
      ∃ s, Run.exec (step (convolveInit true)) (some ⟨(t.start ⟨true, 0, 0⟩).2, [], fun _ => []⟩)
          [.pull endsWithOne, .pull silence] = some s ∧
        ((s.log 0).flatMap Rotation.written)[260]? = some (0, 0) ∧
        (resampled delay (blockStream outchunk ((s.log 0).map Rotation.stream))
          (inchunk * (s.log 0).length))[260]? = some (1, 0) ∧
        ¬ Continuous delay (s.log 0) := by
  obtain ⟨t, ht⟩ : ∃ t, init (idle 0) delay delay (fun _ _ => 0) (fun _ _ => 0) = some t :=
    ⟨_, rfl⟩
  obtain ⟨s1, hpull1, hreads1, h1⟩ := (pulled_start ht ⟨true, 0, 0⟩).accept true
    (r := endsWithOne) (show inchunk * 0 + inchunk ≤ NUMCHUNKS * inchunk + 0 by decide) rfl
  obtain ⟨s2, hpull2, hreads2, h2⟩ := h1.accept true (r := silence)
    (by rw [hreads1]; exact (by decide : inchunk * 1 + inchunk ≤ NUMCHUNKS * inchunk + 0)) rfl
  have hrot := (h2.chan 0).rotated
  have hreceived : received s2 0 = [endsWithOne.outputBuffer (physicalChan 0 0),
      silence.outputBuffer (physicalChan 0 0)] := by
    rw [received, hreads2, hreads1]
    rfl
  rw [hreceived] at hrot
  obtain ⟨a, b, hlog⟩ := List.length_eq_two.mp hrot.length_eq
  rw [hlog] at hrot
  -- in front of the second block there is the first sample of the first
  have hhead : Resampler.samplesOf b.input (-1) = 0 := hrot.head 1 (by simp) 15 (by decide)
  have hblock : a.block = endsWithOne.outputBuffer (physicalChan 0 0) :=
    (List.cons.inj hrot.blocks_eq).1
  have hwritten : ([a, b].flatMap Rotation.written)[260]? = some (0, 0) := by
    have ha : a.written.length = 260 := by
      rw [hrot.written a (by simp), resampled, List.length_map, List.length_range]
      rfl
    have hb := hrot.written b (by simp)
    have hzero := resample_delay (Resampler.samplesOf b.input) (j := 0) rfl
    rw [List.flatMap_cons, List.getElem?_append_right (by omega), ha, List.flatMap_singleton, hb,
      resampled, List.getElem?_map, List.getElem?_range (by decide), Option.map_some, hzero]
    exact congrArg some hhead
  have hstream : (resampled delay (blockStream outchunk ([a, b].map Rotation.stream))
      (inchunk * [a, b].length))[260]? = some (1, 0) := by
    have hone := resample_delay (blockStream outchunk ([a, b].map Rotation.stream)) (j := 260) rfl
    have hlt : 260 < inchunk * [a, b].length := (by decide : 260 < inchunk * 2)
    rw [resampled, List.getElem?_map, List.getElem?_range hlt, Option.map_some, hone]
    have hlast : blockStream outchunk ([a, b].map Rotation.stream)
        ((outchunk : ℤ) * (0 : ℕ) + 191) = a.stream 191 :=
      blockStream_block (by simp) (by norm_num) (by decide)
    rw [Rotation.stream, hblock] at hlast
    exact congrArg some hlast
  refine ⟨t, ht, s2, ?_, by rw [hlog]; exact hwritten, by rw [hlog]; exact hstream, ?_⟩
  · rw [Run.exec_cons, step, hpull1, Option.map_some, Run.exec_cons, step, hpull2]
    rfl
  · intro hcont
    rw [hlog] at hcont
    have heq := congrArg (·[260]?) hcont.output
    simp only [hwritten, hstream] at heq
    exact absurd heq (by decide)

end Multi
end Radio
end OsmoTrx
