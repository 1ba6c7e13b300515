import OsmoTrx.Radio.Upsampled
import OsmoTrx.Dsp.SignalVector

/-!
# Receiving at the rate of the device

`init` and `pullBuffer` of `radioInterfaceResamp.cpp`.  A chunk from the device goes to an outer
buffer with head room for the filter, is resampled into the next segment of the receive buffer,
and its end is moved to the head room for the next chunk.

* `Received` — what has been received; `received_pull` and `received_take` keep it.
* `Streamed` — the head room holds the end of the chunk before, the segments are the stream of all
  chunks resampled, and no tap reads outside of the outer buffer.
* `pullBuffer_stream` — **the chunks that are taken are resampled as one stream**, over any run.
-/

namespace OsmoTrx
namespace Radio
namespace Resamp

open Dsp
open Multi (Prototype filtLen)

/-! ## State -/

/-- `RadioDevice::InterfaceType`. -/
inductive InterfaceType
  | NORMAL
  | RESAMP_64M
  | RESAMP_100M
  | MULTI_ARFCN
  deriving DecidableEq, Repr

def RESAMP_64M_INRATE : ℕ := 65

def RESAMP_64M_OUTRATE : ℕ := 96

def RESAMP_100M_INRATE : ℕ := 52

def RESAMP_100M_OUTRATE : ℕ := 75

def NUMCHUNKS : ℕ := 24

/-- The rates inside and outside, `resamp_inrate` and `resamp_outrate`. -/
def InterfaceType.rates : InterfaceType → Option (ℕ × ℕ)
  | .RESAMP_64M => some (RESAMP_64M_INRATE, RESAMP_64M_OUTRATE)
  | .RESAMP_100M => some (RESAMP_100M_INRATE, RESAMP_100M_OUTRATE)
  | _ => none

/-- `class RadioInterfaceResamp` with what it receives by. -/
structure Receiver (R : Type) extends RadioInterfaceResamp R where
  dnsampler : Resampler R
  outerRecvBuffer : SignalVector R

variable {R D : Type} [CommRing R]

/-- The only channel. -/
def chan : Fin (0 + 1) := Fin.last 0

theorem chan_eq : chan = 0 := rfl

/-- `init`; `none` if it fails.  New signal vectors are zero, the memory of the inner buffers has
some contents. -/
def init (t : RadioInterface 0 (R × R)) (type : InterfaceType) (dn up : Prototype R)
    (sendMem recvMem : ℕ → R × R) : Option (Receiver R) :=
  match type.rates with
  | none => none
  | some (resamp_inrate, resamp_outrate) =>
    let resamp_inchunk := resamp_inrate * 4 * t.mSPSRx
    let resamp_outchunk := resamp_outrate * 4 * t.mSPSRx
    let dnsampler := (Resampler.new resamp_inrate resamp_outrate filtLen).init dn.proto dn.scale
    let upsampler := (Resampler.new resamp_outrate resamp_inrate filtLen).init up.proto up.scale
    if !dnsampler.1 then none
    else if !upsampler.1 then none
    else
      some
        { t with
          sendBuffer := fun _ => .new NUMCHUNKS resamp_inchunk upsampler.2.len true sendMem
          recvBuffer := fun _ => .new (NUMCHUNKS * 20) resamp_inchunk 0 false recvMem
          mReceiveFIFO := fun _ => []
          resamp_inchunk := resamp_inchunk
          resamp_outchunk := resamp_outchunk
          upsampler := upsampler.2
          dnsampler := dnsampler.2
          outerSendBuffer := (SignalVector.new (NUMCHUNKS * resamp_outchunk)).data
          outerRecvBuffer := .withHead resamp_outchunk dnsampler.2.len }

/-- `start`, which the class inherits. -/
def Receiver.start (t : Receiver R) (d : DeviceStart) : Bool × Receiver R :=
  let r := t.toRadioInterface.start d
  (r.1, { t with toRadioInterface := r.2 })

/-! ## After a start -/

/-- The rates of a radio interface, with the number of blocks of `q` outer samples in a chunk. -/
structure Rates (p q b : ℕ) : Prop where
  p_pos : 0 < p
  q_pos : 0 < q
  b_pos : 0 < b
  fits : p * b ≤ MAX_OUTPUT_LEN
  fits_outer : q * b ≤ MAX_OUTPUT_LEN
  head : filtLen ≤ p * b
  head_outer : filtLen ≤ q * b
  /-- The send buffer has room for a history, an incomplete segment and a burst. -/
  room : filtLen + p * b + 625 ≤ NUMCHUNKS * (p * b)

/-- Both pairs of rates fit at the sample rates that can be configured. -/
theorem rates_of_type {type : InterfaceType} {p q sps : ℕ} (hsps : sps = 1 ∨ sps = 4)
    (ht : type.rates = some (p, q)) : Rates p q (4 * sps) := by
  cases type with
  | NORMAL => cases ht
  | RESAMP_64M =>
    cases ht
    rcases hsps with rfl | rfl <;>
      exact ⟨by decide, by decide, by decide, by decide, by decide, by decide, by decide,
        by decide⟩
  | RESAMP_100M =>
    cases ht
    rcases hsps with rfl | rfl <;>
      exact ⟨by decide, by decide, by decide, by decide, by decide, by decide, by decide,
        by decide⟩
  | MULTI_ARFCN => cases ht

/-- What `init` sets up. -/
structure Initialised (dn up : Prototype R) (p q b : ℕ) (t : Receiver R) : Prop where
  inchunk : t.resamp_inchunk = p * b
  outchunk : t.resamp_outchunk = q * b
  dnsampler : t.dnsampler = ((Resampler.new p q filtLen).init dn.proto dn.scale).2
  upsampler : t.upsampler = ((Resampler.new q p filtLen).init up.proto up.scale).2
  outerRecvBuffer : t.outerRecvBuffer = .withHead (q * b) filtLen
  send : Fresh (t.sendBuffer 0) ⟨NUMCHUNKS, p * b, filtLen, true⟩
  recv : Fresh (t.recvBuffer 0) ⟨NUMCHUNKS * 20, p * b, 0, false⟩

theorem initialised_init {t₀ : RadioInterface 0 (R × R)} {type : InterfaceType}
    {dn up : Prototype R} {sendMem recvMem : ℕ → R × R} {t : Receiver R}
    (ht : init t₀ type dn up sendMem recvMem = some t) :
    ∃ p q, type.rates = some (p, q) ∧ Initialised dn up p q (4 * t₀.mSPSRx) t := by
  unfold init at ht
  cases hrates : type.rates with
  | none =>
    rw [hrates] at ht
    cases ht
  | some r =>
    obtain ⟨p, q⟩ := r
    simp only [hrates, Nat.mul_assoc, Resampler.init_len, Resampler.new] at ht
    split_ifs at ht
    obtain rfl := Option.some.inj ht
    exact ⟨p, q, rfl, rfl, rfl, rfl, rfl, rfl, ⟨rfl, rfl, rfl, rfl⟩, ⟨rfl, rfl, rfl, rfl⟩⟩

/-- `start` resets the inner buffers only. -/
theorem Initialised.start {dn up : Prototype R} {p q b : ℕ} {t : Receiver R}
    (h : Initialised dn up p q b t) (d : DeviceStart) :
    Initialised dn up p q b (t.start d).2 := by
  simp only [Receiver.start, RadioInterface.start]
  split_ifs
  · exact h
  · exact h
  · exact
      { h with
        send := ⟨h.send.layout, rfl, rfl, rfl⟩
        recv := ⟨h.recv.layout, rfl, rfl, rfl⟩ }

/-! ## Taking a chunk from the device -/

/-- A chunk that `pullBuffer` has taken: the samples around the start of the outer buffer when it
is resampled, and those written to the receive buffer. -/
structure Pull (R D : Type) where
  read : DeviceRead 0 D
  input : ℤ → R × R
  written : List (R × R)

/-- The radio interface, and the chunks taken. -/
structure Reception (R D : Type) where
  radio : Receiver R
  log : List (Pull R D)

/-- `convert_short_float`. -/
def convertInto (convertShortFloat : D → R × R) (x : SignalVector R) (data : ℕ → D) (len : ℕ) :
    SignalVector R :=
  { x with data := Loop.pairs len (fun k => convertShortFloat (data k)) x.data }

/-- `pullBuffer`; `none` if a null segment is written to. -/
def pullBuffer (c : ConvolveCpuContext R) (convertShortFloat : D → R × R) (s : Reception R D)
    (r : DeviceRead 0 D) : Option (ℤ × Reception R D) :=
  if (s.radio.recvBuffer chan).getFreeSegments ≤ 0 then some (-1, s)
  else
    let t := { s.radio with overrun := r.overrun }
    if r.numRecv ≠ t.resamp_outchunk then some (-1, { s with radio := t })
    else
      let outer := convertInto convertShortFloat t.outerRecvBuffer (r.data chan) t.resamp_outchunk
      match (t.recvBuffer chan).getWriteSegment with
      | (none, _) => none
      | (some segment, b) =>
        let out := (t.dnsampler.rotate c outer.data t.resamp_outchunk
          (Multi.floats b.buffer segment) t.resamp_inchunk).2
        let wr := Multi.samples out t.resamp_inchunk
        some (0,
          { radio := { t with
              underrun := t.underrun || r.local_underrun
              readTimestamp := t.readTimestamp + UInt64.ofNat t.resamp_outchunk
              recvBuffer := fun _ => b.store segment wr
              outerRecvBuffer := outer.updateHistory }
            log := s.log ++ [⟨r, outer.sample, wr⟩] })

/-- What happens to the receive buffer: `pullBuffer` is called, or `driveReceiveRadio` takes the
samples of one burst. -/
inductive Event (D : Type) where
  | pull (r : DeviceRead 0 D)
  | take (size : ℕ)

/-- One event; `none` once a step has faulted. -/
def step (c : ConvolveCpuContext R) (convertShortFloat : D → R × R) :
    Option (Reception R D) → Event D → Option (Reception R D)
  | none, _ => none
  | some s, .pull r => (pullBuffer c convertShortFloat s r).map Prod.snd
  | some s, .take size => some { s with radio := { s.radio with
      recvBuffer := fun i => (unRadioifyVector (s.radio.recvBuffer i) size).2 } }

/-- The chunk of an event, if `pullBuffer` answers it with 0. -/
def answered (c : ConvolveCpuContext R) (convertShortFloat : D → R × R) :
    Option (Reception R D) → Event D → List (DeviceRead 0 D)
  | some s, .pull r =>
    if (pullBuffer c convertShortFloat s r).map Prod.fst = some 0 then [r] else []
  | _, _ => []

/-- The chunks of a run that `pullBuffer` answers with 0. -/
def accepted (c : ConvolveCpuContext R) (convertShortFloat : D → R × R) :
    Option (Reception R D) → List (Event D) → List (DeviceRead 0 D)
  | _, [] => []
  | s, e :: events =>
    answered c convertShortFloat s e ++
      accepted c convertShortFloat (step c convertShortFloat s e) events

/-! ## What has been received -/

/-- What `init` has fixed. -/
structure Configured (f : Prototype R) (p q b : ℕ) (t : Receiver R) : Prop where
  inchunk : t.resamp_inchunk = p * b
  outchunk : t.resamp_outchunk = q * b
  dnsampler : t.dnsampler = ((Resampler.new p q filtLen).init f.proto f.scale).2
  size : t.outerRecvBuffer.size = q * b
  start : t.outerRecvBuffer.start = filtLen

/-- Sample `m` of the end of the last chunk; zero before there is one. -/
def endOfLast (convertShortFloat : D → R × R) (outchunk : ℕ) (log : List (Pull R D)) (m : ℕ) :
    R × R :=
  (log.getLast?).elim 0 fun l =>
    convertShortFloat (l.read.data chan (outchunk - filtLen + m))

/-- The chunks that have been taken, with `taken` samples taken off the receive buffer. -/
structure Received (convertShortFloat : D → R × R) (f : Prototype R) (p q b : ℕ)
    (s : Reception R D) (taken : ℕ) : Prop where
  configured : Configured f p q b s.radio
  layout : (s.radio.recvBuffer 0).toLayout = ⟨NUMCHUNKS * 20, p * b, 0, false⟩
  aligned : (s.radio.recvBuffer 0).segmentLen ∣ (s.radio.recvBuffer 0).writeIndex
  taken_le : taken ≤ p * b * s.log.length
  holds : (s.radio.recvBuffer 0).Holds ((s.log.flatMap Pull.written).drop taken)
  written : ∀ l ∈ s.log, l.written = (List.range (p * b)).map (resample p q filtLen f.tap l.input)
  frame : ∀ l ∈ s.log, ∀ k < q * b, l.input k = convertShortFloat (l.read.data 0 k)
  head : ∀ k (hk : k < s.log.length), ∀ m < filtLen,
    s.log[k].input (m - filtLen) = endOfLast convertShortFloat (q * b) (s.log.take k) m
  pending : ∀ m < filtLen, s.radio.outerRecvBuffer.sample (m - filtLen) =
    endOfLast convertShortFloat (q * b) s.log m

variable {convertShortFloat : D → R × R} {f : Prototype R} {p q b taken : ℕ} {s : Reception R D}

namespace Received

theorem length_written (h : Received convertShortFloat f p q b s taken) :
    (s.log.flatMap Pull.written).length = p * b * s.log.length := by
  have hlen : ∀ l ∈ s.log, l.written.length = p * b := by
    intro l hl
    rw [h.written l hl, List.length_map, List.length_range]
  rw [List.length_flatMap, List.map_congr_left hlen, List.map_const', List.sum_replicate,
    smul_eq_mul, mul_comm]

theorem segmentLen (h : Received convertShortFloat f p q b s taken) :
    (s.radio.recvBuffer 0).segmentLen = p * b := by
  rw [h.layout]

theorem bufferLen (h : Received convertShortFloat f p q b s taken) :
    (s.radio.recvBuffer 0).bufferLen = NUMCHUNKS * 20 * (p * b) := by
  rw [RadioBuffer.bufferLen, h.layout]

/-- There is room for a segment where there is a free one. -/
theorem room (h : Received convertShortFloat f p q b s taken)
    (hfree : ¬ (s.radio.recvBuffer 0).getFreeSegments ≤ 0) :
    ((s.log.flatMap Pull.written).drop taken).length + p * b ≤ NUMCHUNKS * 20 * (p * b) := by
  have hpos := not_le.mp hfree
  rw [RadioBuffer.getFreeSegments, RadioBuffer.getFreeSamples, Nat.div_pos_iff, h.segmentLen,
    h.bufferLen, h.holds.avail] at hpos
  omega

/-- **One more chunk** is on the account if its input continues what was kept of the last one, and
its own end is kept. -/
theorem append (h : Received convertShortFloat f p q b s taken) {radio : Receiver R} {l : Pull R D}
    (hconf : Configured f p q b radio)
    (hlayout : (radio.recvBuffer 0).toLayout = (s.radio.recvBuffer 0).toLayout)
    (haligned : (radio.recvBuffer 0).segmentLen ∣ (radio.recvBuffer 0).writeIndex)
    (hholds : (radio.recvBuffer 0).Holds ((s.log.flatMap Pull.written).drop taken ++ l.written))
    (hwritten : l.written = (List.range (p * b)).map (resample p q filtLen f.tap l.input))
    (hframe : ∀ k < q * b, l.input k = convertShortFloat (l.read.data 0 k))
    (hhead : ∀ m < filtLen, l.input (m - filtLen) = s.radio.outerRecvBuffer.sample (m - filtLen))
    (hpending : ∀ m < filtLen, radio.outerRecvBuffer.sample (m - filtLen) =
      convertShortFloat (l.read.data 0 (q * b - filtLen + m))) :
    Received convertShortFloat f p q b ⟨radio, s.log ++ [l]⟩ taken := by
  have htaken := h.taken_le
  have hlen := h.length_written
  refine ⟨hconf, hlayout.trans h.layout, haligned, ?_, ?_,
    Run.forall_mem_log h.written hwritten, Run.forall_mem_log h.frame hframe, ?_, ?_⟩
  · rw [List.length_append, List.length_singleton, Nat.mul_succ]
    omega
  · rw [List.flatMap_append, List.flatMap_singleton, List.drop_append_of_le_length (by omega)]
    exact hholds
  · intro k hk m hm
    rcases Run.getElem_log_cases hk with ⟨hold, hget⟩ | ⟨rfl, hget⟩
    · rw [hget, List.take_append_of_le_length hold.le]
      exact h.head k hold m hm
    · rw [hget, List.take_left, ← h.pending m hm]
      exact hhead m hm
  · intro m hm
    rw [endOfLast, List.getLast?_append_of_ne_nil _ (by simp)]
    exact hpending m hm

end Received

/-- What `rotate` writes to a segment is the chunk resampled. -/
theorem samples_rotate (hr : Rates p q b) (f : Prototype R) (sse3 : Bool) (inp out : ℤ → R) :
    Multi.samples (((Resampler.new p q filtLen).init f.proto f.scale).2.rotate (convolveInit sse3)
      inp (q * b) out (p * b)).2 (p * b) =
      (List.range (p * b)).map (resample p q filtLen f.tap (Resampler.samplesOf inp)) := by
  rw [Resampler.rotate_eq hr.p_pos hr.q_pos (by decide) hr.fits hr.head_outer
    (hr.fits_outer.trans_lt (by decide)) sse3 f.proto f.scale inp out, Multi.samples_pairs]
  rfl

omit [CommRing R] in
/-- The converted samples lie in the vector, and what is in front of them stays. -/
theorem convertInto_spec (convertShortFloat : D → R × R) (x : SignalVector R) (data : ℕ → D)
    (len : ℕ) :
    (∀ k < len, (convertInto convertShortFloat x data len).sample k =
      convertShortFloat (data k)) ∧
      ∀ t : ℤ, t < 0 → (convertInto convertShortFloat x data len).sample t = x.sample t := by
  constructor
  · intro k hk
    exact Loop.loadPair_pairs (fun k => convertShortFloat (data k)) x.data hk
  · intro t ht
    exact Loop.loadPair_pairs_of_neg len (fun k => convertShortFloat (data k)) x.data ht

/-- **A full chunk** is resampled behind the end of the chunk before it, and its own end is
kept. -/
theorem received_accept (hr : Rates p q b) (h : Received convertShortFloat f p q b s taken)
    (sse3 : Bool) {r : DeviceRead 0 D} (hfree : ¬ (s.radio.recvBuffer 0).getFreeSegments ≤ 0)
    (hnum : r.numRecv = (q * b : ℕ)) :
    ∃ s', pullBuffer (convolveInit sse3) convertShortFloat s r = some (0, s') ∧
      s'.log.map Pull.read = s.log.map Pull.read ++ [r] ∧
      Received convertShortFloat f p q b s' taken := by
  have hconf := h.configured
  have hhead := hr.head_outer
  obtain ⟨hcell, hfront⟩ := convertInto_spec convertShortFloat
    s.radio.outerRecvBuffer (r.data 0) (q * b)
  have hsize : (convertInto convertShortFloat s.radio.outerRecvBuffer (r.data 0) (q * b)).size =
      q * b := hconf.size
  have hstart : (convertInto convertShortFloat s.radio.outerRecvBuffer (r.data 0) (q * b)).start =
      filtLen := hconf.start
  generalize houter : convertInto convertShortFloat s.radio.outerRecvBuffer (r.data 0) (q * b) =
    outer at hcell hfront hsize hstart
  obtain ⟨hsaved, -⟩ := SignalVector.updateHistory_spec outer
  have hwr : ((List.range (p * b)).map (resample p q filtLen f.tap outer.sample)).length =
      p * b := by rw [List.length_map, List.length_range]
  obtain ⟨segment, b', hget, hholds, hlay, hal⟩ := RadioBuffer.getWriteSegment_spec h.holds
    (by rw [h.layout]) h.aligned (hwr.trans h.segmentLen.symm)
    (by rw [h.segmentLen, h.bufferLen]; exact h.room hfree)
  have hrot : ∀ out, Multi.samples (s.radio.dnsampler.rotate (convolveInit sse3) outer.data (q * b)
      out (p * b)).2 (p * b) =
      (List.range (p * b)).map (resample p q filtLen f.tap outer.sample) := by
    intro out
    rw [hconf.dnsampler]
    exact samples_rotate hr f sse3 outer.data out
  have hkept : ∀ m < filtLen, outer.updateHistory.sample (m - filtLen) =
      convertShortFloat (r.data 0 (q * b - filtLen + m)) := by
    intro m hm
    rw [← hstart, hsaved m (by omega), hsize, hstart,
      show ((q * b : ℕ) : ℤ) - filtLen + m = (q * b - filtLen + m : ℕ) by omega, hcell _ (by omega)]
  refine ⟨⟨{ s.radio with
      overrun := r.overrun
      underrun := s.radio.underrun || r.local_underrun
      readTimestamp := s.radio.readTimestamp + UInt64.ofNat (q * b)
      recvBuffer := fun _ => b'.store segment
        ((List.range (p * b)).map (resample p q filtLen f.tap outer.sample))
      outerRecvBuffer := outer.updateHistory },
    s.log ++ [⟨r, outer.sample,
      (List.range (p * b)).map (resample p q filtLen f.tap outer.sample)⟩]⟩, ?_, ?_, ?_⟩
  · rw [pullBuffer, chan_eq, if_neg hfree]
    simp only [hconf.outchunk, hconf.inchunk, hnum, ne_eq, not_true_eq_false, if_false, houter,
      hget, hrot]
  · rw [List.map_append]
    rfl
  · exact h.append ⟨hconf.inchunk, hconf.outchunk, hconf.dnsampler, hsize, hstart⟩ hlay hal hholds
      rfl hcell (fun m hm => hfront _ (by omega)) hkept

/-- **A call of `pullBuffer`** never faults.  It takes a full chunk where a segment is free, and
nothing otherwise. -/
theorem received_pull (hr : Rates p q b) (h : Received convertShortFloat f p q b s taken)
    (sse3 : Bool) (r : DeviceRead 0 D) :
    ∃ s', pullBuffer (convolveInit sse3) convertShortFloat s r =
        some (if 0 < (s.radio.recvBuffer 0).getFreeSegments ∧ r.numRecv = (q * b : ℕ) then 0
          else -1, s') ∧
      s'.log.map Pull.read = s.log.map Pull.read ++
        (if 0 < (s.radio.recvBuffer 0).getFreeSegments ∧ r.numRecv = (q * b : ℕ) then [r]
          else []) ∧
      Received convertShortFloat f p q b s' taken := by
  by_cases hfree : 0 < (s.radio.recvBuffer 0).getFreeSegments
  · by_cases hnum : r.numRecv = (q * b : ℕ)
    · obtain ⟨s', hpull, hlog, h'⟩ := received_accept hr h sse3 (not_le.mpr hfree) hnum
      exact ⟨s', by rw [hpull, if_pos ⟨hfree, hnum⟩], by rw [hlog, if_pos ⟨hfree, hnum⟩], h'⟩
    · have hrefused := not_and_of_not_right (0 < (s.radio.recvBuffer 0).getFreeSegments) hnum
      refine ⟨{ s with radio := { s.radio with overrun := r.overrun } }, ?_, ?_, ?_⟩
      · rw [pullBuffer, chan_eq, if_neg (not_le.mpr hfree), if_neg hrefused]
        simp only [h.configured.outchunk, ne_eq, hnum, not_false_eq_true, if_true]
      · rw [if_neg hrefused, List.append_nil]
      · exact { h with configured := { h.configured with } }
  · have hrefused := not_and_of_not_left (r.numRecv = (q * b : ℕ)) hfree
    refine ⟨s, ?_, ?_, h⟩
    · rw [pullBuffer, chan_eq, if_pos (not_lt.mp hfree), if_neg hrefused]
    · rw [if_neg hrefused, List.append_nil]

/-- The samples of a burst are taken off. -/
theorem received_take (h : Received convertShortFloat f p q b s taken) (size : ℕ) :
    ∃ taken', Received convertShortFloat f p q b
      { s with radio := { s.radio with
        recvBuffer := fun i => (unRadioifyVector (s.radio.recvBuffer i) size).2 } } taken' := by
  have hheld := h.holds.avail
  rw [List.length_drop, h.length_written] at hheld
  have hconf : Configured f p q b { s.radio with
      recvBuffer := fun i => (unRadioifyVector (s.radio.recvBuffer i) size).2 } :=
    ⟨h.configured.inchunk, h.configured.outchunk, h.configured.dnsampler, h.configured.size,
      h.configured.start⟩
  by_cases hsize : size ≤ (s.radio.recvBuffer 0).availSamples
  · rw [h.holds.avail] at hsize
    obtain ⟨-, hholds, hlay, hwrite⟩ := unRadioifyVector_spec h.holds (by rw [h.layout])
      (by rw [h.layout]) hsize
    rw [List.drop_drop] at hholds
    have hal := h.aligned
    rw [← hwrite, ← congrArg Layout.segmentLen hlay] at hal
    have htaken : taken + size ≤ p * b * s.log.length := by
      have hle := h.taken_le
      rw [List.length_drop, h.length_written] at hsize
      omega
    exact ⟨taken + size, hconf, hlay.trans h.layout, hal, htaken, hholds, h.written, h.frame,
      h.head, h.pending⟩
  · refine ⟨taken, hconf, ?_, ?_, h.taken_le, ?_, h.written, h.frame, h.head, h.pending⟩
    all_goals
      simp only [unRadioifyVector, if_pos (not_le.mp hsize)]
    · exact h.layout
    · exact h.aligned
    · exact h.holds

/-! ## Any run -/

/-- **A run keeps the account**, with the chunks that were answered with 0, and never faults. -/
theorem received_exec (hr : Rates p q b) (sse3 : Bool) (events : List (Event D)) :
    ∀ {s : Reception R D} {taken : ℕ}, Received convertShortFloat f p q b s taken →
    ∃ s' taken', Run.exec (step (convolveInit sse3) convertShortFloat) (some s) events = some s' ∧
      s'.log.map Pull.read = s.log.map Pull.read ++
        accepted (convolveInit sse3) convertShortFloat (some s) events ∧
      Received convertShortFloat f p q b s' taken' := by
  induction events with
  | nil =>
    intro s taken h
    exact ⟨s, taken, rfl, (List.append_nil _).symm, h⟩
  | cons e events ih =>
    intro s taken h
    cases e with
    | pull r =>
      obtain ⟨s₁, hpull, hlog₁, h₁⟩ := received_pull hr h sse3 r
      obtain ⟨s', taken', hexec, hlog, h'⟩ := ih h₁
      refine ⟨s', taken', ?_, ?_, h'⟩
      · rw [Run.exec_cons, step, hpull]
        exact hexec
      · rw [hlog, hlog₁, List.append_assoc, accepted, answered, step, hpull]
        by_cases haccept : 0 < (s.radio.recvBuffer 0).getFreeSegments ∧ r.numRecv = (q * b : ℕ)
        · simp [haccept]
        · simp only [if_neg haccept, Option.map_some]
          simp
    | take size =>
      obtain ⟨taken₁, h₁⟩ := received_take h size
      obtain ⟨s', taken', hexec, hlog, h'⟩ := ih h₁
      exact ⟨s', taken', hexec, hlog, h'⟩

/-- The radio interface after `init` and `start` has received nothing. -/
theorem received_start {dn up : Prototype R} {t : Receiver R}
    (h : Initialised dn up p q b t) (hr : Rates p q b) :
    Received convertShortFloat dn p q b ⟨t, []⟩ 0 := by
  have hpos : 0 < (t.recvBuffer 0).bufferLen := by
    rw [RadioBuffer.bufferLen, h.recv.layout]
    exact Nat.mul_pos (Nat.mul_pos (by decide) (by decide)) (Nat.mul_pos hr.p_pos hr.b_pos)
  have hconf : Configured dn p q b t :=
    ⟨h.inchunk, h.outchunk, h.dnsampler, by rw [h.outerRecvBuffer]; rfl,
      by rw [h.outerRecvBuffer]; rfl⟩
  refine ⟨hconf, h.recv.layout, ?_, Nat.zero_le _,
    RadioBuffer.holds_nil hpos h.recv.read h.recv.write h.recv.avail, by simp, by simp, by simp,
    fun m _ => ?_⟩
  · rw [h.recv.write]
    exact dvd_zero _
  · rw [h.outerRecvBuffer]
    rfl

/-- **Receive streaming**: in front of every chunk lies the end of the chunk before it, zeros in
front of the first; the segments written are the stream of all chunks resampled, and the receive
buffer holds those that have not been taken off; what the filter reads lies in the outer buffer. -/
structure Streamed (convertShortFloat : D → R × R) (f : Prototype R) (p q b : ℕ)
    (s : Reception R D) : Prop where
  first : ∀ h : 0 < s.log.length, ∀ m < filtLen, s.log[0].input (m - filtLen) = 0
  next : ∀ k (hk : k + 1 < s.log.length), ∀ m < filtLen,
    s.log[k + 1].input (m - filtLen) =
      convertShortFloat (s.log[k].read.data 0 (q * b - filtLen + m))
  output : s.log.flatMap Pull.written = (List.range (p * b * s.log.length)).map
    (resample p q filtLen f.tap (blockStream (q * b)
      (s.log.map fun l t => convertShortFloat (l.read.data 0 t.toNat))))
  buffer : ∃ taken, (s.radio.recvBuffer 0).Holds ((s.log.flatMap Pull.written).drop taken)
  inside : ∀ i < p * b, ∀ t, s.radio.dnsampler.Reads i t →
    -(s.radio.outerRecvBuffer.start : ℤ) ≤ t ∧ t < s.radio.outerRecvBuffer.size

theorem Received.streamed (h : Received convertShortFloat f p q b s taken) (hr : Rates p q b) :
    Streamed convertShortFloat f p q b s := by
  have hfirst : ∀ h : 0 < s.log.length, ∀ m < filtLen, s.log[0].input (m - filtLen) = 0 := by
    intro h0 m hm
    exact h.head 0 h0 m hm
  have hnext : ∀ k (hk : k + 1 < s.log.length), ∀ m < filtLen,
      s.log[k + 1].input (m - filtLen) =
        convertShortFloat (s.log[k].read.data 0 (q * b - filtLen + m)) := by
    intro k hk m hm
    rw [h.head (k + 1) hk m hm, endOfLast, List.take_add_one,
      List.getElem?_eq_getElem (Nat.lt_of_succ_lt hk), Option.toList_some, List.getLast?_concat]
    rfl
  refine ⟨hfirst, hnext, ?_, ⟨taken, h.holds⟩, ?_⟩
  · have hwritten : s.log.flatMap Pull.written = (s.log.map Pull.input).flatMap fun y =>
        (List.range (p * b)).map (resample p q filtLen f.tap y) := by
      rw [List.flatMap_map]
      exact List.flatMap_congr h.written
    have hlen : (s.log.map Pull.input).length = s.log.length := List.length_map _
    rw [hwritten, ← hlen]
    refine flatMap_resample_blocks hr.p_pos hr.q_pos hr.head_outer (by simp) ?_ ?_ ?_
    · intro k hk t h0 hlt
      rw [List.length_map] at hk
      obtain ⟨j, rfl⟩ := Int.eq_ofNat_of_zero_le h0
      rw [List.getElem_map, List.getElem_map, h.frame _ (List.getElem_mem hk) j (by omega),
        Int.toNat_natCast]
    · intro h0 m hm
      rw [List.length_map] at h0
      rw [List.getElem_map]
      exact hfirst h0 m hm
    · intro k hk m hm
      rw [List.length_map] at hk
      have hhead := hr.head_outer
      rw [List.getElem_map, List.getElem_map, hnext k hk m hm,
        show (((q * b : ℕ) : ℤ) - filtLen + m).toNat = q * b - filtLen + m by omega]
  · intro i hi t hreads
    obtain ⟨k, hk, ht⟩ := hreads
    have hindex : q * i / p < q * b := resample_index_lt hr.p_pos hr.q_pos hi
    have hmax : MAX_OUTPUT_LEN < 2 ^ 31 := by decide
    have htaps : i32 (Resampler.new (R := R) p q filtLen).filtLen = (filtLen : ℕ) :=
      i32_natCast (n := filtLen) (by decide)
    have hpos : i32 (q * i / p : ℕ) = (q * i / p : ℕ) :=
      i32_natCast ((hindex.trans_le hr.fits_outer).trans hmax)
    rw [h.configured.dnsampler, Resampler.init_filtLen, htaps] at hk
    rw [h.configured.dnsampler, Resampler.init_inIndex hr.p_pos hr.q_pos (by decide), hpos] at ht
    rw [h.configured.start, h.configured.size, ht]
    generalize q * i / p = n at hindex
    omega

/-- **The chunks are resampled as one stream**, in every run of calls from a start, which never
faults.  They are those that `pullBuffer` has answered with 0, and after any run it takes the next
one just if a segment is free and the chunk is full. -/
theorem pullBuffer_stream {t₀ : RadioInterface 0 (R × R)} {type : InterfaceType}
    {dn up : Prototype R} {sendMem recvMem : ℕ → R × R} {t : Receiver R}
    (ht : init t₀ type dn up sendMem recvMem = some t) (hsps : t₀.mSPSRx = 1 ∨ t₀.mSPSRx = 4)
    (d : DeviceStart) (sse3 : Bool) (convertShortFloat : D → R × R) (events : List (Event D)) :
    ∃ p q s, type.rates = some (p, q) ∧
      Run.exec (step (convolveInit sse3) convertShortFloat) (some ⟨(t.start d).2, []⟩) events =
        some s ∧
      s.log.map Pull.read =
        accepted (convolveInit sse3) convertShortFloat (some ⟨(t.start d).2, []⟩) events ∧
      (∀ r, (pullBuffer (convolveInit sse3) convertShortFloat s r).map Prod.fst =
        some (if 0 < (s.radio.recvBuffer 0).getFreeSegments ∧
          r.numRecv = (q * (4 * t₀.mSPSRx) : ℕ) then 0 else -1)) ∧
      Streamed convertShortFloat dn p q (4 * t₀.mSPSRx) s := by
  obtain ⟨p, q, hrates, hinit⟩ := initialised_init ht
  have hr := rates_of_type hsps hrates
  have hstart : Received convertShortFloat dn p q (4 * t₀.mSPSRx) ⟨(t.start d).2, []⟩ 0 :=
    received_start (hinit.start d) hr
  obtain ⟨s, taken, hexec, hlog, h⟩ := received_exec hr sse3 events hstart
  refine ⟨p, q, s, hrates, hexec, hlog, fun r => ?_, h.streamed hr⟩
  obtain ⟨s', hpull, -, -⟩ := received_pull hr h sse3 r
  rw [hpull, Option.map_some]

/-- Two chunks, and a burst taken off in between. -/
theorem pullBuffer_stream_two :
    ∃ t, init (Multi.idle 0) .RESAMP_64M Multi.delay Multi.delay (fun _ => 0) (fun _ => 0) =
        some t ∧
      ∃ p q s, InterfaceType.RESAMP_64M.rates = some (p, q) ∧
        Run.exec (step (convolveInit true) (fun x : ℤ × ℤ => x))
          (some ⟨(t.start ⟨true, 0, 0⟩).2, []⟩)
          [.pull ⟨384, fun _ k => (k, 1), false, false⟩, .take 156,
            .pull ⟨384, fun _ k => (1, k), false, false⟩] = some s ∧
        s.log.map Pull.read = accepted (convolveInit true) (fun x : ℤ × ℤ => x)
          (some ⟨(t.start ⟨true, 0, 0⟩).2, []⟩)
          [.pull ⟨384, fun _ k => (k, 1), false, false⟩, .take 156,
            .pull ⟨384, fun _ k => (1, k), false, false⟩] ∧
        (∀ r, (pullBuffer (convolveInit true) (fun x : ℤ × ℤ => x) s r).map Prod.fst =
          some (if 0 < (s.radio.recvBuffer 0).getFreeSegments ∧
            r.numRecv = (q * (4 * (Multi.idle 0).mSPSRx) : ℕ) then 0 else -1)) ∧
        Streamed (fun x : ℤ × ℤ => x) Multi.delay p q (4 * (Multi.idle 0).mSPSRx) s :=
  ⟨_, rfl, pullBuffer_stream rfl (.inl rfl) ⟨true, 0, 0⟩ true (fun x => x) _⟩

end Resamp
end Radio
end OsmoTrx
