import OsmoTrx.Trx.State
import OsmoTrx.Trx.ReceiveData
import OsmoTrx.Lib.Run

/-!
# The clocks and the frame numbers on the wire

The threads that move the clocks, cut where one of them reads or writes a clock that another
thread moves, so that a run is any interleaving: `driveReceiveRadio` with its loop and
`writeClockInterface`, `driveTxFIFO` with its latency control, and `driveReceiveFIFO`.  The control
thread starts and stops the transceiver.

* `Clocks`, `step`, `sent` — the threads with their places, and what they send to the core.
* `Timed`, `timed_step` — every time that is held is a GSM time, and stays one.
* `wire_frames_iff` — **the frame numbers on the wire are frame numbers** as long as no clock
  indication is sent in the last two frames of the hyperframe.
-/

namespace OsmoTrx
namespace Trx

open GSM

variable {n : ℕ} {V : Type} {Q : BurstQueue V}

/-! ## The threads -/

/-- Where the receive thread is: before `pullBuffer`, in the loop of
`RadioInterface::driveReceiveRadio`, at the test of `Transceiver::driveReceiveRadio`, or at one of
the two accesses of `writeClockInterface` to the deadline. -/
inductive RxPlace
  | pull
  | form
  | test
  | write
  | note
  deriving DecidableEq, Repr

/-- Where the transmit thread is: at the condition of the loop of `driveTxFIFO`, at the latency
control, at the assignment of `mLatencyUpdateTime`, or at the push. -/
inductive TxPlace
  | condition
  | latency
  | record
  | push
  deriving DecidableEq, Repr

/-- The transceiver, the clock of the radio interface, the clock of the receive loop, the times of
the bursts in the receive FIFOs, and the places of the threads. -/
structure Clocks (n : ℕ) {V : Type} (Q : BurstQueue V) where
  trx : Transceiver n Q
  mClock : Time
  rcvClock : Time
  mReceiveFIFO : Fin n → List Time
  rx : RxPlace
  tx : TxPlace

/-- `receiveOffset`, for which every caller has the default. -/
def receiveOffset : ℤ := 3

/-- The steps of the threads, with what the devices answer.  `start` and `stop` are those of the
control thread; `pull`, `form`, `test`, `write` and `note` those of the receive thread, where
`more` says if there are samples for another burst; `condition`, `latency`, `record` and `push`
those of the transmit thread; `uplink` is a call of `driveReceiveFIFO`, with whether a burst was
demodulated. -/
inductive Turn (n : ℕ)
  | start (ok : Bool)
  | stop
  | pull (ok : Bool)
  | form (more : Bool)
  | test
  | write
  | note
  | condition
  | latency (usrp1 underrun : Bool) (minLatency : Time)
  | record
  | push
  | uplink (chan : Fin n) (demodulated : Bool)

/-- The calls on a radio interface whose state is its clock, and whose device starts or not. -/
def clockCalls (n : ℕ) (ok : Bool) : RadioCalls Time n where
  start r := (ok, r)
  stop r := (true, r)
  getClock r := r
  tuneTx r _ _ := (true, r)
  tuneRx r _ _ := (true, r)
  setRxGain r _ _ := (0, r)
  setPowerAttenuation r _ _ := (0, r)
  noiseLevel _ := 0

/-- The latency control of `driveTxFIFO`: the latency afterwards, if it changes. -/
def latencyControl (t : Transceiver n Q) (clock : Time) (usrp1 underrun : Bool)
    (minLatency : Time) : Option Time :=
  if usrp1 then
    if underrun then
      if clock.gt (t.mLatencyUpdateTime.add ⟨10, 0⟩) then some (t.mTransmitLatency.add ⟨1, 0⟩)
      else none
    else if t.mTransmitLatency.gt minLatency then
      if clock.gt (t.mLatencyUpdateTime.add ⟨216, 0⟩) then some (t.mTransmitLatency.decTN 1)
      else none
    else none
  else none

/-- One step.  The threads run while the transceiver is on, and a step of a thread that is at
another place, or of a transceiver that is off, changes nothing. -/
def clockStep (s : Clocks n Q) : Turn n → Clocks n Q
  | .start ok =>
    let t := (s.trx.start (clockCalls n ok) s.mClock).2.1
    if s.trx.mOn then s else { s with trx := t, rx := .pull, tx := .condition }
  | .stop => { s with trx := (s.trx.stop (clockCalls n true) s.mClock).1 }
  | .pull ok =>
    if s.trx.mOn ∧ s.rx = .pull ∧ ok then
      { s with rcvClock := s.mClock.decTN receiveOffset, rx := .form }
    else s
  | .form more =>
    if s.trx.mOn ∧ s.rx = .form then
      if more then
        { s with
          mReceiveFIFO := fun i =>
            if (s.mReceiveFIFO i).length < 32 then s.mReceiveFIFO i ++ [s.rcvClock]
            else s.mReceiveFIFO i
          mClock := s.mClock.incTN 1
          rcvClock := s.rcvClock.incTN 1 }
      else { s with rx := .test }
    else s
  | .test =>
    if s.trx.mOn ∧ s.rx = .test then
      if s.trx.mForceClockInterface ∨
          s.trx.mTransmitDeadlineClock.gt (s.trx.mLastClockUpdateTime.add ⟨216, 0⟩) then
        { s with trx := { s.trx with mForceClockInterface := false }, rx := .write }
      else { s with rx := .pull }
    else s
  | .write => if s.trx.mOn ∧ s.rx = .write then { s with rx := .note } else s
  | .note =>
    if s.trx.mOn ∧ s.rx = .note then
      { s with
        trx := { s.trx with mLastClockUpdateTime := s.trx.mTransmitDeadlineClock }
        rx := .pull }
    else s
  | .condition =>
    if s.trx.mOn ∧ s.tx = .condition ∧
        (s.mClock.add s.trx.mTransmitLatency).gt s.trx.mTransmitDeadlineClock then
      { s with tx := .latency }
    else s
  | .latency usrp1 underrun minLatency =>
    if s.trx.mOn ∧ s.tx = .latency then
      match latencyControl s.trx s.mClock usrp1 underrun minLatency with
      | some latency => { s with trx := { s.trx with mTransmitLatency := latency }, tx := .record }
      | none => { s with tx := .push }
    else s
  | .record =>
    if s.trx.mOn ∧ s.tx = .record then
      { s with trx := { s.trx with mLatencyUpdateTime := s.mClock }, tx := .push }
    else s
  | .push =>
    if s.trx.mOn ∧ s.tx = .push then
      { s with
        trx := { s.trx with mTransmitDeadlineClock := s.trx.mTransmitDeadlineClock.incTN 1 }
        tx := .condition }
    else s
  | .uplink chan _ =>
    if s.trx.mOn then
      { s with
        mReceiveFIFO := Function.update s.mReceiveFIFO chan (s.mReceiveFIFO chan).tail }
    else s

/-- What is sent to the core: `IND CLOCK` with a value, or the datagram of a burst, of which only
the timeslot and the frame number matter here. -/
inductive Message
  | indClock (value : ℤ)
  | burst (header : List UInt8)
  deriving DecidableEq, Repr

/-- The first bytes of the datagram of a burst. -/
def header (t : Time) : List UInt8 := byteOf t.TN :: toBytes 4 t.FN

/-- The message that a step sends.  The sum of `int` is converted to `unsigned long long`. -/
def sent (s : Clocks n Q) : Turn n → Option Message
  | .write =>
    if s.trx.mOn ∧ s.rx = .write then
      some (.indClock ((s.trx.mTransmitDeadlineClock.FN + 2) % 2 ^ 64))
    else none
  | .uplink chan demodulated =>
    if s.trx.mOn ∧ demodulated then (s.mReceiveFIFO chan).head?.map fun t => .burst (header t)
    else none
  | _ => none

/-- The frame number in a message. -/
def Message.frame : Message → ℤ
  | .indClock value => value
  | .burst header => ofBytes ((header.drop 1).take 4)

/-- `driveReceiveFIFO` sends this header. -/
theorem driveReceiveFIFO_header {junk : ℕ → UInt8} {rssiOffset : ℚ} {b : RxBurst}
    {msg : List UInt8} (h : driveReceiveFIFO junk rssiOffset b = some msg) :
    msg.take 5 = header b.burstTime := by
  by_cases henough : b.nbits ≤ b.softBits.length
  · rw [driveReceiveFIFO_eq henough, Option.some.injEq] at h
    rw [← h]
    rfl
  · rw [driveReceiveFIFO, if_neg henough] at h
    cases h

/-! ## Times -/

/-- Every time that is held is a GSM time. -/
structure Timed (s : Clocks n Q) : Prop where
  mClock : s.mClock.Valid
  rcvClock : s.rcvClock.Valid
  mReceiveFIFO : ∀ i, ∀ t ∈ s.mReceiveFIFO i, t.Valid
  mTransmitLatency : s.trx.mTransmitLatency.Valid
  mLatencyUpdateTime : s.trx.mLatencyUpdateTime.Valid
  mTransmitDeadlineClock : s.trx.mTransmitDeadlineClock.Valid
  mLastClockUpdateTime : s.trx.mLastClockUpdateTime.Valid

theorem latencyControl_valid {t : Transceiver n Q} (h : t.mTransmitLatency.Valid) {clock : Time}
    {usrp1 underrun : Bool} {minLatency latency : Time}
    (hl : latencyControl t clock usrp1 underrun minLatency = some latency) : latency.Valid := by
  unfold latencyControl at hl
  split_ifs at hl <;> cases hl
  · exact Time.add_valid h (by decide)
  · exact Time.decTN_valid h (by norm_num) (by norm_num)

/-- **The times stay valid.** -/
theorem timed_step {s : Clocks n Q} (h : Timed s) (e : Turn n) : Timed (clockStep s e) := by
  cases e with
  | start ok =>
    simp only [clockStep]
    split_ifs with hon
    · exact h
    · -- the clocks of the transceiver are set to that of the radio interface
      cases ok <;> simp only [Transceiver.start, hon, clockCalls] <;>
        exact
          { h with
            mLatencyUpdateTime := h.mClock
            mTransmitDeadlineClock := h.mClock
            mLastClockUpdateTime := h.mClock }
  | stop =>
    simp only [clockStep, Transceiver.stop]
    split_ifs <;> exact { h with }
  | pull ok =>
    simp only [clockStep]
    split_ifs
    · exact { h with rcvClock := Time.decTN_valid h.mClock (by decide) (by decide) }
    · exact h
  | form more =>
    simp only [clockStep]
    split_ifs
    · refine
        { h with
          mClock := Time.incTN_valid h.mClock (by norm_num) (by norm_num)
          rcvClock := Time.incTN_valid h.rcvClock (by norm_num) (by norm_num)
          mReceiveFIFO := fun i t ht => ?_ }
      simp only at ht
      split_ifs at ht
      · rcases List.mem_append.mp ht with ht | ht
        · exact h.mReceiveFIFO i t ht
        · rw [List.mem_singleton.mp ht]
          exact h.rcvClock
      · exact h.mReceiveFIFO i t ht
    · exact { h with }
    · exact h
  | test =>
    simp only [clockStep]
    split_ifs <;> exact { h with }
  | write =>
    simp only [clockStep]
    split_ifs <;> exact { h with }
  | note =>
    simp only [clockStep]
    split_ifs
    · exact { h with mLastClockUpdateTime := h.mTransmitDeadlineClock }
    · exact h
  | condition =>
    simp only [clockStep]
    split_ifs <;> exact { h with }
  | latency usrp1 underrun minLatency =>
    simp only [clockStep]
    split_ifs
    · split
      · rename_i latency hlatency
        exact { h with mTransmitLatency := latencyControl_valid h.mTransmitLatency hlatency }
      · exact { h with }
    · exact h
  | record =>
    simp only [clockStep]
    split_ifs
    · exact { h with mLatencyUpdateTime := h.mClock }
    · exact h
  | push =>
    simp only [clockStep]
    split_ifs
    · exact
        { h with
          mTransmitDeadlineClock :=
            Time.incTN_valid h.mTransmitDeadlineClock (by norm_num) (by norm_num) }
    · exact h
  | uplink chan demodulated =>
    simp only [clockStep]
    split_ifs
    · refine { h with mReceiveFIFO := fun i t ht => ?_ }
      simp only at ht
      by_cases hi : i = chan
      · subst hi
        rw [Function.update_self] at ht
        exact h.mReceiveFIFO i t (List.mem_of_mem_tail ht)
      · rw [Function.update_of_ne hi] at ht
        exact h.mReceiveFIFO i t ht
    · exact h

/-! ## Frame numbers on the wire -/

/-- The times are valid before and after the step, and what it sends has a frame number; that of a
clock indication is two after that of the deadline, modulo the hyperframe. -/
structure OnWire (s : Clocks n Q) (e : Turn n) : Prop where
  before : Timed s
  after : Timed (clockStep s e)
  frame : ∀ m, sent s e = some m → ValidFN m.frame
  indication : ∀ value, sent s e = some (.indClock value) →
    value = (s.trx.mTransmitDeadlineClock.FN + 2) % gHyperframe

/-- A clock indication is not sent in the last two frames of the hyperframe. -/
def NoWrap (s : Clocks n Q) : Turn n → Prop
  | .write => s.trx.mOn = true → s.rx = .write →
      s.trx.mTransmitDeadlineClock.FN + 2 < gHyperframe
  | _ => True

instance (s : Clocks n Q) : ∀ e : Turn n, Decidable (NoWrap s e)
  | .write => inferInstanceAs (Decidable (_ → _ → _ < _))
  | .start _ | .stop | .pull _ | .form _ | .test | .note | .condition | .latency _ _ _ | .record
  | .push | .uplink _ _ => .isTrue trivial

/-- The header of a burst has its frame number. -/
theorem frame_header {t : Time} (h : t.Valid) : (Message.burst (header t)).frame = t.mFN := by
  obtain ⟨⟨hlo, hhi⟩, -⟩ := h
  rw [gHyperframe_eq] at hhi
  have htake : (toBytes 4 t.FN).take 4 = toBytes 4 t.FN := List.take_of_length_le (by simp)
  rw [Message.frame, header, List.drop_succ_cons, List.drop_zero, htake, ofBytes_toBytes, Time.FN]
  omega

/-- The value of a clock indication. -/
theorem sent_write {s : Clocks n Q} (h : Timed s) (hon : s.trx.mOn = true) (hrx : s.rx = .write) :
    sent s .write = some (.indClock (s.trx.mTransmitDeadlineClock.mFN + 2)) := by
  obtain ⟨⟨hlo, hhi⟩, -⟩ := h.mTransmitDeadlineClock
  rw [gHyperframe_eq] at hhi
  rw [sent, if_pos ⟨hon, hrx⟩, Time.FN, Int.emod_eq_of_lt (by omega) (by omega)]

theorem onWire_iff {s : Clocks n Q} (h : Timed s) (e : Turn n) : OnWire s e ↔ NoWrap s e := by
  have hafter := timed_step h e
  cases e with
  | write =>
    by_cases hwrite : s.trx.mOn = true ∧ s.rx = .write
    · have hsent := sent_write h hwrite.1 hwrite.2
      obtain ⟨⟨hlo, -⟩, -⟩ := h.mTransmitDeadlineClock
      constructor
      · exact fun hwire _ _ => (hwire.frame _ hsent).2
      · intro hok
        have hlt : s.trx.mTransmitDeadlineClock.mFN + 2 < gHyperframe := hok hwrite.1 hwrite.2
        refine ⟨h, hafter, fun m hm => ?_, fun value hvalue => ?_⟩
        · rw [hsent, Option.some.injEq] at hm
          subst hm
          exact ⟨by rw [Message.frame]; omega, hlt⟩
        · rw [hsent, Option.some.injEq, Message.indClock.injEq] at hvalue
          rw [← hvalue, Time.FN, Int.emod_eq_of_lt (by omega) hlt]
    · have hsent : sent s (.write : Turn n) = none := if_neg hwrite
      refine iff_of_true ⟨h, hafter, ?_, ?_⟩ fun hon hrx => absurd ⟨hon, hrx⟩ hwrite <;>
        intro m hm <;> rw [hsent] at hm <;> cases hm
  | uplink chan demodulated =>
    have hsent (m : Message) (hm : sent s (.uplink chan demodulated) = some m) :
        ∃ t, t.Valid ∧ m = .burst (header t) := by
      rw [sent] at hm
      split_ifs at hm
      obtain ⟨t, ht, rfl⟩ := Option.map_eq_some_iff.mp hm
      exact ⟨t, h.mReceiveFIFO chan t (List.mem_of_mem_head? ht), rfl⟩
    refine iff_of_true ⟨h, hafter, fun m hm => ?_, fun value hvalue => ?_⟩ trivial
    · obtain ⟨t, ht, rfl⟩ := hsent m hm
      rw [frame_header ht]
      exact ht.1
    · obtain ⟨t, -, heq⟩ := hsent _ hvalue
      cases heq
  | _ =>
    refine iff_of_true ⟨h, hafter, ?_, ?_⟩ trivial <;> intro m hm <;> cases hm

/-- A transceiver after `init`, with the clock of the radio interface set to the same time. -/
def launched (generate : FillerType → Fin 102 → Fin 8 → V) (filler : FillerType) (tx_sps : ℕ)
    (latency startTime : Time) (edge ext_rach : Bool) : Clocks n Q where
  trx := Transceiver.init n Q generate filler tx_sps latency startTime edge ext_rach
  mClock := startTime
  rcvClock := startTime
  mReceiveFIFO _ := []
  rx := .pull
  tx := .condition

/-- **The frame numbers on the wire are frame numbers** in exactly those runs from a valid start
time in which no clock indication is sent in the last two frames of the hyperframe. -/
theorem wire_frames_iff (generate : FillerType → Fin 102 → Fin 8 → V) (filler : FillerType)
    (tx_sps : ℕ) {latency startTime : Time} (hlatency : latency.Valid) (hstart : startTime.Valid)
    (edge ext_rach : Bool) (events : List (Turn n)) :
    let s : Clocks n Q := launched generate filler tx_sps latency startTime edge ext_rach
    Run.Along clockStep OnWire s events ↔ Run.Along clockStep NoWrap s events := by
  intro s
  have hs : Timed s :=
    { mClock := hstart
      rcvClock := hstart
      mReceiveFIFO := fun _ t ht => by cases ht
      mTransmitLatency := hlatency
      mLatencyUpdateTime := hstart
      mTransmitDeadlineClock := hstart
      mLastClockUpdateTime := hstart }
  exact Run.along_iff_of_invariant (I := Timed) (fun s e h _ => timed_step h e)
    (fun s e h => onWire_iff h e) hs events

/-- A transceiver with one channel, launched in a given frame. -/
def launchedIn (frame : ℤ) : Clocks 1 (listQueue (pointerCompare (V := Unit))) :=
  launched (fun _ _ _ => ()) .FILLER_ZERO 1 ⟨3, 0⟩ ⟨frame, 0⟩ false false

/-- A start, a burst that is received and sent to the core, a turn of the transmit thread, and the
clock indication that a start forces. -/
def firstIndication (chan : Fin 1) : List (Turn 1) :=
  [.start true, .pull true, .form true, .uplink chan true, .condition, .latency true true ⟨6, 7⟩,
    .push, .form false, .test, .write, .note]

theorem wire_frames_last_but_two :
    Run.Along clockStep OnWire (launchedIn 2715645) (firstIndication 0) :=
  (wire_frames_iff (fun _ _ _ => ()) .FILLER_ZERO 1 (by decide) (by decide) false false
    (firstIndication 0)).mpr (by decide +kernel)

/-- In the next frame the clock indication is for frame 2715648, which is not one. -/
theorem indication_past_hyperframe :
    ¬ Run.Along clockStep OnWire (launchedIn 2715646)
      [.start true, .pull true, .form false, .test, .write] := by
  rintro ⟨-, -, -, -, hwrite, -⟩
  have hframe := hwrite.frame (.indClock 2715648) (by decide +kernel)
  revert hframe
  decide

end Trx
end OsmoTrx
