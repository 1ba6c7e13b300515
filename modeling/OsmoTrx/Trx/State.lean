import OsmoTrx.Trx.VectorQueue

/-!
# The transceiver state

The state of `class Transceiver` and of its channels (`TransceiverState`), with
the operations that the control interface and the transmit path share: `setModulus`,
`start` and `stop`.

* `ChannelCombination` — the channel combination codes; a slot stores the `int` it was
  given, which need not be one of them.
* `RadioCalls` — the calls the transceiver makes on its `RadioInterface`, with whatever
  results the device gives.
* `ModulusOK` — the frame moduli of the filler table are the four `setModulus` installs.
-/

namespace OsmoTrx
namespace Trx

open GSM

/-! ## Channels -/

/-- `Transceiver::ChannelCombination`. -/
inductive ChannelCombination
  | FILL
  | I
  | II
  | III
  | IV
  | V
  | VI
  | VII
  | VIII
  | IX
  | X
  | XI
  | XII
  | XIII
  | NONE
  | LOOPBACK
  deriving DecidableEq, Repr

namespace ChannelCombination

/-- The enumerators in order. -/
def all : List ChannelCombination :=
  [FILL, I, II, III, IV, V, VI, VII, VIII, IX, X, XI, XII, XIII, NONE, LOOPBACK]

/-- The combination with a given code, if the code is one. -/
def ofCode (c : ℤ) : Option ChannelCombination := if 0 ≤ c then all[c.toNat]? else none

/-- The code of a combination. -/
def code (c : ChannelCombination) : ℤ := all.idxOf c

theorem ofCode_code (c : ChannelCombination) : ofCode c.code = some c := by
  cases c <;> decide

end ChannelCombination

/-- `FillerType`: what the filler table is filled with. -/
inductive FillerType
  | FILLER_DUMMY
  | FILLER_ZERO
  | FILLER_NORM_RAND
  | FILLER_EDGE_RAND
  | FILLER_ACCESS_RAND
  deriving DecidableEq, Repr

/-- `TransceiverState`: what a channel keeps for its eight timeslots. -/
structure TransceiverState (V : Type) where
  chanType : Fin 8 → ℤ
  fillerTable : Fin 102 → Fin 8 → Option V
  fillerModulus : Fin 8 → ℤ
  mRetrans : Bool
  mNoiseLev : ℚ
  mPower : ℤ

namespace TransceiverState

variable {V : Type}

/-- The constructor. -/
def new : TransceiverState V where
  chanType _ := ChannelCombination.NONE.code
  fillerTable _ _ := none
  fillerModulus _ := 26
  mRetrans := false
  mNoiseLev := 0
  mPower := 0

/-- `init`; `generate` makes the filler bursts.  The type of a slot that is to carry
random normal bursts is `TSC`, an enumerator of `CorrType` and the code of `I`. -/
def init (s : TransceiverState V) (generate : FillerType → Fin 102 → Fin 8 → V)
    (filler : FillerType) (sps : ℕ) : TransceiverState V :=
  if sps ≠ 1 ∧ sps ≠ 4 then s
  else { s with
    fillerTable := fun i n => some (generate filler i n)
    chanType := if filler = .FILLER_NORM_RAND ∨ filler = .FILLER_EDGE_RAND then
      fun _ => ChannelCombination.I.code else s.chanType }

/-- The modulus a channel combination asks for; `none` leaves the modulus alone. -/
def modulusOf (chanType : ℤ) : Option ℤ :=
  match ChannelCombination.ofCode chanType with
  | some .NONE | some .I | some .II | some .III | some .FILL => some 26
  | some .IV | some .VI | some .V => some 51
  | some .VII => some 102
  | some .XIII => some 52
  | _ => none

/-- `setModulus` on the channel: the frame modulus of a slot follows its type. -/
def setModulus (s : TransceiverState V) (timeslot : Fin 8) : TransceiverState V :=
  match modulusOf (s.chanType timeslot) with
  | some m => { s with fillerModulus := Function.update s.fillerModulus timeslot m }
  | none => s

/-- What a SETSLOT command does to the channel it is sent to. -/
def setSlot (s : TransceiverState V) (timeslot : Fin 8) (corrCode : ℤ) : TransceiverState V :=
  { s with chanType := Function.update s.chanType timeslot corrCode }.setModulus timeslot

/-- The moduli are among the four that `setModulus` installs. -/
def ModulusOK (s : TransceiverState V) : Prop :=
  ∀ tn, s.fillerModulus tn = 26 ∨ s.fillerModulus tn = 51 ∨ s.fillerModulus tn = 52 ∨
    s.fillerModulus tn = 102

theorem modulusOf_mem {c m : ℤ} (h : modulusOf c = some m) :
    m = 26 ∨ m = 51 ∨ m = 52 ∨ m = 102 := by
  unfold modulusOf at h
  split at h <;> simp_all

theorem modulusOK_setModulus {s : TransceiverState V} (h : s.ModulusOK) (ts : Fin 8) :
    (s.setModulus ts).ModulusOK := by
  unfold setModulus
  cases hm : modulusOf (s.chanType ts) with
  | none => exact h
  | some m =>
    intro tn
    by_cases htn : tn = ts
    · simpa [htn] using modulusOf_mem hm
    · simpa [htn] using h tn

theorem modulusOK_setSlot {s : TransceiverState V} (h : s.ModulusOK) (ts : Fin 8) (c : ℤ) :
    (s.setSlot ts c).ModulusOK :=
  modulusOK_setModulus (s := { s with chanType := Function.update s.chanType ts c }) h ts

@[simp] theorem setModulus_chanType (s : TransceiverState V) (ts : Fin 8) :
    (s.setModulus ts).chanType = s.chanType := by
  unfold setModulus
  split <;> rfl

@[simp] theorem setModulus_mRetrans (s : TransceiverState V) (ts : Fin 8) :
    (s.setModulus ts).mRetrans = s.mRetrans := by
  unfold setModulus
  split <;> rfl

@[simp] theorem setSlot_chanType (s : TransceiverState V) (ts : Fin 8) (c : ℤ) :
    (s.setSlot ts c).chanType = Function.update s.chanType ts c := by
  simp [setSlot]

@[simp] theorem setSlot_fillerTable (s : TransceiverState V) (ts : Fin 8) (c : ℤ) :
    (s.setSlot ts c).fillerTable = s.fillerTable := by
  unfold setSlot setModulus
  split <;> rfl

@[simp] theorem setSlot_mRetrans (s : TransceiverState V) (ts : Fin 8) (c : ℤ) :
    (s.setSlot ts c).mRetrans = s.mRetrans := by
  simp [setSlot]

end TransceiverState

/-! ## The transceiver -/

/-- The calls on `RadioInterface`; `ρ` is the state of the interface and its device, of
which nothing is assumed. -/
structure RadioCalls (ρ : Type) (n : ℕ) where
  start : ρ → Bool × ρ
  stop : ρ → Bool × ρ
  getClock : ρ → Time
  tuneTx : ρ → ℤ → Fin n → Bool × ρ
  tuneRx : ρ → ℤ → Fin n → Bool × ρ
  setRxGain : ρ → ℤ → Fin n → ℤ × ρ
  setPowerAttenuation : ρ → ℤ → Fin n → ℤ × ρ
  /-- `(int) round(20.0 * log10(rxFullScale / lev))` of a noise level `lev`. -/
  noiseLevel : ℚ → ℤ

/-- `class Transceiver` with `n` channels.  Frequencies are in Hz. -/
structure Transceiver (n : ℕ) {V : Type} (Q : BurstQueue V) where
  mTxPriorityQueues : Fin n → Q.Carrier
  mStates : Fin n → TransceiverState V
  mTransmitLatency : Time
  mLatencyUpdateTime : Time
  mTransmitDeadlineClock : Time
  mLastClockUpdateTime : Time
  mSPSTx : ℕ
  mExtRACH : Bool
  mEdge : Bool
  mOn : Bool
  mForceClockInterface : Bool
  mHandover : Fin 8 → Fin 8 → Bool
  mTxFreq : ℤ
  mRxFreq : ℤ
  mTSC : ℤ
  mMaxExpectedDelayAB : ℤ
  mMaxExpectedDelayNB : ℤ
  mWriteBurstToDiskMask : ℤ

namespace Transceiver

variable {n : ℕ} {V ρ : Type} {Q : BurstQueue V}

/-- The constructor followed by `init`: retransmission of filler bursts is for
channel 0 only, and the clocks start at a random frame. -/
def init (n : ℕ) (Q : BurstQueue V) (generate : FillerType → Fin 102 → Fin 8 → V)
    (filler : FillerType) (tx_sps : ℕ) (wTransmitLatency startTime : Time)
    (edge ext_rach : Bool) : Transceiver n Q where
  mTxPriorityQueues _ := Q.empty
  mStates i :=
    let s : TransceiverState V := { TransceiverState.new with
      mRetrans := decide (filler = FillerType.FILLER_DUMMY ∧ i.val = 0) }
    if i.val ≠ 0 ∧ filler = .FILLER_DUMMY then s.init generate .FILLER_ZERO tx_sps
    else s.init generate filler tx_sps
  mTransmitLatency := wTransmitLatency
  mLatencyUpdateTime := startTime
  mTransmitDeadlineClock := startTime
  mLastClockUpdateTime := startTime
  mSPSTx := tx_sps
  mExtRACH := ext_rach
  mEdge := edge
  mOn := false
  mForceClockInterface := false
  mHandover _ _ := false
  mTxFreq := 0
  mRxFreq := 0
  mTSC := 0
  mMaxExpectedDelayAB := 0
  mMaxExpectedDelayNB := 0
  mWriteBurstToDiskMask := 0

/-- Replace the state of one channel. -/
def updateState (t : Transceiver n Q) (chan : Fin n) (s : TransceiverState V) :
    Transceiver n Q :=
  { t with mStates := Function.update t.mStates chan s }

/-- `start`: whether the transceiver runs afterwards.  The clocks are set before the
radio interface is asked to start. -/
def start (R : RadioCalls ρ n) (t : Transceiver n Q) (r : ρ) : Bool × Transceiver n Q × ρ :=
  if t.mOn then (true, t, r)
  else
    let time := R.getClock r
    let t := { t with
      mTransmitDeadlineClock := time, mLastClockUpdateTime := time, mLatencyUpdateTime := time }
    match R.start r with
    | (false, r) => (false, t, r)
    | (true, r) => (true, { t with mForceClockInterface := true, mOn := true }, r)

/-- `stop`: the threads are gone, the device is stopped and the queues are empty. -/
def stop (R : RadioCalls ρ n) (t : Transceiver n Q) (r : ρ) : Transceiver n Q × ρ :=
  if !t.mOn then (t, r)
  else ({ t with mTxPriorityQueues := fun _ => Q.empty, mOn := false }, (R.stop r).2)

/-- `start` succeeds exactly when the transceiver runs afterwards. -/
theorem start_iff_mOn (R : RadioCalls ρ n) (t : Transceiver n Q) (r : ρ) :
    (t.start R r).1 = true ↔ (t.start R r).2.1.mOn = true := by
  unfold start
  by_cases hon : t.mOn = true
  · simp [hon]
  · rcases hst : R.start r with ⟨ok, r'⟩
    cases ok <;> simp [hon]

theorem start_of_mOn (R : RadioCalls ρ n) {t : Transceiver n Q} (h : t.mOn = true) (r : ρ) :
    t.start R r = (true, t, r) := by
  simp [start, h]

/-- After `stop` the transceiver is off. -/
theorem stop_mOn (R : RadioCalls ρ n) (t : Transceiver n Q) (r : ρ) :
    (t.stop R r).1.mOn = false := by
  unfold stop
  cases h : t.mOn <;> simp [h]

/-- What `start` may write. -/
theorem start_writes (R : RadioCalls ρ n) (t : Transceiver n Q) (r : ρ) :
    ∃ deadline last latency force on, (t.start R r).2.1 =
      { t with
        mTransmitDeadlineClock := deadline
        mLastClockUpdateTime := last
        mLatencyUpdateTime := latency
        mForceClockInterface := force
        mOn := on } := by
  unfold start
  cases hon : t.mOn with
  | true => exact ⟨_, _, _, _, _, rfl⟩
  | false =>
    rcases R.start r with ⟨ok, r'⟩
    cases ok with
    | false => exact ⟨_, _, _, t.mForceClockInterface, false, rfl⟩
    | true => exact ⟨_, _, _, _, _, rfl⟩

/-- What `stop` may write. -/
theorem stop_writes (R : RadioCalls ρ n) (t : Transceiver n Q) (r : ρ) :
    ∃ queues on, (t.stop R r).1 = { t with mTxPriorityQueues := queues, mOn := on } := by
  unfold stop
  split_ifs
  · exact ⟨_, _, rfl⟩
  · exact ⟨_, _, rfl⟩

@[simp] theorem updateState_mStates (t : Transceiver n Q) (chan : Fin n)
    (s : TransceiverState V) :
    (t.updateState chan s).mStates = Function.update t.mStates chan s := rfl

end Transceiver
end Trx
end OsmoTrx
