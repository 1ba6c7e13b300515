import OsmoTrx.Radio.RadioBuffer
import OsmoTrx.Trx.VectorQueue

/-!
# The radio interface

The state of `class RadioInterface`, with `init` and `start`: a send and a receive buffer
for every channel, the base station clock and the sample timestamps of the device.
Samples are of an arbitrary type `S`; the conversion from and to the samples of the
device is the business of the receive and the transmit path.

* `allSome` — a loop over the channels that ends in undefined behaviour if one turn does.
* `Started` — a radio interface after `start`: it is on and its buffers are empty.
-/

namespace OsmoTrx
namespace Radio

open GSM Trx

/-! ## Channels -/

/-- There is a channel 0. -/
scoped instance (priority := 2000) neZero_chans (n : ℕ) : NeZero (n + 1) := ⟨Nat.succ_ne_zero n⟩

/-- The results of a turn for every channel, if all turns have one. -/
def allSome {n : ℕ} {α : Type} (f : Fin n → Option α) : Option (Fin n → α) :=
  if h : ∀ i, (f i).isSome = true then some fun i => (f i).get (h i) else none

theorem allSome_eq_some {n : ℕ} {α : Type} {f : Fin n → Option α} {g : Fin n → α}
    (h : ∀ i, f i = some (g i)) : allSome f = some g := by
  have hsome : ∀ i, (f i).isSome = true := fun i => by rw [h i]; rfl
  rw [allSome, dif_pos hsome]
  simp only [h, Option.get_some]

theorem allSome_apply {n : ℕ} {α : Type} {f : Fin n → Option α} {g : Fin n → α}
    (h : allSome f = some g) (i : Fin n) : f i = some (g i) := by
  unfold allSome at h
  split_ifs at h with hsome
  cases h
  exact (Option.some_get (hsome i)).symm

/-! ## State -/

/-- Symbols in a chunk, the unit of transfer from and to the device. -/
def CHUNK : ℕ := 625

/-- Chunks in a buffer. -/
def NUMCHUNKS : ℕ := 4

/-- `class RadioInterface` with `mChans = n + 1`: `init` refuses to have no channels. -/
structure RadioInterface (n : ℕ) (S : Type) where
  mSPSTx : ℕ
  mSPSRx : ℕ
  receiveOffset : ℤ
  mOn : Bool
  mClock : Time
  sendBuffer : Fin (n + 1) → RadioBuffer S
  recvBuffer : Fin (n + 1) → RadioBuffer S
  powerScaling : Fin (n + 1) → ℚ
  mReceiveFIFO : Fin (n + 1) → List (RadioVector (List S))
  underrun : Bool
  overrun : Bool
  writeTimestamp : UInt64
  readTimestamp : UInt64

/-- The layout of a buffer for `sps` samples per symbol. -/
def bufferLayout (sps : ℕ) (outDirection : Bool) : Layout :=
  ⟨NUMCHUNKS, CHUNK * sps, 0, outDirection⟩

/-- What `start` gets from the device. -/
structure DeviceStart where
  ok : Bool
  initialWriteTimestamp : UInt64
  initialReadTimestamp : UInt64

namespace RadioInterface

variable {n : ℕ} {S : Type}

/-- `init`: new buffers, in memory with some contents. -/
def init (t : RadioInterface n S) (sendMem recvMem : Fin (n + 1) → ℕ → S) :
    RadioInterface n S :=
  { t with
    sendBuffer := fun i => .new NUMCHUNKS (CHUNK * t.mSPSTx) 0 true (sendMem i)
    recvBuffer := fun i => .new NUMCHUNKS (CHUNK * t.mSPSRx) 0 false (recvMem i)
    powerScaling := fun _ => 1
    mReceiveFIFO := fun _ => [] }

/-- `start`. -/
def start (t : RadioInterface n S) (d : DeviceStart) : Bool × RadioInterface n S :=
  if t.mOn then (true, t)
  else if !d.ok then (false, t)
  else
    (true,
      { t with
        sendBuffer := fun i => (t.sendBuffer i).reset
        recvBuffer := fun i => (t.recvBuffer i).reset
        writeTimestamp := d.initialWriteTimestamp
        readTimestamp := d.initialReadTimestamp
        mOn := true })

end RadioInterface

/-! ## After a start -/

/-- A buffer of a given layout with its indices at the start. -/
structure Fresh {S : Type} (b : RadioBuffer S) (l : Layout) : Prop where
  layout : b.toLayout = l
  read : b.readIndex = 0
  write : b.writeIndex = 0
  avail : b.availSamples = 0

/-- A radio interface that has just been started. -/
structure Started {n : ℕ} {S : Type} (t : RadioInterface n S) : Prop where
  on : t.mOn = true
  send : ∀ i, Fresh (t.sendBuffer i) (bufferLayout t.mSPSTx true)
  recv : ∀ i, Fresh (t.recvBuffer i) (bufferLayout t.mSPSRx false)

variable {n : ℕ} {S : Type}

theorem started_start {t : RadioInterface n S} {d : DeviceStart}
    {sendMem recvMem : Fin (n + 1) → ℕ → S} (hoff : t.mOn = false) (hok : d.ok = true) :
    Started ((t.init sendMem recvMem).start d).2 := by
  have hstart : ((t.init sendMem recvMem).start d).2 =
      { t.init sendMem recvMem with
        sendBuffer := fun i => ((t.init sendMem recvMem).sendBuffer i).reset
        recvBuffer := fun i => ((t.init sendMem recvMem).recvBuffer i).reset
        writeTimestamp := d.initialWriteTimestamp
        readTimestamp := d.initialReadTimestamp
        mOn := true } := by
    have hoff' : (t.init sendMem recvMem).mOn = false := hoff
    simp only [RadioInterface.start, hoff', hok, Bool.not_true, Bool.false_eq_true, if_false]
  rw [hstart]
  exact ⟨rfl, fun i => ⟨rfl, rfl, rfl, rfl⟩, fun i => ⟨rfl, rfl, rfl, rfl⟩⟩

/-- A start that succeeds leaves the radio interface on. -/
theorem RadioInterface.mOn_of_start {t : RadioInterface n S} {d : DeviceStart}
    (h : (t.start d).1 = true) : (t.start d).2.mOn = true := by
  unfold RadioInterface.start at h ⊢
  split_ifs at h ⊢ with hon hok
  · exact hon
  · rfl

/-- Whatever comes of a start, a fresh send buffer stays fresh. -/
theorem Fresh.send_start {t : RadioInterface n S} {i : Fin (n + 1)} {l : Layout}
    (h : Fresh (t.sendBuffer i) l) (d : DeviceStart) : Fresh ((t.start d).2.sendBuffer i) l := by
  unfold RadioInterface.start
  split_ifs with hon hok
  · exact h
  · exact h
  · exact ⟨h.layout, rfl, rfl, rfl⟩

/-- A fresh buffer of a radio interface holds no samples. -/
theorem Fresh.holds {b : RadioBuffer S} {sps : ℕ} {dir : Bool} (h : Fresh b (bufferLayout sps dir))
    (hsps : 0 < sps) : b.Holds [] := by
  refine RadioBuffer.holds_nil ?_ h.read h.write h.avail
  rw [RadioBuffer.bufferLen, h.layout]
  simp only [bufferLayout, NUMCHUNKS, CHUNK]
  omega

/-- A radio interface with one channel at 1 sample per symbol, in the last frame of the
hyperframe. -/
def oneChannel : RadioInterface 0 ℤ :=
  let t : RadioInterface 0 ℤ :=
    { mSPSTx := 1
      mSPSRx := 1
      receiveOffset := 3
      mOn := false
      mClock := ⟨2715647, 6⟩
      sendBuffer := fun _ => .new 0 0 0 true fun _ => 0
      recvBuffer := fun _ => .new 0 0 0 false fun _ => 0
      powerScaling := fun _ => 1
      mReceiveFIFO := fun _ => []
      underrun := false
      overrun := false
      writeTimestamp := 0
      readTimestamp := 0 }
  ((t.init (fun _ _ => 0) (fun _ _ => 0)).start ⟨true, 0, 0⟩).2

theorem oneChannel_started : Started oneChannel := started_start rfl rfl

end Radio
end OsmoTrx
