import OsmoTrx.Radio.Transmit
import OsmoTrx.Trx.BurstLength
import OsmoTrx.Trx.Pacing
import OsmoTrx.Trx.Schedule
import OsmoTrx.Trx.TransmitData

/-!
# The transmitter

The whole way down: datagrams come in on the data sockets, the transmit thread pushes one slot after
the other, and `driveTransmitRadio` hands chunks of samples to the device.

* `Transmitter`, `transmitterStep` — the queues and the radio interface, with a history.
* `datagramBurst` — the burst that a datagram is.
* `slotPlace` — where a slot begins in the stream of samples; four slots are a chunk.
* `Airs`, `airs_step` — the invariant, and the lemma for each event.
* `on_air_run` — **in every run** the samples of each slot are where the slot's time says, and they
  are those of a datagram for the slot if one is queued.
-/

namespace OsmoTrx
namespace Trx

open Dsp GSM Radio VectorQueue

variable {n : ℕ} {V R D : Type}

/-! ## The code -/

/-- The burst that `driveTxPriorityQueue` puts into the queue for a datagram, if it puts one
there. -/
def datagramBurst (M : Modem V) (mSPSTx : ℕ) (msg : List UInt8) : Option (RadioVector V) :=
  let buffer := msg.take (EDGE_BURST_NBITS + 50)
  let bits := buffer.drop 6
  let wTime := wireTime buffer
  if acceptsLength mSPSTx buffer.length = true ∧ wTime.TN ≤ 7 then
    some ⟨wTime, some (M.scaleVector
      (if bits.length = EDGE_BURST_NBITS then M.modulateEdgeBurst bits mSPSTx
        else M.modulateBurst bits (8 + if wTime.TN % 4 = 0 then 1 else 0) mSPSTx)
      ((-schar (buffer.getD 5 0)).tdiv 10))⟩
  else none

/-- The samples of a vector. -/
def vectorSamples (v : SignalVector R) : List (R × R) :=
  (List.range v.size).map fun j : ℕ => v.sample j

variable {Q : BurstQueue (Option (SignalVector R))}

/-- A push, with the types that the slots of each channel had been given before. -/
structure AirRecord (n : ℕ) {V : Type} (Q : BurstQueue V) extends PushRecord n Q where
  types : Fin n → Fin 8 → ℤ

/-- The transceiver, and the radio interface with what it has handed to the device, after some
datagrams have come in, some slots have got a type and some have been pushed. -/
structure Transmitter (n : ℕ) (D : Type) (Q : BurstQueue (Option (SignalVector R))) where
  trx : Transceiver (n + 1) Q
  tx : Transmission n (R × R) D
  arrived : List (Fin (n + 1) × List UInt8)
  types : Fin (n + 1) → Fin 8 → ℤ
  pushes : List (AirRecord (n + 1) Q)

/-- Before anything has come in. -/
def Transmitter.start (trx : Transceiver (n + 1) Q) (radio : RadioInterface n (R × R)) :
    Transmitter n D Q where
  trx := trx
  tx := ⟨radio, [], []⟩
  arrived := []
  types := fun i => (trx.mStates i).chanType
  pushes := []

/-- A datagram arrives, a slot gets a type, or the loop of `driveTxFIFO` makes a turn, during which
the device gives its answers. -/
inductive TransmitterEvent (n : ℕ)
  | datagram (chan : Fin (n + 1)) (msg : List UInt8)
  | setSlot (chan : Fin (n + 1)) (timeslot : Fin 8) (corrCode : ℤ)
  | turn (clock : Time) (usrp1 underrun : Bool) (minLatency : Time) (device : ℕ → DeviceAnswer)

/-- The vector behind a pointer, if it is not NULL. -/
def Pushed.samples (p : Pushed Q) : Option (List (R × R)) := p.burst.join.map vectorSamples

variable [CommRing R]

/-- A turn of the loop of `driveTxFIFO`, with the end of `pushRadioVector`. -/
def Transmitter.turn (convertFloatShort : ℚ → R × R → D) (s : Transmitter n D Q) (clock : Time)
    (usrp1 underrun : Bool) (minLatency : Time) (device : ℕ → DeviceAnswer) :
    Option (Transmitter n D Q) := do
  let trx := adapt s.trx clock usrp1 underrun minLatency
  let (trx', out) ← pushRadioVector trx trx.mTransmitDeadlineClock
  let bursts ← allSome fun i => (out i).samples
  let tx ← transmitStep convertFloatShort (some s.tx) ⟨bursts, fun i => (out i).zero, device⟩
  some
    { s with
      trx := { trx' with mTransmitDeadlineClock := trx'.mTransmitDeadlineClock.incTN 1 }
      tx := tx
      pushes := s.pushes ++
        [⟨⟨trx.mTransmitDeadlineClock, trx.mTxPriorityQueues, out⟩, s.types⟩] }

/-- One event; `none` is an access outside of a table or a buffer, or to a vector that is not
there. -/
def transmitterStep (M : Modem (Option (SignalVector R))) (convertFloatShort : ℚ → R × R → D) :
    Option (Transmitter n D Q) → TransmitterEvent n → Option (Transmitter n D Q)
  | none, _ => none
  | some s, .datagram chan msg =>
    some { s with
      trx := (driveTxPriorityQueue M s.trx chan msg).2
      arrived := s.arrived ++ [(chan, msg)] }
  | some s, .setSlot chan ts code =>
    some { s with
      trx := s.trx.updateState chan ((s.trx.mStates chan).setSlot ts code)
      types := Function.update s.types chan (Function.update (s.types chan) ts code) }
  | some s, .turn clock usrp1 underrun minLatency device =>
    s.turn convertFloatShort clock usrp1 underrun minLatency device

/-! ## Places -/

/-- Where slot `k` after the slot `first` begins in the stream. -/
def slotPlace (sps : ℕ) (first : Time) : ℕ → ℕ
  | 0 => 0
  | k + 1 => slotPlace sps first k + SigProcLib.slotLen sps (later first k).mTN

theorem mTN_later {first : Time} (h : first.Valid) (k : ℕ) :
    (later first k).mTN = (first.mTN + k) % 8 := by
  have hslot := slot_later h k
  obtain ⟨-, hlow, hhigh⟩ := later_valid h k
  simp only [Time.slot, Time.hyperslots] at hslot
  rw [gHyperframe_eq] at hslot
  omega

/-- **Four slots are a chunk**, wherever they begin. -/
theorem slotPlace_add_four {sps : ℕ} (hsps : sps = 1 ∨ sps = 4) {first : Time} (h : first.Valid)
    (k : ℕ) : slotPlace sps first (k + 4) = slotPlace sps first k + CHUNK * sps := by
  have hlen (j : ℕ) : SigProcLib.slotLen sps (later first j).mTN =
      if sps = 4 then 625 else 156 + if (first.mTN + j) % 8 % 4 = 0 then 1 else 0 := by
    rw [SigProcLib.slotLen, mTN_later h]
  simp only [slotPlace, hlen, CHUNK]
  rcases hsps with rfl | rfl
  · simp only [show ¬ (1 = 4) by decide, if_false]
    push_cast
    split_ifs <;> omega
  · simp only [if_true]

/-- An element of a concatenation. -/
theorem getElem?_flatMap_place {α β : Type} {f : α → List β} {l : List α} {k j : ℕ}
    (hk : k < l.length) (hj : j < (f l[k]).length) :
    (l.flatMap f)[((l.take k).flatMap f).length + j]? = (f l[k])[j]? := by
  have hsplit : l.flatMap f =
      (l.take k).flatMap f ++ (f l[k] ++ (l.drop (k + 1)).flatMap f) := by
    conv_lhs => rw [← List.take_append_drop k l]
    rw [List.flatMap_append, List.drop_eq_getElem_cons hk, List.flatMap_cons]
  rw [hsplit, List.getElem?_append_right (Nat.le_add_right _ _), Nat.add_sub_cancel_left,
    List.getElem?_append_left hj]

/-! ## The history -/

/-- What goes to a channel for a push. -/
def airSamples (p : AirRecord (n + 1) Q) (i : Fin (n + 1)) : List (R × R) :=
  burstSamples (((p.out i).samples).getD []) (p.out i).zero

/-- What has gone to a channel. -/
def airInput (pushes : List (AirRecord (n + 1) Q)) (i : Fin (n + 1)) : List (R × R) :=
  pushes.flatMap fun p => airSamples p i

/-- The vector that a push has handed over has the length of the slot, and is to be silence just if
the slot has no type; and if a burst for the slot was queued, then it is that of a datagram for the
slot, which has arrived on the channel. -/
structure HandsOver (M : Modem (Option (SignalVector R))) (sps : ℕ)
    (arrived : List (Fin (n + 1) × List UInt8)) (p : AirRecord (n + 1) Q) (i : Fin (n + 1)) :
    Prop where
  vector : ∃ v, (p.out i).burst = some (some v) ∧ v.size = SigProcLib.slotLen sps p.slot.mTN
  zero : ∀ tn : Fin 8, (tn : ℤ) = p.slot.mTN →
    ((p.out i).zero = true ↔ p.types i tn = ChannelCombination.NONE.code)
  served : (∃ b ∈ Q.elems (p.found i), b.mTime = p.slot) →
    ∃ msg b, (i, msg) ∈ arrived ∧ datagramBurst M sps msg = some b ∧ b.mTime = p.slot ∧
      (p.out i).burst = b.vector

omit [CommRing R] in
/-- The datagrams that come in do not matter for earlier pushes. -/
theorem HandsOver.mono {M : Modem (Option (SignalVector R))} {sps : ℕ}
    {arrived new : List (Fin (n + 1) × List UInt8)} {p : AirRecord (n + 1) Q} {i : Fin (n + 1)}
    (h : HandsOver M sps arrived p i) : HandsOver M sps (arrived ++ new) p i where
  vector := h.vector
  zero := h.zero
  served hfound := by
    obtain ⟨msg, b, hmsg, hb⟩ := h.served hfound
    exact ⟨msg, b, List.mem_append_left _ hmsg, hb⟩

omit [CommRing R] in
@[simp] theorem length_vectorSamples (v : SignalVector R) : (vectorSamples v).length = v.size := by
  simp [vectorSamples]

/-- What goes to a channel is as long as the slot. -/
theorem HandsOver.length {M : Modem (Option (SignalVector R))} {sps : ℕ}
    {arrived : List (Fin (n + 1) × List UInt8)} {p : AirRecord (n + 1) Q} {i : Fin (n + 1)}
    (h : HandsOver M sps arrived p i) :
    (airSamples p i).length = SigProcLib.slotLen sps p.slot.mTN := by
  obtain ⟨v, hv, hsize⟩ := h.vector
  rw [airSamples, length_burstSamples, Pushed.samples, hv, Option.join_some, Option.map_some,
    Option.getD_some, length_vectorSamples, hsize]

/-- A sample that goes to a channel. -/
theorem getElem?_airSamples {p : AirRecord (n + 1) Q} {i : Fin (n + 1)} {v : SignalVector R}
    (hv : (p.out i).burst = some (some v)) {j : ℕ} (hj : j < v.size) :
    (airSamples p i)[j]? = some (if (p.out i).zero then 0 else v.sample j) := by
  rw [airSamples, Pushed.samples, hv, Option.join_some, Option.map_some, Option.getD_some,
    burstSamples]
  split_ifs
  · rw [List.getElem?_replicate, if_pos (by rwa [length_vectorSamples])]
  · simp [vectorSamples, hj]

/-- The slots that have been pushed lie one after the other. -/
theorem length_airInput {M : Modem (Option (SignalVector R))} {sps : ℕ} {first : Time}
    {arrived : List (Fin (n + 1) × List UInt8)} {i : Fin (n + 1)}
    {pushes : List (AirRecord (n + 1) Q)}
    (hslot : ∀ k (hk : k < pushes.length), pushes[k].slot = later first k)
    (hhands : ∀ p ∈ pushes, HandsOver M sps arrived p i) {k : ℕ} (hk : k ≤ pushes.length) :
    (airInput (pushes.take k) i).length = slotPlace sps first k := by
  induction k with
  | zero => rfl
  | succ k ih =>
    have hlt : k < pushes.length := hk
    rw [List.take_add_one, List.getElem?_eq_getElem hlt, Option.toList_some, airInput,
      List.flatMap_append, List.length_append, List.flatMap_singleton,
      (hhands _ (List.getElem_mem hlt)).length, hslot k hlt, slotPlace]
    congr 1
    exact ih hlt.le

/-! ## One event -/

section Queues

variable {m : ℕ} {Q : BurstQueue V} {t : Transceiver m Q} {chan i : Fin m} {b : RadioVector V}

theorem queueBurst_self :
    (t.queueBurst chan b).mTxPriorityQueues chan = Q.push (t.mTxPriorityQueues chan) b :=
  Function.update_self ..

theorem queueBurst_of_ne (hi : i ≠ chan) :
    (t.queueBurst chan b).mTxPriorityQueues i = t.mTxPriorityQueues i :=
  Function.update_of_ne hi ..

end Queues

/-- What a datagram does to the queues. -/
theorem queue_datagramBurst (M : Modem V) {m : ℕ} {Q : BurstQueue V} (t : Transceiver m Q)
    (chan : Fin m) (msg : List UInt8) :
    (driveTxPriorityQueue M t chan msg).2 =
      match datagramBurst M t.mSPSTx msg with
      | some b => t.queueBurst chan b
      | none => t := by
  by_cases hacc : acceptsLength t.mSPSTx (msg.take (EDGE_BURST_NBITS + 50)).length = true
  · by_cases htn : (wireTime (msg.take (EDGE_BURST_NBITS + 50))).TN ≤ 7
    · simp only [driveTxPriorityQueue, if_pos hacc, addRadioVector, if_neg (not_lt.mpr htn),
        datagramBurst, if_pos (And.intro hacc htn), Transceiver.queueBurst]
    · simp only [driveTxPriorityQueue, if_pos hacc, addRadioVector, if_pos (not_le.mp htn),
        datagramBurst, if_neg (fun h : _ ∧ _ => htn h.2)]
  · simp only [driveTxPriorityQueue, if_neg hacc, datagramBurst,
      if_neg (fun h : _ ∧ _ => hacc h.1)]

/-- A datagram that is a burst has been accepted. -/
theorem accepted_of_datagramBurst {M : Modem V} {sps : ℕ} {msg : List UInt8} {b : RadioVector V}
    (h : datagramBurst M sps msg = some b) :
    acceptsLength sps (msg.take (EDGE_BURST_NBITS + 50)).length = true ∧
      (wireTime (msg.take (EDGE_BURST_NBITS + 50))).TN ≤ 7 := by
  by_contra hrefused
  simp only [datagramBurst, if_neg hrefused] at h
  cases h

/-- A datagram that is queued has a valid frame number, and the device takes whole chunks. -/
def TransmitterOK (sps : ℕ) : TransmitterEvent n → Prop
  | .datagram _ msg =>
    let buffer := msg.take (EDGE_BURST_NBITS + 50)
    acceptsLength sps buffer.length = true → (wireTime buffer).TN ≤ 7 →
      (wireFrame msg : ℤ) < gHyperframe
  | .setSlot _ _ _ => True
  | .turn _ _ _ _ device => ∀ k, (device k).numSent = CHUNK * sps

/-- The times in a queue, and that of a burst that comes to it, are in a window around the slot that
is pushed next. -/
def AroundDeadline (M : Modem (Option (SignalVector R))) :
    Option (Transmitter n D Q) → TransmitterEvent n → Prop
  | some s, .datagram chan msg => ∀ b ∈ datagramBurst M s.trx.mSPSTx msg,
      Window s.trx.mTransmitDeadlineClock
        ((b ::ₘ Q.elems (s.trx.mTxPriorityQueues chan)).map RadioVector.mTime)
  | some s, .turn _ _ _ _ _ => ∀ i, Window s.trx.mTransmitDeadlineClock
      ((Q.elems (s.trx.mTxPriorityQueues i)).map RadioVector.mTime)
  | some _, .setSlot _ _ _ | none, _ => True

instance (M : Modem (Option (SignalVector R))) :
    ∀ (o : Option (Transmitter n D Q)) (e : TransmitterEvent n), Decidable (AroundDeadline M o e)
  | some _, .datagram _ _ => inferInstanceAs (Decidable (∀ b ∈ datagramBurst M _ _, Window _ _))
  | some _, .turn _ _ _ _ _ => inferInstanceAs (Decidable (∀ _, Window _ _))
  | some _, .setSlot _ _ _ | none, _ => .isTrue trivial

/-- The invariant: the queues hold bursts of datagrams in order, the slots have been pushed one
after the other from `first` on, and what has been handed over is in the stream. -/
structure Airs (M : Modem (Option (SignalVector R))) (convertFloatShort : ℚ → R × R → D) (sps : ℕ)
    (first : Time) (start : UInt64) (scaling : Fin (n + 1) → ℚ) (s : Transmitter n D Q) : Prop where
  lengths : LengthsKept sps s.trx
  ordered : ∀ i, Q.Ordered (s.trx.mTxPriorityQueues i)
  origin : ∀ i, ∀ b ∈ Q.elems (s.trx.mTxPriorityQueues i),
    ∃ msg, (i, msg) ∈ s.arrived ∧ datagramBurst M sps msg = some b
  deadline : s.trx.mTransmitDeadlineClock = later first s.pushes.length
  types : ∀ i, (s.trx.mStates i).chanType = s.types i
  slots : ∀ k (hk : k < s.pushes.length), s.pushes[k].slot = later first k
  handed : ∀ p ∈ s.pushes, ∀ i, HandsOver M sps s.arrived p i
  sent : Sent convertFloatShort start sps scaling (airInput s.pushes) s.tx

section Events

variable {f : FloatValues R} {cpu : ConvolveCpuContext R} {scale : ℤ → R}
  {convertFloatShort : ℚ → R × R → D} {sps : ℕ} {first : Time} {start : UInt64}
  {scaling : Fin (n + 1) → ℚ} {s : Transmitter n D Q}

/-- A datagram. -/
theorem Airs.datagram (hsps : sps = 1 ∨ sps = 4)
    (h : Airs (sigProcModem (sigProcLibSetup f cpu) scale) convertFloatShort sps first start scaling
      s) {chan : Fin (n + 1)} {msg : List UInt8}
    (hok : TransmitterOK (n := n) sps (.datagram chan msg))
    (hw : AroundDeadline (sigProcModem (sigProcLibSetup f cpu) scale) (some s)
      (.datagram chan msg)) :
    Airs (sigProcModem (sigProcLibSetup f cpu) scale) convertFloatShort sps first start scaling
      { s with
        trx := (driveTxPriorityQueue (sigProcModem (sigProcLibSetup f cpu) scale) s.trx chan msg).2
        arrived := s.arrived ++ [(chan, msg)] } := by
  set M := sigProcModem (sigProcLibSetup f cpu) scale with hM
  have hqueue := queue_datagramBurst M s.trx chan msg
  have hhanded : ∀ p ∈ s.pushes, ∀ i, HandsOver M sps (s.arrived ++ [(chan, msg)]) p i :=
    fun p hp i => (h.handed p hp i).mono
  simp only [AroundDeadline, h.lengths.sps_eq] at hw
  rw [h.lengths.sps_eq] at hqueue
  cases hb : datagramBurst M sps msg with
  | none =>
    rw [hb] at hqueue
    simp only [hqueue]
    refine ⟨h.lengths, h.ordered, fun i b hmem => ?_, h.deadline, h.types, h.slots, hhanded,
      h.sent⟩
    obtain ⟨msg', hmsg', hb'⟩ := h.origin i b hmem
    exact ⟨msg', List.mem_append_left _ hmsg', hb'⟩
  | some b =>
    have hlengths : LengthsKept sps (driveTxPriorityQueue M s.trx chan msg).2 := by
      obtain ⟨hlen, htn⟩ := accepted_of_datagramBurst hb
      exact h.lengths.datagram f cpu scale hsps (hok hlen htn)
    rw [hb] at hqueue
    simp only [hqueue] at hlengths ⊢
    refine ⟨hlengths, fun i => ?_, fun i c hmem => ?_, h.deadline, h.types, h.slots, hhanded,
      h.sent⟩
    · change Q.Ordered ((s.trx.queueBurst chan b).mTxPriorityQueues i)
      by_cases hi : i = chan
      · subst hi
        rw [queueBurst_self]
        exact Q.ordered_push _ _ (h.ordered i) (coherent_of_window (hw b hb))
      · rw [queueBurst_of_ne hi]
        exact h.ordered i
    · have hold : c ∈ Q.elems (s.trx.mTxPriorityQueues i) →
          ∃ msg', (i, msg') ∈ s.arrived ++ [(chan, msg)] ∧ datagramBurst M sps msg' = some c := by
        intro hc
        obtain ⟨msg', hmsg', hb'⟩ := h.origin i c hc
        exact ⟨msg', List.mem_append_left _ hmsg', hb'⟩
      change c ∈ Q.elems ((s.trx.queueBurst chan b).mTxPriorityQueues i) at hmem
      by_cases hi : i = chan
      · subst hi
        rw [queueBurst_self, Q.elems_push] at hmem
        rcases Multiset.mem_cons.mp hmem with rfl | hc
        · exact ⟨msg, List.mem_append_right _ (List.mem_singleton.mpr rfl), hb⟩
        · exact hold hc
      · rw [queueBurst_of_ne hi] at hmem
        exact hold hmem

/-- A type of a slot. -/
theorem Airs.setSlot {M : Modem (Option (SignalVector R))}
    (h : Airs M convertFloatShort sps first start scaling s) (chan : Fin (n + 1)) (ts : Fin 8)
    (code : ℤ) :
    Airs M convertFloatShort sps first start scaling
      { s with
        trx := s.trx.updateState chan ((s.trx.mStates chan).setSlot ts code)
        types := Function.update s.types chan (Function.update (s.types chan) ts code) } where
  lengths := ⟨h.lengths.slotted.setSlot chan ts code,
    inTable_setSlot h.lengths.inTable chan ts code, h.lengths.sps_eq⟩
  ordered := h.ordered
  origin := h.origin
  deadline := h.deadline
  types i := by
    by_cases hi : i = chan
    · subst hi
      simp only [Transceiver.updateState, Function.update_self, TransceiverState.setSlot_chanType,
        h.types]
    · simp only [Transceiver.updateState, Function.update_of_ne hi, h.types]
  slots := h.slots
  handed := h.handed
  sent := h.sent

omit [CommRing R] in
/-- What a push does with the queues and the tables of a transceiver whose bursts are those of
datagrams: it hands over a vector for every channel. -/
theorem push_handsOver {M : Modem (Option (SignalVector R))} {t : Transceiver (n + 1) Q}
    {arrived : List (Fin (n + 1) × List UInt8)} (h : LengthsKept sps t)
    (hordered : ∀ i, Q.Ordered (t.mTxPriorityQueues i))
    (horigin : ∀ i, ∀ b ∈ Q.elems (t.mTxPriorityQueues i),
      ∃ msg, (i, msg) ∈ arrived ∧ datagramBurst M sps msg = some b)
    (hnow : t.mTransmitDeadlineClock.Valid)
    (hw : ∀ i, Window t.mTransmitDeadlineClock
      ((Q.elems (t.mTxPriorityQueues i)).map RadioVector.mTime)) :
    ∃ t' out, pushRadioVector t t.mTransmitDeadlineClock = some (t', out) ∧
      t'.mTransmitDeadlineClock = t.mTransmitDeadlineClock ∧ LengthsKept sps t' ∧
      (∀ i, (t'.mStates i).chanType = (t.mStates i).chanType) ∧
      (∀ i, Q.Ordered (t'.mTxPriorityQueues i)) ∧
      (∀ i, ∀ b ∈ Q.elems (t'.mTxPriorityQueues i), b ∈ Q.elems (t.mTxPriorityQueues i)) ∧
      ∀ i, HandsOver M sps arrived ⟨⟨t.mTransmitDeadlineClock, t.mTxPriorityQueues, out⟩,
        fun i => (t.mStates i).chanType⟩ i := by
  obtain ⟨t', out, hpush, hslotted, hsame, hvector⟩ := h.slotted.push h.inTable hnow
  obtain ⟨t₁, hpush₁, hin⟩ := inTable_push h.inTable hnow
  obtain ⟨out₂, mid, hpush₂, hspec⟩ := pushRadioVector_spec hnow h.inTable.modulus
    h.inTable.storable
  rw [hpush, Option.map_some] at hpush₁
  obtain rfl := Option.some.inj hpush₁
  rw [hpush] at hpush₂
  obtain ⟨rfl, rfl⟩ := Prod.mk.inj (Option.some.inj hpush₂)
  refine ⟨_, out, hpush, rfl, ⟨hslotted, hin, hsame.trans h.sps_eq⟩, fun i => ?_,
    fun i => (hspec i).ordered (hw i) (hordered i), fun i b hb => (hspec i).queue_subset hb,
    fun i => ⟨?_, fun tn htn => ?_, ?_⟩⟩
  · obtain ⟨table, htable⟩ := (hspec i).state
    simp only [htable]
  · obtain ⟨burst, hburst, v, rfl, hsize⟩ := hvector i
    exact ⟨v, hburst, hsize⟩
  · rw [(hspec i).zero tn htn, decide_eq_true_iff]
  · rintro ⟨b, hb, htime⟩
    obtain ⟨c, hc⟩ := (hspec i).served (hw i) (hordered i) hb htime
    rcases (hspec i).current with ⟨hnone, -⟩ | ⟨c', hc', htop, htime', -, hburst⟩
    · rw [hnone] at hc
      cases hc
    · have hmem : c' ∈ Q.elems (t.mTxPriorityQueues i) := (hspec i).mid_subset (Q.mem_of_top htop)
      obtain ⟨msg, hmsg, hmade⟩ := horigin i c' hmem
      exact ⟨msg, c', hmsg, hmade, htime', hburst⟩

/-- A turn of the loop. -/
theorem Airs.turn {M : Modem (Option (SignalVector R))} (hsps : sps = 1 ∨ sps = 4)
    (hfirst : first.Valid) (h : Airs M convertFloatShort sps first start scaling s) (clock : Time)
    (usrp1 underrun : Bool) (minLatency : Time) {device : ℕ → DeviceAnswer}
    (hdevice : ∀ k, (device k).numSent = CHUNK * sps)
    (hw : ∀ i, Window s.trx.mTransmitDeadlineClock
      ((Q.elems (s.trx.mTxPriorityQueues i)).map RadioVector.mTime)) :
    ∃ s', s.turn convertFloatShort clock usrp1 underrun minLatency device = some s' ∧
      Airs M convertFloatShort sps first start scaling s' := by
  -- the latency control leaves alone what the push looks at
  obtain ⟨-, latency, update, hadapt⟩ := adapted_adapt s.trx clock usrp1 underrun minLatency
  set t := adapt s.trx clock usrp1 underrun minLatency with ht
  have hqueues : t.mTxPriorityQueues = s.trx.mTxPriorityQueues := by rw [hadapt]
  have hdeadline : t.mTransmitDeadlineClock = s.trx.mTransmitDeadlineClock := by rw [hadapt]
  have htypes : (fun i => (t.mStates i).chanType) = s.types := by
    rw [hadapt]
    exact funext h.types
  have hlengths : LengthsKept sps t := by
    rw [hadapt]
    exact ⟨⟨h.lengths.slotted.queued, h.lengths.slotted.table⟩,
      ⟨h.lengths.inTable.modulus, h.lengths.inTable.storable⟩, h.lengths.sps_eq⟩
  have hnow : t.mTransmitDeadlineClock.Valid := by
    rw [hdeadline, h.deadline]
    exact later_valid hfirst _
  obtain ⟨t', out, hpush, hsame, hlengths', htypes', hordered', hsub, hhands⟩ :=
    push_handsOver hlengths (fun i => by rw [hqueues]; exact h.ordered i)
      (fun i b hb => h.origin i b (by rwa [hqueues] at hb)) hnow
      (fun i => by rw [hqueues, hdeadline]; exact hw i)
  rw [htypes] at hhands
  set p : AirRecord (n + 1) Q :=
    ⟨⟨t.mTransmitDeadlineClock, t.mTxPriorityQueues, out⟩, s.types⟩ with hp
  have hslot : p.slot = later first s.pushes.length := hdeadline.trans h.deadline
  -- the vectors are there, and as long as the slot
  have hvector : ∀ i, ∃ burst, (out i).samples = some burst ∧
      airSamples p i = burstSamples burst (out i).zero ∧
      burst.length = SigProcLib.slotLen sps p.slot.mTN := by
    intro i
    obtain ⟨v, hv, hsize⟩ := (hhands i).vector
    have hsamples : (out i).samples = some (vectorSamples v) := by
      rw [Pushed.samples, hv, Option.join_some, Option.map_some]
    exact ⟨_, hsamples, by rw [airSamples, hsamples, Option.getD_some],
      (length_vectorSamples v).trans hsize⟩
  choose bursts hbursts hair hlen using hvector
  have hcall : CallOK sps ⟨bursts, fun i => (out i).zero, device⟩ := by
    refine ⟨fun i => (hlen i).trans (hlen 0).symm, ?_, hdevice⟩
    rw [hlen 0, SigProcLib.slotLen, CHUNK]
    rcases hsps with rfl | rfl <;> split_ifs <;> omega
  obtain ⟨tx, htx, hsent⟩ := sent_step h.sent hcall
  have hturn : s.turn convertFloatShort clock usrp1 underrun minLatency device = some
      { s with
        trx := { t' with mTransmitDeadlineClock := t'.mTransmitDeadlineClock.incTN 1 }
        tx := tx
        pushes := s.pushes ++ [p] } := by
    rw [Transmitter.turn, ← ht]
    simp only [hpush, allSome_eq_some hbursts, htx, Option.bind_eq_bind, Option.bind_some, hp]
  refine ⟨_, hturn, ?_⟩
  exact
    { lengths := ⟨⟨hlengths'.slotted.queued, hlengths'.slotted.table⟩,
        ⟨hlengths'.inTable.modulus, hlengths'.inTable.storable⟩, hlengths'.sps_eq⟩
      ordered := hordered'
      origin := fun i b hb => h.origin i b (by rw [← hqueues]; exact hsub i b hb)
      deadline := by
        simp only [hsame, hdeadline, h.deadline, List.length_append, List.length_singleton]
        exact (Function.iterate_succ_apply' (fun t => Time.incTN t 1) s.pushes.length first).symm
      types := fun i => (htypes' i).trans (congrFun htypes i)
      slots := fun k hk => by
        rcases Run.getElem_log_cases hk with ⟨hold, hget⟩ | ⟨rfl, hget⟩
        · exact (congrArg (fun p => p.slot) hget).trans (h.slots k hold)
        · exact (congrArg (fun p => p.slot) hget).trans hslot
      handed := Run.forall_mem_log h.handed hhands
      sent := by
        have hinput : airInput (s.pushes ++ [p]) =
            fun i => airInput s.pushes i ++ burstSamples (bursts i) (out i).zero := by
          funext i
          rw [airInput, List.flatMap_append, List.flatMap_singleton, hair i]
          rfl
        simp only [hinput]
        exact hsent }

/-- **The step lemma.** -/
theorem airs_step (hsps : sps = 1 ∨ sps = 4) (hfirst : first.Valid)
    (h : Airs (sigProcModem (sigProcLibSetup f cpu) scale) convertFloatShort sps first start scaling
      s) {e : TransmitterEvent n} (hok : TransmitterOK sps e)
    (hw : AroundDeadline (sigProcModem (sigProcLibSetup f cpu) scale) (some s) e) :
    ∃ s', transmitterStep (sigProcModem (sigProcLibSetup f cpu) scale) convertFloatShort (some s)
        e = some s' ∧
      Airs (sigProcModem (sigProcLibSetup f cpu) scale) convertFloatShort sps first start scaling
        s' := by
  cases e with
  | datagram chan msg => exact ⟨_, rfl, h.datagram hsps hok hw⟩
  | setSlot chan ts code => exact ⟨_, rfl, h.setSlot chan ts code⟩
  | turn clock usrp1 underrun minLatency device =>
    exact h.turn hsps hfirst clock usrp1 underrun minLatency hok hw

end Events

/-! ## Any run -/

/-- What the device has: the samples of channel `i`. -/
def Transmitter.air (s : Transmitter n D Q) (i : Fin (n + 1)) : List D :=
  s.tx.chunks.flatMap fun w => w.data i

/-- What the device has been given, and when. -/
structure OnAir (M : Modem (Option (SignalVector R))) (convertFloatShort : ℚ → R × R → D) (sps : ℕ)
    (first : Time) (start : UInt64) (scaling : Fin (n + 1) → ℚ) (s : Transmitter n D Q) : Prop where
  /-- Chunk after chunk, … -/
  chunk : ∀ c (hc : c < s.tx.chunks.length),
    s.tx.chunks[c].timestamp = start + UInt64.ofNat (c * (CHUNK * sps)) ∧
      ∀ i, (s.tx.chunks[c].data i).length = CHUNK * sps
  /-- … all but less than a chunk of the slots that have been pushed, … -/
  leftover : s.tx.chunks.length * (CHUNK * sps) ≤ slotPlace sps first s.pushes.length ∧
    slotPlace sps first s.pushes.length < (s.tx.chunks.length + 1) * (CHUNK * sps)
  /-- … which are consecutive. -/
  slots : ∀ k (hk : k < s.pushes.length), s.pushes[k].slot = later first k
  /-- The vector of each slot lies at the place of the slot, or silence if the slot has no type. -/
  placed : ∀ k (hk : k < s.pushes.length) (i : Fin (n + 1)) (tn : Fin 8),
    (tn : ℤ) = (later first k).mTN → ∃ v,
    (s.pushes[k].out i).burst = some (some v) ∧
      v.size = SigProcLib.slotLen sps (later first k).mTN ∧
      ∀ j < v.size, slotPlace sps first k + j < s.tx.chunks.length * (CHUNK * sps) →
        (s.air i)[slotPlace sps first k + j]? = some (convertFloatShort (scaling i)
          (if s.pushes[k].types i tn = ChannelCombination.NONE.code then 0 else v.sample j))
  /-- If a burst is queued for the slot, this vector is the one of a datagram for the slot. -/
  served : ∀ p ∈ s.pushes, ∀ i, (∃ b ∈ Q.elems (p.found i), b.mTime = p.slot) →
    ∃ msg b, (i, msg) ∈ s.arrived ∧ datagramBurst M sps msg = some b ∧ b.mTime = p.slot ∧
      (p.out i).burst = b.vector

theorem Airs.onAir {M : Modem (Option (SignalVector R))} {convertFloatShort : ℚ → R × R → D}
    {sps : ℕ} {first : Time} {start : UInt64} {scaling : Fin (n + 1) → ℚ} {s : Transmitter n D Q}
    (h : Airs M convertFloatShort sps first start scaling s) :
    OnAir M convertFloatShort sps first start scaling s := by
  have hplace (i : Fin (n + 1)) {k : ℕ} (hk : k ≤ s.pushes.length) :
      (airInput (s.pushes.take k) i).length = slotPlace sps first k :=
    length_airInput h.slots (fun p hp => h.handed p hp i) hk
  have hall (i : Fin (n + 1)) :
      (airInput s.pushes i).length = slotPlace sps first s.pushes.length := by
    rw [← hplace i le_rfl, List.take_length]
  refine ⟨h.sent.stream.chunk, ⟨?_, ?_⟩, h.slots, fun k hk i tn htn => ?_,
    fun p hp i => (h.handed p hp i).served⟩
  · rw [← hall 0]
    exact h.sent.stream.sent_le
  · have hleft := h.sent.leftover
    rw [hall 0] at hleft
    rw [Nat.add_mul, Nat.one_mul]
    omega
  · obtain ⟨v, hv, hsize⟩ := (h.handed _ (List.getElem_mem hk) i).vector
    rw [h.slots k hk] at hsize
    refine ⟨v, hv, hsize, fun j hj hsent => ?_⟩
    have hlen := (h.handed _ (List.getElem_mem hk) i).length
    rw [h.slots k hk, ← hsize] at hlen
    have hzero := (h.handed _ (List.getElem_mem hk) i).zero tn (by rw [h.slots k hk, htn])
    have hget : (airInput s.pushes i)[slotPlace sps first k + j]? = some
        (if s.pushes[k].types i tn = ChannelCombination.NONE.code then 0 else v.sample j) := by
      simp only [← hzero]
      rw [← hplace i hk.le, ← getElem?_airSamples hv hj]
      exact getElem?_flatMap_place hk (hj.trans_eq hlen.symm)
    rw [Transmitter.air, h.sent.stream.sent i, List.getElem?_map, List.getElem?_take,
      if_pos hsent, hget, Option.map_some]

/-- **The schedule is on the air.**  In every run of datagrams, SETSLOT commands and turns of the
transmit loop, from a start with full filler tables, in which the device takes whole chunks and the
times in the queues stay in a window around the current slot: the device gets chunk after chunk,
each stamped with the place of its first sample; the samples of the slot pushed `k`-th are at the
place of that slot, four slots in a chunk, or silence if the slot has not been given a type; and if
a burst for the slot is queued, they are those of a datagram that has arrived for the slot on the
channel. -/
theorem on_air_run (f : FloatValues R) (cpu : ConvolveCpuContext R) (scale : ℤ → R)
    (convertFloatShort : ℚ → R × R → D) {t : Transceiver (n + 1) Q}
    {radio : RadioInterface n (R × R)} (ht : Initial t) (hradio : Started radio)
    (hsps : t.mSPSTx = 1 ∨ t.mSPSTx = 4)
    (hsame : radio.mSPSTx = t.mSPSTx)
    (hfull : ∀ i row tn, ∃ v, (t.mStates i).fillerTable row tn = some (some v) ∧
      v.size = SigProcLib.slotLen t.mSPSTx (tn.val : ℤ))
    (hfirst : t.mTransmitDeadlineClock.Valid) (events : List (TransmitterEvent n))
    (hok : ∀ e ∈ events, TransmitterOK t.mSPSTx e) :
    let M := sigProcModem (sigProcLibSetup f cpu) scale
    let s₀ : Transmitter n D Q := .start t radio
    Run.Along (transmitterStep M convertFloatShort) (AroundDeadline M) (some s₀) events →
      ∃ s, Run.exec (transmitterStep M convertFloatShort) (some s₀) events = some s ∧
        OnAir M convertFloatShort t.mSPSTx t.mTransmitDeadlineClock radio.writeTimestamp
          radio.powerScaling s ∧
        ∀ k, slotPlace t.mSPSTx t.mTransmitDeadlineClock (k + 4) =
          slotPlace t.mSPSTx t.mTransmitDeadlineClock k + CHUNK * t.mSPSTx := by
  intro M s₀ hwindow
  have hstart : Airs M convertFloatShort t.mSPSTx t.mTransmitDeadlineClock radio.writeTimestamp
      radio.powerScaling s₀ := by
    refine ⟨⟨⟨fun i b hb => ?_, fun i c => ?_⟩, inTable_of_initial ht, rfl⟩, fun i => ?_,
      fun i b hb => ?_, rfl, fun i => rfl, fun k hk => absurd hk (Nat.not_lt_zero k),
      fun p hp => absurd hp List.not_mem_nil, ?_⟩
    · change b ∈ Q.elems (t.mTxPriorityQueues i) at hb
      rw [ht.1 i, Q.elems_empty] at hb
      exact absurd hb (Multiset.notMem_zero b)
    · obtain ⟨v, hv, hsize⟩ := hfull i c.1 c.2
      exact ⟨some v, hv, v, rfl, hsize⟩
    · change Q.Ordered (t.mTxPriorityQueues i)
      rw [ht.1 i]
      exact Q.ordered_empty
    · change b ∈ Q.elems (t.mTxPriorityQueues i) at hb
      rw [ht.1 i, Q.elems_empty] at hb
      exact absurd hb (Multiset.notMem_zero b)
    · rw [← hsame]
      exact sent_start convertFloatShort hradio (by omega)
  have hinv : ∃ s, Run.exec (transmitterStep M convertFloatShort) (some s₀) events = some s ∧
      Airs M convertFloatShort t.mSPSTx t.mTransmitDeadlineClock radio.writeTimestamp
        radio.powerScaling s := by
    refine Run.invariant_exec (I := fun o => ∃ s, o = some s ∧ Airs M convertFloatShort t.mSPSTx
      t.mTransmitDeadlineClock radio.writeTimestamp radio.powerScaling s) ?_ ⟨s₀, rfl, hstart⟩
      (Run.along_and.mpr ⟨hwindow, Run.along_of_forall hok⟩)
    rintro _ e ⟨s, rfl, hs⟩ ⟨hw, hok⟩
    exact airs_step hsps hfirst hs hok hw
  obtain ⟨s, hexec, hs⟩ := hinv
  exact ⟨s, hexec, hs.onAir, slotPlace_add_four hsps hfirst⟩

/-- A channel at one sample a symbol, filled with zeros, half a frame before the end of the
hyperframe. -/
def lastHalfFrame : Transceiver 1 (listQueue (pointerCompare (V := Option (SignalVector ℤ)))) :=
  Transceiver.init 1 _ (fun _ _ tn => some (.new (SigProcLib.slotLen 1 (tn.val : ℤ))))
    .FILLER_DUMMY 1 ⟨6, 7⟩ ⟨2715647, 4⟩ false false

/-- Its radio interface. -/
def oneSender : RadioInterface 0 (ℤ × ℤ) :=
  let t : RadioInterface 0 (ℤ × ℤ) :=
    { mSPSTx := 1
      mSPSRx := 1
      receiveOffset := 3
      mOn := false
      mClock := ⟨2715647, 4⟩
      sendBuffer := fun _ => .new 0 0 0 true fun _ => 0
      recvBuffer := fun _ => .new 0 0 0 false fun _ => 0
      powerScaling := fun _ => 1
      mReceiveFIFO := fun _ => []
      underrun := false
      overrun := false
      writeTimestamp := 0
      readTimestamp := 0 }
  ((t.init (fun _ _ => 0) (fun _ _ => 0)).start ⟨true, 0, 0⟩).2

/-- The clock stands still, and the device takes a chunk. -/
def nextTurn (underrun : Bool) : TransmitterEvent 0 :=
  .turn ⟨2715647, 4⟩ false underrun ⟨6, 7⟩ fun _ => ⟨CHUNK, underrun⟩

/-- A datagram for the first slot of the hyperframe, the slots before it, and this slot. -/
def aroundHyperframe (chan : Fin 1) : List (TransmitterEvent 0) :=
  [nextTurn false, .datagram chan (datagramFor 0 0 0 0), nextTurn false, nextTurn true,
    .setSlot chan 0 ChannelCombination.V.code, nextTurn false, nextTurn false, nextTurn false]

theorem on_air_run_wrap :
    ∃ s, Run.exec (transmitterStep (sigProcModem (sigProcLibSetup noValues (convolveInit true))
        fun _ => 1) fun _ x => x.1)
        (some (.start lastHalfFrame oneSender)) (aroundHyperframe 0) = some s ∧
      OnAir (sigProcModem (sigProcLibSetup noValues (convolveInit true)) fun _ => 1)
        (fun _ x => x.1) 1 ⟨2715647, 4⟩ 0 (fun _ => 1) s ∧
      ∀ k, slotPlace 1 ⟨2715647, 4⟩ (k + 4) = slotPlace 1 ⟨2715647, 4⟩ k + CHUNK * 1 := by
  have hframe : (wireFrame (datagramFor 0 0 0 0) : ℤ) < gHyperframe := by decide
  refine on_air_run noValues (convolveInit true) (fun _ => 1) (fun _ x => x.1)
    (initial_init _ _ _ _ _ _ _) (started_start rfl rfl) (.inl rfl) rfl (fun i row tn => ?_)
    (by decide) (aroundHyperframe 0) (fun e he => ?_) (by decide +kernel)
  · fin_cases i
    exact ⟨_, rfl, rfl⟩
  · fin_cases he <;> first | exact fun _ _ => hframe | exact fun _ => rfl | trivial

end Trx
end OsmoTrx
