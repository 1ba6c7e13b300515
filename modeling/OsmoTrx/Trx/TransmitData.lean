import OsmoTrx.Trx.Downlink
import OsmoTrx.Lib.Bytes

/-!
# Transmit data bursts

The datagrams of the GSM core on a data socket, as the README describes them: a timeslot, a frame
number, an attenuation and the bits of a burst.  What `driveTxPriorityQueue` makes of a datagram
is compared with what its fields say, down to the symbols that the modulators of `sigProcLib.cpp`
derive from the bits.

* `bipolar`, `phase`, `modulateBurst`, `mapEdgeSymbols` — the symbols, which depend on the low bits
  only.
* `TransmitData` — the fields of a datagram, and the burst that they describe.
* `driveTxPriorityQueue_eq` — what the code does with a datagram of an accepted length.
* `decodes_iff` — **when the code follows the format**: if the length is accepted, the timeslot and
  the frame number have to be valid, and the level has to be zero, or, were the scale one of power,
  a multiple of ten below 128.
-/

namespace OsmoTrx
namespace Trx

open GSM VectorQueue

variable {n : ℕ}

/-! ## Symbols -/

/-- `2.0 * (bit & 0x01) - 1.0`. -/
def bipolar (bit : UInt8) : ℤ := 2 * (bit &&& 1).toNat - 1

/-- `2.0 * ((bit & 0x01) ^ (previous & 0x01)) - 1.0`. -/
def phase (bit previous : UInt8) : ℤ := 2 * ((bit &&& 1) ^^^ (previous &&& 1)).toNat - 1

/-- A burst before rotation and pulse shaping: the two pulse streams of `modulateBurstLaurent`,
the symbols of `modulateBurstBasic`, or the indices into `psk8_table` of `modulateEdgeBurst`. -/
inductive Waveform
  | laurent (c0 c1 : List ℤ)
  | basic (c0 : List ℤ) (guard_len : ℤ) (sps : ℕ)
  | edge (indices : List ℕ)
  deriving DecidableEq, Repr

/-- `modulateBurst`.  The second stream starts with a phase of its own and has one more for each
pair of neighbouring bits. -/
def modulateBurst (bits : List UInt8) (guard_len : ℤ) (sps : ℕ) : Waveform :=
  if sps = 4 then
    .laurent (bipolar 0 :: (bits.map bipolar ++ [bipolar 0]))
      (phase 1 1 :: List.zipWith phase bits.tail bits)
  else .basic (bits.map bipolar) guard_len sps

/-- `mapEdgeSymbols`: three bits to a symbol. -/
def mapEdgeSymbols (bits : List UInt8) : List ℕ :=
  let bit (i : ℕ) : ℕ := (bits.getD i 0 &&& 1).toNat
  (List.range (bits.length / 3)).map fun i =>
    bit (3 * i) <<< 0 ||| bit (3 * i + 1) <<< 1 ||| bit (3 * i + 2) <<< 2

/-- The modulators, with the decimal logarithm of the scale that is applied to the burst. -/
def symbolModem : Modem (Waveform × ℚ) where
  modulateEdgeBurst bits _ := (.edge (mapEdgeSymbols bits), 0)
  modulateBurst bits guard_len sps := (modulateBurst bits guard_len sps, 0)
  scaleVector burst e := (burst.1, burst.2 + e)

/-- The low bits of bytes. -/
def lowBits (bytes : List UInt8) : List UInt8 := bytes.map (· &&& 1)

@[simp] theorem and_one_and_one (b : UInt8) : b &&& 1 &&& 1 = b &&& 1 := by
  rw [UInt8.and_assoc, UInt8.and_self]

@[simp] theorem bipolar_and_one (b : UInt8) : bipolar (b &&& 1) = bipolar b := by
  rw [bipolar, and_one_and_one, bipolar]

@[simp] theorem phase_and_one (a b : UInt8) : phase (a &&& 1) (b &&& 1) = phase a b := by
  rw [phase, and_one_and_one, and_one_and_one, phase]

@[simp] theorem length_lowBits (bytes : List UInt8) : (lowBits bytes).length = bytes.length := by
  simp [lowBits]

/-- The modulators read the low bits only. -/
theorem modulateBurst_lowBits (bits : List UInt8) (guard_len : ℤ) (sps : ℕ) :
    modulateBurst (lowBits bits) guard_len sps = modulateBurst bits guard_len sps := by
  have hsymbols : (lowBits bits).map bipolar = bits.map bipolar := by
    simp [lowBits, Function.comp_def]
  have hphases : List.zipWith phase (lowBits bits).tail (lowBits bits) =
      List.zipWith phase bits.tail bits := by
    simp only [lowBits, ← List.map_tail, List.zipWith_map, phase_and_one]
  rw [modulateBurst, modulateBurst, hsymbols, hphases]

theorem mapEdgeSymbols_lowBits (bits : List UInt8) :
    mapEdgeSymbols (lowBits bits) = mapEdgeSymbols bits := by
  have hbit (i : ℕ) : (lowBits bits).getD i 0 &&& 1 = bits.getD i 0 &&& 1 := by
    simp only [lowBits, List.getD_eq_getElem?_getD, List.getElem?_map]
    cases bits[i]? <;> simp
  simp only [mapEdgeSymbols, length_lowBits, hbit]

/-! ## The format -/

/-- The fields of a datagram: the timeslot, the frame number, the level, which is an attenuation,
and the output symbol values. -/
structure TransmitData where
  timeslot : ℕ
  frame : ℕ
  level : ℕ
  symbols : List UInt8

namespace TransmitData

/-- The layout: 1 byte timeslot, 4 bytes frame number, 1 byte level, symbols. -/
def ofMessage (msg : List UInt8) : TransmitData where
  timeslot := (msg.getD 0 0).toNat
  frame := ofBytes ((msg.drop 1).take 4)
  level := (msg.getD 5 0).toNat
  symbols := lowBits (msg.drop 6)

/-- The timeslot and the frame number are those of a GSM time. -/
def Valid (d : TransmitData) : Prop := d.timeslot ≤ 7 ∧ (d.frame : ℤ) < gHyperframe

instance (d : TransmitData) : Decidable d.Valid := inferInstanceAs (Decidable (_ ∧ _))

/-- The waveform for the symbols. -/
def waveform (d : TransmitData) (sps : ℕ) : Waveform :=
  if d.symbols.length = EDGE_BURST_NBITS then .edge (mapEdgeSymbols d.symbols)
  else modulateBurst d.symbols (8 + if d.timeslot % 4 = 0 then 1 else 0) sps

/-- The decimal logarithm of the scale for the level, an attenuation in decibels of which `decade`
make a factor of ten. -/
def attenuation (d : TransmitData) (decade : ℕ) : ℚ := -d.level / decade

/-- The burst that a datagram describes. -/
def burst (d : TransmitData) (decade sps : ℕ) : RadioVector (Waveform × ℚ) :=
  ⟨⟨d.frame, d.timeslot⟩, some (d.waveform sps, d.attenuation decade)⟩

end TransmitData

/-- `write` on a queue of bursts. -/
def Transceiver.queueBurst {V : Type} {Q : BurstQueue V} (t : Transceiver n Q) (chan : Fin n)
    (burst : RadioVector V) : Transceiver n Q :=
  { t with
    mTxPriorityQueues := Function.update t.mTxPriorityQueues chan
      (Q.push (t.mTxPriorityQueues chan) burst) }

variable {Q : BurstQueue (Waveform × ℚ)}

/-- The datagram has the length of a burst for this transceiver, and its time is valid. -/
def Accepted (t : Transceiver n Q) (msg : List UInt8) : Prop :=
  acceptsLength t.mSPSTx msg.length = true ∧ (TransmitData.ofMessage msg).Valid

instance (t : Transceiver n Q) (msg : List UInt8) : Decidable (Accepted t msg) :=
  inferInstanceAs (Decidable (_ ∧ _))

/-- **A datagram is decoded by the format**: the burst that it describes is queued if it is
accepted and none otherwise, the answer says whether one was, and no burst that is queued is
scaled above full scale.  The samples are multiplied by the scale, as those of all bursts are by
that of `setPowerAttenuation`, and 20 decibels make a factor of ten of it; of a power 10 do. -/
structure Decodes (decade : ℕ) (t : Transceiver n Q) (chan : Fin n) (msg : List UInt8) : Prop where
  queued : Accepted t msg → (driveTxPriorityQueue symbolModem t chan msg).2 =
    t.queueBurst chan ((TransmitData.ofMessage msg).burst decade t.mSPSTx)
  dropped : ¬ Accepted t msg → (driveTxPriorityQueue symbolModem t chan msg).2 = t
  answer : (driveTxPriorityQueue symbolModem t chan msg).1 = true ↔
    Q.size ((driveTxPriorityQueue symbolModem t chan msg).2.mTxPriorityQueues chan) =
      Q.size (t.mTxPriorityQueues chan) + 1
  fullScale : ∀ b ∈ Q.elems
      ((driveTxPriorityQueue symbolModem t chan msg).2.mTxPriorityQueues chan),
    b ∈ Q.elems (t.mTxPriorityQueues chan) ∨ ∀ v ∈ b.vector, v.2 ≤ 0

/-! ## The code -/

@[simp] theorem queueBurst_size {t : Transceiver n Q} {chan : Fin n}
    {b : RadioVector (Waveform × ℚ)} :
    Q.size ((t.queueBurst chan b).mTxPriorityQueues chan) =
      Q.size (t.mTxPriorityQueues chan) + 1 := by
  simp [Transceiver.queueBurst, Q.size_eq, Q.elems_push]

/-- Queueing different bursts makes a difference. -/
theorem queueBurst_injective {t : Transceiver n Q} {chan : Fin n}
    {b c : RadioVector (Waveform × ℚ)} (h : t.queueBurst chan b = t.queueBurst chan c) : b = c := by
  have helems := congrArg (fun t => Q.elems (Transceiver.mTxPriorityQueues t chan)) h
  simp only [Transceiver.queueBurst, Function.update_self, Q.elems_push] at helems
  exact (Multiset.cons_inj_left _).mp helems

/-- The bytes 0 to 127 are the same as characters, the others are negative. -/
theorem schar_cases (b : UInt8) :
    (b.toNat < 128 ∧ schar b = b.toNat) ∨ (128 ≤ b.toNat ∧ schar b = b.toNat - 256) := by
  rw [schar]
  split_ifs with h
  · exact .inl ⟨h, rfl⟩
  · exact .inr ⟨not_lt.mp h, rfl⟩

/-- The accepted lengths: those of a normal burst, and of an EDGE burst at 4 samples a symbol. -/
theorem acceptsLength_iff {sps k : ℕ} :
    acceptsLength sps k = true ↔ k = 154 ∨ k = 450 ∧ sps = 4 := by
  simp only [acceptsLength, Bool.or_eq_true, Bool.and_eq_true, decide_eq_true_eq]
  simp only [EDGE_BURST_NBITS, gSlotLen]

/-- What does not fit the buffer has none of them. -/
theorem acceptsLength_take (sps : ℕ) (msg : List UInt8) :
    acceptsLength sps (msg.take (EDGE_BURST_NBITS + 50)).length = acceptsLength sps msg.length := by
  rw [Bool.eq_iff_iff, acceptsLength_iff, acceptsLength_iff, List.length_take, EDGE_BURST_NBITS]
  omega

/-- The timeslot of the time of a datagram. -/
theorem wireTime_TN (msg : List UInt8) :
    ((TransmitData.ofMessage msg).timeslot ≤ 7 ∧
      (wireTime msg).mTN = (TransmitData.ofMessage msg).timeslot ∧
      (wireTime msg).TN = (TransmitData.ofMessage msg).timeslot) ∨
    (7 < (TransmitData.ofMessage msg).timeslot ∧ 7 < (wireTime msg).TN) := by
  have hlt := (msg.getD 0 0).toNat_lt
  simp only [wireTime, TransmitData.ofMessage, Time.TN, u32]
  rcases schar_cases (msg.getD 0 0) with ⟨hsmall, hchar⟩ | ⟨hlarge, hchar⟩ <;> rw [hchar] <;> omega

/-- **What the code does with a datagram of an accepted length**: it answers `true`, and queues a
burst if the timeslot is at most 7, whose frame number is an `int` and whose level a `char`. -/
theorem driveTxPriorityQueue_eq {t : Transceiver n Q} {msg : List UInt8}
    (h : acceptsLength t.mSPSTx msg.length = true) (chan : Fin n) :
    let d := TransmitData.ofMessage msg
    driveTxPriorityQueue symbolModem t chan msg = (true,
      if d.timeslot ≤ 7 then
        t.queueBurst chan ⟨⟨i32 d.frame, d.timeslot⟩,
          some (d.waveform t.mSPSTx, ((-schar (msg.getD 5 0)).tdiv 10 : ℤ))⟩
      else t) := by
  intro d
  have hbuffer : msg.take (EDGE_BURST_NBITS + 50) = msg := by
    rcases acceptsLength_iff.mp h with hlen | ⟨hlen, -⟩ <;>
      exact List.take_of_length_le (by rw [hlen, EDGE_BURST_NBITS]; omega)
  rw [driveTxPriorityQueue, hbuffer, if_pos h]
  congr 1
  have hsymbols : d.waveform t.mSPSTx =
      if (msg.drop 6).length = EDGE_BURST_NBITS then .edge (mapEdgeSymbols (msg.drop 6))
      else modulateBurst (msg.drop 6) (8 + if d.timeslot % 4 = 0 then 1 else 0) t.mSPSTx := by
    rw [TransmitData.waveform]
    simp only [d, TransmitData.ofMessage, length_lowBits, mapEdgeSymbols_lowBits,
      modulateBurst_lowBits]
  rcases wireTime_TN msg with ⟨htn, hmTN, hTN⟩ | ⟨htn, hTN⟩
  · have hguard : (wireTime msg).TN % 4 = 0 ↔ d.timeslot % 4 = 0 := by
      change (wireTime msg).TN = d.timeslot at hTN
      omega
    have htime : wireTime msg = ⟨i32 d.frame, d.timeslot⟩ := by
      rw [← hmTN]
      rfl
    rw [addRadioVector, if_neg (by omega), if_pos htn, hsymbols]
    simp only [hguard, Transceiver.queueBurst, symbolModem]
    rw [htime]
    split_ifs <;> simp only [zero_add]
  · rw [addRadioVector, if_pos hTN, if_neg (not_le.mpr htn)]

/-- The exponent of the scale that the code computes for a level. -/
theorem exponent_cases (b : UInt8) :
    (b.toNat < 128 ∧ (-schar b).tdiv 10 = -(b.toNat / 10 : ℤ)) ∨
      (128 ≤ b.toNat ∧ (-schar b).tdiv 10 = (256 - b.toNat : ℤ) / 10) := by
  have hlt := b.toNat_lt
  rcases schar_cases b with ⟨hsmall, hchar⟩ | ⟨hlarge, hchar⟩
  · refine .inl ⟨hsmall, ?_⟩
    rw [hchar, Int.neg_tdiv, Int.tdiv_eq_ediv_of_nonneg (by omega)]
  · refine .inr ⟨hlarge, ?_⟩
    rw [hchar, neg_sub, Int.tdiv_eq_ediv_of_nonneg (by omega)]

/-- A level is attenuated by as much as it says, without remainder or change of sign. -/
def Attenuated (b : UInt8) (decade : ℕ) : Prop :=
  (((-schar b).tdiv 10 : ℤ) : ℚ) = -b.toNat / decade

theorem attenuated_iff_mul (b : UInt8) {decade : ℕ} (hpos : 0 < decade) :
    Attenuated b decade ↔ (-schar b).tdiv 10 * decade = -(b.toNat : ℤ) := by
  have hne : (decade : ℚ) ≠ 0 := by positivity
  rw [Attenuated, eq_div_iff hne]
  exact_mod_cast Iff.rfl

/-- As an amplitude: no level but zero, since the exponent is a tenth of the level and not a
twentieth. -/
theorem attenuated_amplitude_iff (b : UInt8) : Attenuated b 20 ↔ b.toNat = 0 := by
  have hlt := b.toNat_lt
  rw [attenuated_iff_mul b (by decide)]
  rcases exponent_cases b with ⟨hsmall, hexp⟩ | ⟨hlarge, hexp⟩
  · rw [hexp]
    omega
  · rw [hexp]
    omega

/-- As a power: the levels that are multiples of ten and not negative as characters. -/
theorem attenuated_power_iff (b : UInt8) :
    Attenuated b 10 ↔ b.toNat < 128 ∧ b.toNat % 10 = 0 := by
  have hlt := b.toNat_lt
  rw [attenuated_iff_mul b (by decide)]
  rcases exponent_cases b with ⟨hsmall, hexp⟩ | ⟨hlarge, hexp⟩
  · rw [hexp]
    omega
  · rw [hexp]
    omega

/-- The case in which a burst is queued. -/
theorem decodes_iff_of_queued {decade : ℕ} {t : Transceiver n Q} {chan : Fin n} {msg : List UInt8}
    (hlen : acceptsLength t.mSPSTx msg.length = true)
    (htn : (TransmitData.ofMessage msg).timeslot ≤ 7) :
    Decodes decade t chan msg ↔
      (TransmitData.ofMessage msg).Valid ∧ Attenuated (msg.getD 5 0) decade := by
  have hcode := driveTxPriorityQueue_eq hlen chan
  simp only [if_pos htn] at hcode
  constructor
  · intro h
    -- a burst was queued, so the datagram is an accepted one
    have hacc : Accepted t msg := by
      by_contra hacc
      have hsize := congrArg (fun t => Q.size (Transceiver.mTxPriorityQueues t chan))
        (h.dropped hacc)
      simp [hcode] at hsize
    have hburst := h.queued hacc
    rw [hcode] at hburst
    have heq := queueBurst_injective hburst
    simp only [TransmitData.burst, RadioVector.mk.injEq, Option.some.injEq, Prod.mk.injEq] at heq
    exact ⟨hacc.2, heq.2.2⟩
  · rintro ⟨hvalid, hlevel⟩
    have hframe : i32 (TransmitData.ofMessage msg).frame = (TransmitData.ofMessage msg).frame :=
      i32_eq_self (by omega) (by have := hvalid.2; rw [gHyperframe_eq] at this; omega)
    have hqueued : driveTxPriorityQueue symbolModem t chan msg =
        (true, t.queueBurst chan ((TransmitData.ofMessage msg).burst decade t.mSPSTx)) := by
      rw [hcode, hframe, show (((-schar (msg.getD 5 0)).tdiv 10 : ℤ) : ℚ) = _ from hlevel]
      rfl
    exact
      { queued := fun _ => by rw [hqueued]
        dropped := fun h => absurd ⟨hlen, hvalid⟩ h
        answer := by simp [hqueued]
        fullScale := fun b hb => by
          rw [hqueued] at hb
          simp only [Transceiver.queueBurst, Function.update_self, Q.elems_push] at hb
          refine (Multiset.mem_cons.mp hb).symm.imp_right ?_
          rintro rfl v hv
          cases hv
          exact div_nonpos_of_nonpos_of_nonneg (neg_nonpos.mpr (Nat.cast_nonneg _))
            (Nat.cast_nonneg _) }

/-- A datagram is decoded by the format if, as far as its length is accepted, its time is valid and
its level is attenuated by as much as it says. -/
theorem decodes_iff_attenuated (decade : ℕ) (t : Transceiver n Q) (chan : Fin n)
    (msg : List UInt8) :
    Decodes decade t chan msg ↔ (acceptsLength t.mSPSTx msg.length = true →
      (TransmitData.ofMessage msg).Valid ∧ Attenuated (msg.getD 5 0) decade) := by
  by_cases hlen : acceptsLength t.mSPSTx msg.length = true
  · simp only [hlen, forall_const]
    by_cases htn : (TransmitData.ofMessage msg).timeslot ≤ 7
    · exact decodes_iff_of_queued hlen htn
    · -- the burst is dropped, but the answer is `true`
      have hcode := driveTxPriorityQueue_eq hlen chan
      simp only [if_neg htn] at hcode
      refine iff_of_false (fun h => ?_) fun h => htn h.1.1
      have hanswer := h.answer.mp (by rw [hcode])
      simp only [hcode] at hanswer
      omega
  · have hcode : driveTxPriorityQueue symbolModem t chan msg = (false, t) := by
      rw [driveTxPriorityQueue, acceptsLength_take, if_neg hlen]
    refine iff_of_true ?_ fun h => absurd h hlen
    exact
      { queued := fun h => absurd h.1 hlen
        dropped := fun _ => by rw [hcode]
        answer := by simp [hcode]
        fullScale := fun b hb => .inl (by rwa [hcode] at hb) }

/-- **When a datagram is decoded by the format**, with the level as the attenuation of the
amplitude that it scales, or as one of power. -/
theorem decodes_iff (t : Transceiver n Q) (chan : Fin n) (msg : List UInt8) :
    (Decodes 20 t chan msg ↔ (acceptsLength t.mSPSTx msg.length = true →
      (TransmitData.ofMessage msg).Valid ∧ (TransmitData.ofMessage msg).level = 0)) ∧
    (Decodes 10 t chan msg ↔ (acceptsLength t.mSPSTx msg.length = true →
      (TransmitData.ofMessage msg).Valid ∧ (TransmitData.ofMessage msg).level < 128 ∧
        (TransmitData.ofMessage msg).level % 10 = 0)) := by
  constructor
  · rw [decodes_iff_attenuated, attenuated_amplitude_iff]
    rfl
  · rw [decodes_iff_attenuated, attenuated_power_iff]
    rfl

/-- A transceiver with one channel. -/
def symbolTrx : Transceiver 1 (listQueue (pointerCompare (V := Waveform × ℚ))) :=
  Transceiver.init 1 _ (fun _ _ _ => (.edge [], 0)) .FILLER_ZERO 1 ⟨0, 0⟩ ⟨0, 0⟩ false false

/-- The datagram of a normal burst for a timeslot, the first frame number byte, and a level. -/
def messageFor (timeslot frame level : UInt8) : List UInt8 :=
  [timeslot, frame, 0, 0, 0, level] ++ List.replicate 148 0

/-- A datagram that is not decoded by the format, whichever the scale is. -/
def Misread (chan : Fin 1) (msg : List UInt8) : Prop :=
  ¬ Decodes 20 symbolTrx chan msg ∧ ¬ Decodes 10 symbolTrx chan msg

/-- A normal burst is misread if its time is not valid, or if it has another level than one of those
that a power would be attenuated by. -/
theorem misread_messageFor (chan : Fin 1) {timeslot frame level : UInt8}
    (h : ¬ ((TransmitData.ofMessage (messageFor timeslot frame level)).Valid ∧
      level.toNat < 128 ∧ level.toNat % 10 = 0)) :
    Misread chan (messageFor timeslot frame level) := by
  have hlen : acceptsLength symbolTrx.mSPSTx (messageFor timeslot frame level).length = true := by
    rw [messageFor, List.length_append, List.length_replicate]
    exact acceptsLength_iff.mpr (.inl rfl)
  constructor
  · intro hdec
    obtain ⟨hvalid, hatt⟩ := (decodes_iff_attenuated _ _ _ _).mp hdec hlen
    have hzero : level.toNat = 0 := (attenuated_amplitude_iff level).mp hatt
    exact h ⟨hvalid, by omega, by omega⟩
  · intro hdec
    obtain ⟨hvalid, hatt⟩ := (decodes_iff_attenuated _ _ _ _).mp hdec hlen
    exact h ⟨hvalid, (attenuated_power_iff level).mp hatt⟩

/-- A timeslot of 9 is answered as a burst that is queued, frame number `0x01000000` is queued,
level 9 is no attenuation and level 200 an amplification by five powers of ten. -/
theorem datagrams_misread : Misread 0 (messageFor 9 0 0) ∧ Misread 0 (messageFor 0 1 0) ∧
    Misread 0 (messageFor 0 0 9) ∧ Misread 0 (messageFor 0 0 200) ∧
    ∃ w, driveTxPriorityQueue symbolModem symbolTrx 0 (messageFor 0 0 200) =
      (true, symbolTrx.queueBurst 0 ⟨⟨0, 0⟩, some (w, 5)⟩) := by
  refine ⟨misread_messageFor 0 fun h => ?_, misread_messageFor 0 fun h => ?_,
    misread_messageFor 0 (by decide), misread_messageFor 0 (by decide), ?_⟩
  · exact absurd h.1 (by decide +kernel)
  · exact absurd h.1 (by decide +kernel)
  · have hlen : acceptsLength symbolTrx.mSPSTx (messageFor 0 0 200).length = true := by
      decide +kernel
    have hcode := driveTxPriorityQueue_eq hlen 0
    have hexp : (-schar ((messageFor 0 0 200).getD 5 0)).tdiv 10 = 5 := by decide +kernel
    have hslot : (TransmitData.ofMessage (messageFor 0 0 200)).timeslot = 0 := by decide +kernel
    have hframe : i32 (TransmitData.ofMessage (messageFor 0 0 200)).frame = 0 := by
      decide +kernel
    rw [hcode, hexp, hslot, hframe, if_pos (by decide)]
    rw [Nat.cast_zero, Int.cast_ofNat]
    exact ⟨_, rfl⟩

end Trx
end OsmoTrx
