import OsmoTrx.Trx.Filler
import OsmoTrx.Trx.SigProcLib

/-!
# The length of transmitted bursts

A burst is modulated for the timeslot that its datagram names, and used for a slot with that
timeslot: when its own slot is pushed, or later, from the cell of the filler table in which it was
stored.

* `Slotted` — a property of timeslots and vectors that every queued burst has, and every cell of
  the filler tables; `slotted_step` keeps it.
* `sigProcModem` — the modulators of `sigProcLib.cpp`.
* `burst_lengths` — **every vector that is handed over has the length of its slot.**
-/

namespace OsmoTrx
namespace Trx

open Dsp GSM VectorQueue

variable {n : ℕ} {V : Type} {Q : BurstQueue V}

/-! ## Timeslots -/

/-- The burst has a vector, which has the property for its timeslot. -/
def SlottedBurst (P : ℤ → V → Prop) (b : RadioVector V) : Prop :=
  ∃ v, b.vector = some v ∧ P b.mTime.TN v

/-- Every cell of the table has a vector, which has the property for its timeslot. -/
def SlottedTable (P : ℤ → V → Prop) (s : TransceiverState V) : Prop :=
  ∀ c, ∃ v, s.cell c = some v ∧ P (c.2.val : ℤ) v

/-- The property holds of all queued bursts and all cells. -/
structure Slotted (P : ℤ → V → Prop) (t : Transceiver n Q) : Prop where
  queued : ∀ i, ∀ b ∈ Q.elems (t.mTxPriorityQueues i), SlottedBurst P b
  table : ∀ i, SlottedTable P (t.mStates i)

variable {P : ℤ → V → Prop}

/-- Storing bursts in their cells keeps the property. -/
theorem SlottedTable.retains {s s' : TransceiverState V} {popped : List (RadioVector V)}
    (hs : SlottedTable P s) (h : Retains popped s s') (hpopped : ∀ b ∈ popped, SlottedBurst P b) :
    SlottedTable P s' := by
  intro c
  rw [h.cell]
  by_cases hre : s.mRetrans = true
  · rw [if_pos hre, Mem.writes_apply]
    cases hlast : (popped.filter fun b => burstCell s.fillerModulus b = some c).getLast? with
    | none => exact hs c
    | some b =>
      -- the last burst stored in the cell has the timeslot of the cell
      obtain ⟨hb, hcell⟩ := List.mem_filter.mp (List.mem_of_getLast? hlast)
      obtain ⟨v, hv, hP⟩ := hpopped b hb
      obtain ⟨tn, -, hcell⟩ := Option.bind_eq_some_iff.mp (of_decide_eq_true hcell)
      rw [(fillerCell_eq_some_iff.mp hcell).2] at hP
      exact ⟨v, hv, hP⟩
  · rw [if_neg hre]
    exact hs c

/-- The bursts that a push pops were in the queue. -/
theorem PushSpec.popped_mem {nowTime : Time} {state : TransceiverState V} {queue mid : Q.Carrier}
    {p : Pushed Q} (h : PushSpec nowTime state queue p mid) :
    ∀ b ∈ p.popped, b ∈ Q.elems queue := by
  intro b hb
  rw [h.elems]
  rcases List.mem_append.mp hb with hstale | hcurrent
  · exact Multiset.mem_add.mpr (.inl hstale)
  · rcases h.current with ⟨hnone, -⟩ | ⟨b', hb', htop, -⟩
    · rw [hnone] at hcurrent
      cases hcurrent
    · rw [hb', Option.toList_some, List.mem_singleton] at hcurrent
      rw [hcurrent]
      exact Multiset.mem_add.mpr (.inr (Q.mem_of_top htop))

/-- **A push** hands over vectors that have the property for the slot, and keeps it. -/
theorem Slotted.push {t : Transceiver n Q} (h : Slotted P t) (hin : InTable t) {now : Time}
    (hnow : now.Valid) :
    ∃ t' p, pushRadioVector t now = some (t', p) ∧ Slotted P t' ∧ t'.mSPSTx = t.mSPSTx ∧
      ∀ i, ∃ v, (p i).burst = some v ∧ P now.mTN v := by
  obtain ⟨p, mid, hpush, hspec⟩ := pushRadioVector_spec hnow hin.modulus hin.storable
  have hTN : now.TN = now.mTN :=
    u32_eq_self (by have := hnow.2.1; omega) (by have := hnow.2.2; omega)
  have htable (i : Fin n) : SlottedTable P (p i).state :=
    (h.table i).retains (pushChannel_retains ((pushRadioVector_eq_some hpush).1 i)).1
      fun b hb => h.queued i b ((hspec i).popped_mem b hb)
  refine ⟨_, p, hpush, ⟨fun i b hb => h.queued i b ((hspec i).queue_subset hb), htable⟩, rfl,
    fun i => ?_⟩
  rcases (pushChannel_retains ((pushRadioVector_eq_some hpush).1 i)).2 with
    ⟨b, hb, hburst⟩ | ⟨-, c, hc, hburst⟩
  · -- a burst for this slot
    rcases (hspec i).current with ⟨hnone, -⟩ | ⟨b', hb', htop, htime, -, hburst'⟩
    · rw [hnone] at hb
      cases hb
    · have hmem : b' ∈ Q.elems (t.mTxPriorityQueues i) := by
        rw [(hspec i).elems]
        exact Multiset.mem_add.mpr (.inr (Q.mem_of_top htop))
      obtain ⟨v, hv, hP⟩ := h.queued i b' hmem
      rw [htime, hTN] at hP
      exact ⟨v, hburst'.trans hv, hP⟩
  · -- the cell of the slot
    obtain ⟨tn, -, hcell⟩ := Option.bind_eq_some_iff.mp hc
    obtain ⟨v, hv, hP⟩ := htable i c
    rw [← (fillerCell_eq_some_iff.mp hcell).2, hTN] at hP
    exact ⟨v, hburst.trans hv, hP⟩

/-- A burst that is queued for its timeslot. -/
theorem Slotted.addRadioVector {M : Modem V} {t : Transceiver n Q} (h : Slotted P t) (chan : Fin n)
    {bits : List UInt8} (RSSI : ℤ) {wTime : Time}
    (hP : wTime.TN ≤ 7 → P wTime.TN (M.scaleVector
      (if bits.length = EDGE_BURST_NBITS then M.modulateEdgeBurst bits t.mSPSTx
        else M.modulateBurst bits (8 + if wTime.TN % 4 = 0 then 1 else 0) t.mSPSTx)
      ((-RSSI).tdiv 10))) :
    Slotted P (Trx.addRadioVector M t chan bits RSSI wTime) := by
  unfold Trx.addRadioVector
  by_cases htn : wTime.TN > 7
  · rwa [if_pos htn]
  · rw [if_neg htn]
    refine ⟨fun i b hb => ?_, h.table⟩
    by_cases hi : i = chan
    · subst hi
      simp only [Function.update_self, Q.elems_push] at hb
      rcases Multiset.mem_cons.mp hb with rfl | hb
      · exact ⟨_, rfl, hP (not_lt.mp htn)⟩
      · exact h.queued i b hb
    · simp only [Function.update_of_ne hi] at hb
      exact h.queued i b hb

/-- Setting the type of a slot leaves queues and tables alone. -/
theorem Slotted.setSlot {t : Transceiver n Q} (h : Slotted P t) (chan : Fin n) (ts : Fin 8)
    (code : ℤ) : Slotted P (t.updateState chan ((t.mStates chan).setSlot ts code)) := by
  refine ⟨h.queued, fun i => ?_⟩
  rw [Transceiver.updateState_mStates]
  by_cases hi : i = chan
  · subst hi
    intro c
    rw [Function.update_self, TransceiverState.cell, TransceiverState.setSlot_fillerTable]
    exact h.table i c
  · rw [Function.update_of_ne hi]
    exact h.table i

/-! ## The modulators -/

variable {R : Type} [CommRing R]

/-- The modulators of the library; `none` where they return no vector.  A burst is scaled by
`txFullScale * 10 ^ e`, which is `scale e`. -/
def sigProcModem (s : SigProcLib R) (scale : ℤ → R) : Modem (Option (SignalVector R)) where
  modulateEdgeBurst bits sps := (s.modulateEdgeBurst bits sps false).join
  modulateBurst bits guard sps := (s.modulateBurst bits guard sps false).join
  scaleVector burst e := burst.map fun v => Dsp.scaleVector v (scale e, 0)

/-- There is a vector, and it has the length of a slot. -/
def SlotSized (sps : ℕ) (tn : ℤ) (burst : Option (SignalVector R)) : Prop :=
  ∃ v, burst = some v ∧ v.size = SigProcLib.slotLen sps tn

/-- The bits of a datagram of an accepted length make a burst of the length of a slot, scaled or
not. -/
theorem slotSized_burst (f : FloatValues R) (cpu : ConvolveCpuContext R) (scale : ℤ → R) {sps : ℕ}
    (hsps : sps = 1 ∨ sps = 4) {bits : List UInt8}
    (hacc : acceptsLength sps (bits.length + 6) = true) (tn e : ℤ) :
    let M := sigProcModem (sigProcLibSetup f cpu) scale
    SlotSized sps tn (M.scaleVector
      (if bits.length = EDGE_BURST_NBITS then M.modulateEdgeBurst bits sps
        else M.modulateBurst bits (8 + if tn % 4 = 0 then 1 else 0) sps) e) := by
  intro M
  rcases acceptsLength_iff.mp hacc with hnormal | ⟨hedge, rfl⟩
  · have hlen : bits.length = 148 := by omega
    have hslot : (bits.length : ℤ) + (8 + if tn % 4 = 0 then 1 else 0) =
        156 + if tn % 4 = 0 then 1 else 0 := by
      rw [hlen]
      push_cast
      ring
    obtain ⟨v, hv, hsize⟩ := (SigProcLib.modulateBurst_makes_iff f cpu hsps
      (by split_ifs <;> norm_num) hslot).mpr fun _ => by omega
    refine ⟨Dsp.scaleVector v (scale e, 0), ?_, hsize⟩
    rw [if_neg (by rw [hlen]; decide)]
    simp only [M, sigProcModem, hv, Option.join_some, Option.map_some]
  · have hlen : bits.length = EDGE_BURST_NBITS := by rw [EDGE_BURST_NBITS]; omega
    have hthree : bits.length % 3 = 0 := by rw [hlen]; decide
    obtain ⟨v, hv, hsize⟩ := SigProcLib.modulateEdgeBurst_makes f cpu hthree
    refine ⟨Dsp.scaleVector v (scale e, 0), ?_, hsize⟩
    rw [if_pos hlen]
    simp only [M, sigProcModem, hv, Option.join_some, Option.map_some]

/-! ## Runs -/

/-- A datagram has a valid frame number, and a slot that is pushed is one. -/
def DownlinkOK : Event n → Prop
  | .datagram _ msg => (wireFrame msg : ℤ) < gHyperframe
  | .setSlot _ _ _ => True
  | .push now => now.Valid

instance : ∀ e : Event n, Decidable (DownlinkOK e)
  | .datagram _ msg => inferInstanceAs (Decidable ((wireFrame msg : ℤ) < gHyperframe))
  | .setSlot _ _ _ => .isTrue trivial
  | .push now => inferInstanceAs (Decidable now.Valid)

/-- A push hands over, on every channel, a vector of the length of the slot. -/
def HandsSlots {Q : BurstQueue (Option (SignalVector R))} (sps : ℕ) :
    Option (Transceiver n Q) → Event n → Prop
  | some t, .push now => ∃ t' p, pushRadioVector t now = some (t', p) ∧
      ∀ i, ∃ v, (p i).burst = some (some v) ∧ v.size = SigProcLib.slotLen sps now.mTN
  | _, _ => True

/-- The invariant of a run at `sps` samples a symbol. -/
structure LengthsKept {Q : BurstQueue (Option (SignalVector R))} (sps : ℕ) (t : Transceiver n Q) :
    Prop where
  slotted : Slotted (SlotSized sps) t
  inTable : InTable t
  sps_eq : t.mSPSTx = sps

variable {Q : BurstQueue (Option (SignalVector R))} {sps : ℕ} {t : Transceiver n Q}

/-- A datagram. -/
theorem LengthsKept.datagram (f : FloatValues R) (cpu : ConvolveCpuContext R) (scale : ℤ → R)
    (hsps : sps = 1 ∨ sps = 4) (h : LengthsKept sps t) {chan : Fin n} {msg : List UInt8}
    (hok : (wireFrame msg : ℤ) < gHyperframe) :
    LengthsKept sps (driveTxPriorityQueue (sigProcModem (sigProcLibSetup f cpu) scale) t chan
      msg).2 := by
  have hframe : wireFrame (msg.take (EDGE_BURST_NBITS + 50)) = wireFrame msg := by
    rw [wireFrame, wireFrame, List.drop_take, List.take_take]
    rfl
  have hin : InTable (driveTxPriorityQueue (sigProcModem (sigProcLibSetup f cpu) scale) t chan
      msg).2 := by
    refine inTable_datagram h.inTable fun _ _ _ => ?_
    rw [gHyperframe_eq] at hok
    rw [hframe]
    omega
  unfold driveTxPriorityQueue at hin ⊢
  simp only at hin ⊢
  by_cases hacc : acceptsLength t.mSPSTx (msg.take (EDGE_BURST_NBITS + 50)).length = true
  · rw [if_pos hacc] at hin ⊢
    rw [h.sps_eq] at hacc
    have hlen : 6 ≤ (msg.take (EDGE_BURST_NBITS + 50)).length := by
      rcases acceptsLength_iff.mp hacc with h154 | ⟨h450, -⟩ <;> omega
    refine ⟨h.slotted.addRadioVector chan _ fun _ => ?_, hin, ?_⟩
    · rw [h.sps_eq]
      refine slotSized_burst f cpu scale hsps ?_ _ _
      rwa [List.length_drop, Nat.sub_add_cancel hlen]
    · rcases addRadioVector_cases (sigProcModem (sigProcLibSetup f cpu) scale) t chan
        ((msg.take (EDGE_BURST_NBITS + 50)).drop 6)
        (schar ((msg.take (EDGE_BURST_NBITS + 50)).getD 5 0))
        (wireTime (msg.take (EDGE_BURST_NBITS + 50))) with ⟨-, heq⟩ | ⟨-, v, heq⟩
      · rw [heq]
        exact h.sps_eq
      · rw [heq]
        exact h.sps_eq
  · rw [if_neg hacc]
    exact h

/-- **The step lemma.** -/
theorem lengthsKept_step (f : FloatValues R) (cpu : ConvolveCpuContext R) (scale : ℤ → R)
    (hsps : sps = 1 ∨ sps = 4) (h : LengthsKept sps t) {e : Event n} (hok : DownlinkOK e) :
    ∃ t', downlinkStep (sigProcModem (sigProcLibSetup f cpu) scale) (some t) e = some t' ∧
      LengthsKept sps t' := by
  cases e with
  | datagram chan msg => exact ⟨_, rfl, h.datagram f cpu scale hsps hok⟩
  | setSlot chan ts code =>
    exact ⟨_, rfl, h.slotted.setSlot chan ts code, inTable_setSlot h.inTable chan ts code, h.sps_eq⟩
  | push now =>
    obtain ⟨t', p, hpush, hslotted, hsame, -⟩ := h.slotted.push h.inTable hok
    obtain ⟨t'', hpush', hin⟩ := inTable_push h.inTable hok
    rw [hpush, Option.map_some] at hpush'
    obtain rfl := Option.some.inj hpush'
    refine ⟨t', ?_, hslotted, hin, hsame.trans h.sps_eq⟩
    rw [downlinkStep, hpush, Option.map_some]

/-- **Every transmitted burst has the length of its slot.**  In every run from filler tables whose
bursts have it, on any number of channels, of datagrams with valid frame numbers, SETSLOT commands
and pushes of valid slots, every vector that a push hands over has the length of the slot. -/
theorem burst_lengths (f : FloatValues R) (cpu : ConvolveCpuContext R) (scale : ℤ → R)
    (hsps : t.mSPSTx = 1 ∨ t.mSPSTx = 4) (ht : Initial t)
    (hfull : ∀ i row tn, ∃ v, (t.mStates i).fillerTable row tn = some (some v) ∧
      v.size = SigProcLib.slotLen t.mSPSTx (tn.val : ℤ))
    (events : List (Event n)) (hok : ∀ e ∈ events, DownlinkOK e) :
    Run.Along (downlinkStep (sigProcModem (sigProcLibSetup f cpu) scale)) (HandsSlots t.mSPSTx)
      (some t) events := by
  have hstart : LengthsKept t.mSPSTx t := by
    refine ⟨⟨fun i b hb => ?_, fun i c => ?_⟩, inTable_of_initial ht, rfl⟩
    · rw [ht.1 i, Q.elems_empty] at hb
      exact absurd hb (Multiset.notMem_zero b)
    · obtain ⟨v, hv, hsize⟩ := hfull i c.1 c.2
      exact ⟨some v, hv, v, rfl, hsize⟩
  refine Run.along_of_invariant (I := fun o => ∃ t', o = some t' ∧ LengthsKept t.mSPSTx t')
    ?_ ?_ ⟨t, rfl, hstart⟩ (Run.along_of_forall hok)
  · rintro _ e ⟨t', rfl, h⟩ he
    exact lengthsKept_step f cpu scale hsps h he
  · rintro _ e ⟨t', rfl, h⟩ he
    cases e with
    | push now =>
      obtain ⟨t'', p, hpush, -, -, hburst⟩ := h.slotted.push h.inTable he
      refine ⟨t'', p, hpush, fun i => ?_⟩
      obtain ⟨burst, hp, v, rfl, hsize⟩ := hburst i
      exact ⟨v, hp, hsize⟩
    | _ => trivial

/-- Two channels at one sample a symbol, filled with zeros; the first one retransmits. -/
def silentTrx : Transceiver 2 (listQueue (pointerCompare (V := Option (SignalVector ℤ)))) :=
  Transceiver.init 2 _ (fun _ _ tn => some (.new (SigProcLib.slotLen 1 (tn.val : ℤ)))) .FILLER_DUMMY
    1 ⟨0, 0⟩ ⟨0, 0⟩ false false

/-- A burst that is late, and sent again a multiframe after the frame that it was meant for. -/
def lateBurst (chan : Fin 2) : List (Event 2) :=
  [.datagram chan (datagramFor 0 0 0 1), .push ⟨2, 0⟩, .push ⟨27, 0⟩]

theorem burst_lengths_late :
    Run.Along
      (downlinkStep (sigProcModem (sigProcLibSetup noValues (convolveInit true)) fun _ => 1))
      (HandsSlots silentTrx.mSPSTx) (some silentTrx) (lateBurst 0) := by
  refine burst_lengths noValues (convolveInit true) (fun _ => 1) (.inl rfl)
    (initial_init _ _ _ _ _ _ _) (fun i row tn => ?_) (lateBurst 0) (by decide)
  fin_cases i <;> exact ⟨_, rfl, rfl⟩

end Trx
end OsmoTrx
