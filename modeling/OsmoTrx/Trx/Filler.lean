import OsmoTrx.Trx.Downlink
import OsmoTrx.Lib.Mem

/-!
# Filler bursts

What is sent in a slot for which no burst is queued.  On a retransmitting channel the filler
table remembers, for every timeslot and every frame of the slot's multiframe, the burst popped
last; the initial filler burst stands where there was none.  On any other channel the table
stays as it was filled.

* `cellOf` — the cell of the table that belongs to a time.
* `Retains` — the table of a state is that of an earlier one after some popped bursts have been
  written to their cells, in order.
* `drainStale_retains`, `pushChannel_retains` — a push writes the bursts it pops.
* `retains_step` — along a run the table is the initial one after all bursts popped so far.
* `filler_retransmission` — **the filler of a slot is the last burst popped for its cell**, in
  runs in which no frame number on a retransmitting channel is negative.
-/

namespace OsmoTrx
namespace Trx

open GSM VectorQueue

variable {n : ℕ} {V : Type} {Q : BurstQueue V}

/-! ## Cells -/

/-- The cell of the filler table that belongs to a time, if it is inside the table. -/
def cellOf (modulus : Fin 8 → ℤ) (t : Time) : Option (Fin 102 × Fin 8) :=
  (slotIndex t.TN).bind fun tn => fillerCell (t.FN.tmod (modulus tn)) t.TN

/-- The cell that belongs to a burst. -/
def burstCell (modulus : Fin 8 → ℤ) (b : RadioVector V) : Option (Fin 102 × Fin 8) :=
  cellOf modulus b.mTime

namespace TransceiverState

/-- The filler table as a memory of cells. -/
def cell (s : TransceiverState V) : Fin 102 × Fin 8 → Option V := fun c => s.fillerTable c.1 c.2

end TransceiverState

theorem fillerCell_eq_some_iff {row col : ℤ} {c : Fin 102 × Fin 8} :
    fillerCell row col = some c ↔ row = c.1 ∧ col = c.2 := by
  obtain ⟨r, n⟩ := c
  unfold fillerCell
  split_ifs with h
  · simp only [Option.some.injEq, Prod.mk.injEq, Fin.ext_iff]
    omega
  · simp only [false_iff, not_and]
    omega

/-- The frame modulus of the timeslot of a time. -/
def modulusAt (modulus : Fin 8 → ℤ) (t : Time) : ℤ := (slotIndex t.TN).elim 0 modulus

/-- Two times with the same timeslot, and frame numbers that are the same modulo the modulus of
the slot. -/
def SameCell (modulus : Fin 8 → ℤ) (t u : Time) : Prop :=
  t.TN = u.TN ∧ t.FN.tmod (modulusAt modulus u) = u.FN.tmod (modulusAt modulus u)

instance (modulus : Fin 8 → ℤ) (t u : Time) : Decidable (SameCell modulus t u) :=
  inferInstanceAs (Decidable (_ ∧ _))

/-- `SameCell` is what it says, for times of the table. -/
theorem cellOf_eq_iff {modulus : Fin 8 → ℤ} {t u : Time} {c : Fin 102 × Fin 8}
    (hu : cellOf modulus u = some c) : cellOf modulus t = some c ↔ SameCell modulus t u := by
  obtain ⟨tn, htn, hcell⟩ := Option.bind_eq_some_iff.mp hu
  have hmod : modulusAt modulus u = modulus tn := by rw [modulusAt, htn]; rfl
  rw [SameCell, hmod]
  constructor
  · intro ht
    obtain ⟨tn', htn', hcell'⟩ := Option.bind_eq_some_iff.mp ht
    have hu' := fillerCell_eq_some_iff.mp hcell
    have ht' := fillerCell_eq_some_iff.mp hcell'
    have hTN : t.TN = u.TN := ht'.2.trans hu'.2.symm
    rw [hTN, htn, Option.some.injEq] at htn'
    subst htn'
    exact ⟨hTN, ht'.1.trans hu'.1.symm⟩
  · rintro ⟨hTN, hFN⟩
    rw [cellOf, hTN, htn, Option.bind_some, hFN]
    exact hcell

/-! ## Writing to the table -/

/-- The state `s'` is `s` after the bursts `popped` have been stored, if the channel
retransmits. -/
structure Retains (popped : List (RadioVector V)) (s s' : TransceiverState V) : Prop where
  rest : ∃ table, s' = { s with fillerTable := table }
  cell : s'.cell = if s.mRetrans then
    Mem.writes (burstCell s.fillerModulus) RadioVector.vector s.cell popped
  else s.cell

namespace Retains

variable {s s' s'' : TransceiverState V} {popped popped' : List (RadioVector V)}

theorem refl (s : TransceiverState V) : Retains [] s s where
  rest := ⟨s.fillerTable, rfl⟩
  cell := by simp

theorem mRetrans (h : Retains popped s s') : s'.mRetrans = s.mRetrans := by
  obtain ⟨table, rfl⟩ := h.rest
  rfl

theorem fillerModulus (h : Retains popped s s') : s'.fillerModulus = s.fillerModulus := by
  obtain ⟨table, rfl⟩ := h.rest
  rfl

theorem trans (h : Retains popped s s') (h' : Retains popped' s' s'') :
    Retains (popped ++ popped') s s'' where
  rest := by
    obtain ⟨table, rfl⟩ := h.rest
    obtain ⟨table', rfl⟩ := h'.rest
    exact ⟨table', rfl⟩
  cell := by
    rw [h'.cell, h.mRetrans, h.fillerModulus, h.cell]
    split_ifs
    · rw [Mem.writes_append]
    · rfl

/-- A channel that does not retransmit keeps its table, whatever is popped. -/
theorem of_not_mRetrans (h : s.mRetrans = false) (popped : List (RadioVector V)) :
    Retains popped s s where
  rest := ⟨s.fillerTable, rfl⟩
  cell := by simp [h]

/-- `updateFillerTable` stores one burst. -/
theorem of_update {b : RadioVector V} (hre : s.mRetrans = true)
    (h : updateFillerTable s b = some s') : Retains [b] s s' where
  rest := updateFillerTable_eq_some h
  cell := by
    simp only [updateFillerTable, Option.bind_eq_bind] at h
    obtain ⟨tn, htn, h⟩ := Option.bind_eq_some_iff.mp h
    obtain ⟨⟨row, col⟩, hcell, h⟩ := Option.bind_eq_some_iff.mp h
    cases h
    have hkey : burstCell s.fillerModulus b = some (row, col) := by
      rw [burstCell, cellOf, htn, Option.bind_some, hcell]
    rw [if_pos hre, Mem.writes_singleton hkey]
    funext cell
    obtain ⟨r, c⟩ := cell
    by_cases hr : r = row <;> by_cases hc : c = col <;>
      simp [TransceiverState.cell, hr, hc]

end Retains

/-- The stale loop stores the bursts it pops. -/
theorem drainStale_retains {nowTime : Time} (fuel : ℕ) : ∀ {d d' : Drained Q},
    drainStale nowTime fuel d = some d' →
      ∃ popped, d'.stale = d.stale ++ popped ∧ Retains popped d.state d'.state := by
  induction fuel with
  | zero =>
    intro d d' h
    cases h
    exact ⟨[], (List.append_nil _).symm, .refl _⟩
  | succ fuel ih =>
    intro d d' h
    rw [drainStale] at h
    split at h
    · cases h
      exact ⟨[], (List.append_nil _).symm, .refl _⟩
    · rename_i b queue hget
      split_ifs at h with hre
      · split at h
        · cases h
        · rename_i state hup
          obtain ⟨popped, hstale, hretains⟩ := ih h
          exact ⟨b :: popped, by rw [hstale, List.append_assoc]; rfl,
            (Retains.of_update hre hup).trans hretains⟩
      · obtain ⟨popped, hstale, hretains⟩ := ih h
        exact ⟨b :: popped, by rw [hstale, List.append_assoc]; rfl,
          (Retains.of_not_mRetrans (by simpa using hre) [b]).trans hretains⟩

/-- The bursts that a push pops on a channel, in order. -/
def Pushed.popped (p : Pushed Q) : List (RadioVector V) := p.stale ++ p.current.toList

/-- A push stores the bursts it pops.  What it sends is the current burst, if there is one, and
what the table then has for the slot, if there is none. -/
theorem pushChannel_retains {state : TransceiverState V} {queue : Q.Carrier} {nowTime : Time}
    {p : Pushed Q} (h : pushChannel state queue nowTime = some p) :
    Retains p.popped state p.state ∧ ((∃ b, p.current = some b ∧ p.burst = b.vector) ∨
      p.current = none ∧
        ∃ c, cellOf state.fillerModulus nowTime = some c ∧ p.burst = p.state.cell c) := by
  simp only [pushChannel, Option.bind_eq_bind] at h
  obtain ⟨d, hdrain, h⟩ := Option.bind_eq_some_iff.mp h
  obtain ⟨tn, htn, h⟩ := Option.bind_eq_some_iff.mp h
  obtain ⟨c, hcell, h⟩ := Option.bind_eq_some_iff.mp h
  obtain ⟨popped, hstale, hretains⟩ := drainStale_retains _ hdrain
  rw [List.nil_append] at hstale
  subst hstale
  split at h
  · cases h
    refine ⟨by simpa [Pushed.popped] using hretains, .inr ⟨rfl, c, ?_, rfl⟩⟩
    rw [cellOf, htn, Option.bind_some, ← hretains.fillerModulus]
    exact hcell
  · rename_i b queue' hget
    split_ifs at h with hre
    · obtain ⟨state', hup, h⟩ := Option.bind_eq_some_iff.mp h
      cases h
      exact ⟨hretains.trans (.of_update hre hup), .inl ⟨b, rfl, rfl⟩⟩
    · cases h
      exact ⟨hretains.trans (.of_not_mRetrans (by simpa using hre) [b]), .inl ⟨b, rfl, rfl⟩⟩

/-! ## Traffic -/

/-- What can happen to the queues and tables of the channels: a burst arrives, the type of a slot
is set, the queues are cleared, and a slot is pushed. -/
inductive Traffic (n : ℕ)
  | add (chan : Fin n) (bits : List UInt8) (RSSI : ℤ) (wTime : Time)
  | setSlot (chan : Fin n) (timeslot : Fin 8) (corrCode : ℤ)
  | clear
  | push (nowTime : Time)

/-- A burst that is queued on a retransmitting channel has no negative frame number, and the
slots pushed are valid. -/
def TrafficOK (t : Transceiver n Q) : Traffic n → Prop
  | .add chan _ _ wTime =>
    (t.mStates chan).mRetrans = true → wTime.TN ≤ 7 → 0 ≤ wTime.mFN
  | .push nowTime => nowTime.Valid
  | _ => True

instance (t : Transceiver n Q) : ∀ e : Traffic n, Decidable (TrafficOK t e)
  | .add _ _ _ _ => inferInstanceAs (Decidable (_ → _ → _ ≤ _))
  | .push nowTime => inferInstanceAs (Decidable nowTime.Valid)
  | .setSlot _ _ _ | .clear => .isTrue trivial

/-- A timeslot of at most 7 is an index. -/
theorem slotIndex_of_le {t : Time} (h : t.TN ≤ 7) : ∃ tn, slotIndex t.TN = some tn := by
  have hnonneg : 0 ≤ t.TN := Int.emod_nonneg _ (by norm_num)
  exact ⟨⟨t.TN.toNat, by omega⟩, by rw [slotIndex, dif_pos ⟨hnonneg, by omega⟩]⟩

theorem inTable_add {M : Modem V} {t : Transceiver n Q} (h : InTable t) {chan : Fin n}
    {bits : List UInt8} {RSSI : ℤ} {wTime : Time} (hok : TrafficOK t (.add chan bits RSSI wTime)) :
    InTable (addRadioVector M t chan bits RSSI wTime) := by
  rcases addRadioVector_cases M t chan bits RSSI wTime with ⟨-, heq⟩ | ⟨htn, v, heq⟩
  · rw [heq]
    exact h
  · rw [heq]
    refine ⟨h.modulus, fun i hre b hb => ?_⟩
    by_cases hi : i = chan
    · subst hi
      simp only [Function.update_self, Q.elems_push] at hb
      rcases Multiset.mem_cons.mp hb with rfl | hb
      · exact ⟨hok hre htn, slotIndex_of_le htn⟩
      · exact h.storable i hre b hb
    · simp only [Function.update_of_ne hi] at hb
      exact h.storable i hre b hb

/-- `clear` for all queues. -/
def Transceiver.clearQueues (t : Transceiver n Q) : Transceiver n Q :=
  { t with mTxPriorityQueues := fun _ => Q.empty }

theorem inTable_clear {t : Transceiver n Q} (h : InTable t) : InTable t.clearQueues where
  modulus := h.modulus
  storable i _ b hb := by
    rw [Transceiver.clearQueues, Q.elems_empty] at hb
    simp at hb

/-! ## The law -/

/-- The transceiver, and the bursts popped so far on every channel. -/
structure Served (n : ℕ) {V : Type} (Q : BurstQueue V) where
  trx : Transceiver n Q
  popped : Fin n → List (RadioVector V)

/-- One event; `none` once an access has left a table. -/
def serve (M : Modem V) : Option (Served n Q) → Traffic n → Option (Served n Q)
  | none, _ => none
  | some s, .add chan bits RSSI wTime =>
    some { s with trx := addRadioVector M s.trx chan bits RSSI wTime }
  | some s, .setSlot chan ts code =>
    some { s with trx := s.trx.updateState chan ((s.trx.mStates chan).setSlot ts code) }
  | some s, .clear => some { s with trx := s.trx.clearQueues }
  | some s, .push now => (pushRadioVector s.trx now).map fun r =>
      ⟨r.1, fun i => s.popped i ++ (r.2 i).popped⟩

/-- The filler of a slot: on a retransmitting channel the last of the bursts popped whose
timeslot is that of the slot and whose frame number is the same modulo the modulus of the slot;
if there is none, and on any other channel, what the table was filled with. -/
def fillerFor (s : TransceiverState V) (popped : List (RadioVector V)) (now : Time) : Option V :=
  let filled := (cellOf s.fillerModulus now).bind s.cell
  if s.mRetrans then
    ((popped.filter fun b => SameCell s.fillerModulus b.mTime now).getLast?.map
      RadioVector.vector).getD filled
  else filled

/-- The law of a push on channel `i`, whose state was filled as `filled`: the push succeeds, if no
burst is queued for the slot the channel sends the filler of the slot, and the next frame's row
of the table is the next row of the multiframe, also from the last frame of the hyperframe to
the first. -/
def FillerLaw (i : Fin n) (filled : TransceiverState V) : Option (Served n Q) → Traffic n → Prop
  | some s, .push now => ∃ t p, pushRadioVector s.trx now = some (t, p) ∧
      ((∀ b ∈ Q.elems (s.trx.mTxPriorityQueues i), b.mTime ≠ now) →
        (p i).burst = fillerFor filled (s.popped i ++ (p i).popped) now) ∧
      let m := modulusAt filled.fillerModulus now
      (now.incTN 8).FN.tmod m = (now.FN.tmod m + 1) % m
  | _, _ => True

theorem Retains.fillerFor_eq {s s' : TransceiverState V} {popped : List (RadioVector V)}
    (h : Retains popped s s') {now : Time} {c : Fin 102 × Fin 8}
    (hc : cellOf s.fillerModulus now = some c) : s'.cell c = fillerFor s popped now := by
  rw [h.cell, fillerFor, hc, Option.bind_some]
  split_ifs
  · have hsame (b : RadioVector V) :
        decide (burstCell s.fillerModulus b = some c) =
          decide (SameCell s.fillerModulus b.mTime now) :=
      decide_eq_decide.mpr (cellOf_eq_iff hc)
    rw [Mem.writes_apply]
    simp only [hsame]
  · rfl

/-- The rows of consecutive frames, around the end of the hyperframe as well. -/
theorem rows_continuous {now : Time} (hnow : now.Valid) {m : ℤ}
    (hm : m = 26 ∨ m = 51 ∨ m = 52 ∨ m = 102) :
    (now.incTN 8).FN.tmod m = (now.FN.tmod m + 1) % m := by
  obtain ⟨⟨hfl, hfh⟩, htl, hth⟩ := hnow
  have hnext : (now.incTN 8).FN = (now.mFN + 1) % gHyperframe := by
    rw [Time.incTN_eq ⟨⟨hfl, hfh⟩, htl, hth⟩ (by norm_num) le_rfl, if_pos (by omega)]
    rfl
  rw [gHyperframe_eq] at *
  rw [hnext, Time.FN, Int.tmod_eq_emod_of_nonneg (by omega), Int.tmod_eq_emod_of_nonneg hfl]
  rcases hm with rfl | rfl | rfl | rfl <;> omega

/-! ## Runs -/

/-- The moduli of a channel are those its types ask for. -/
def Settled (s : TransceiverState V) : Prop :=
  ∀ tn m, TransceiverState.modulusOf (s.chanType tn) = some m → s.fillerModulus tn = m

theorem settled_setSlot {s : TransceiverState V} (h : Settled s) (ts : Fin 8) (code : ℤ) :
    Settled (s.setSlot ts code) := by
  intro tn m htype
  rw [TransceiverState.setSlot_chanType] at htype
  by_cases htn : tn = ts
  · subst htn
    rw [Function.update_self] at htype
    simp [TransceiverState.setSlot, TransceiverState.setModulus, htype]
  · rw [Function.update_of_ne htn] at htype
    have hother : (s.setSlot ts code).fillerModulus tn = s.fillerModulus tn := by
      unfold TransceiverState.setSlot TransceiverState.setModulus
      split <;> simp [htn]
    rw [hother]
    exact h tn m htype

/-- Setting the type that a slot has changes nothing. -/
theorem setSlot_self {s : TransceiverState V} (h : Settled s) (ts : Fin 8) :
    s.setSlot ts (s.chanType ts) = s := by
  rw [TransceiverState.setSlot, Function.update_eq_self]
  unfold TransceiverState.setModulus
  split
  · rename_i m hm
    rw [← h ts m hm, Function.update_eq_self]
  · rfl

/-- The types of the slots of channel `i` do not change. -/
def TypesKept (i : Fin n) : Option (Served n Q) → Traffic n → Prop
  | some s, .setSlot chan ts code => chan = i → code = (s.trx.mStates i).chanType ts
  | _, _ => True

/-- The condition of `TrafficOK` on a step. -/
def ServeOK : Option (Served n Q) → Traffic n → Prop
  | some s, e => TrafficOK s.trx e
  | none, _ => True

instance (i : Fin n) : ∀ (o : Option (Served n Q)) (e : Traffic n), Decidable (TypesKept i o e)
  | some _, .setSlot _ _ code => inferInstanceAs (Decidable (_ → code = _))
  | some _, .add _ _ _ _ | some _, .clear | some _, .push _ | none, _ => .isTrue trivial

instance : ∀ (o : Option (Served n Q)) (e : Traffic n), Decidable (ServeOK o e)
  | some s, e => inferInstanceAs (Decidable (TrafficOK s.trx e))
  | none, _ => .isTrue trivial

/-- The invariant: nothing has left a table, and the table of channel `i` is the one it was
filled with after the bursts popped so far. -/
structure Serving (i : Fin n) (filled : TransceiverState V) (s : Served n Q) : Prop where
  inTable : InTable s.trx
  settled : Settled (s.trx.mStates i)
  retains : Retains (s.popped i) filled (s.trx.mStates i)

variable {i : Fin n} {filled : TransceiverState V} {s : Served n Q}

/-- A push under the invariant. -/
theorem Serving.push (h : Serving i filled s) {now : Time} (hnow : now.Valid) :
    ∃ t p, pushRadioVector s.trx now = some (t, p) ∧
      Serving i filled ⟨t, fun i => s.popped i ++ (p i).popped⟩ ∧
      ((∀ b ∈ Q.elems (s.trx.mTxPriorityQueues i), b.mTime ≠ now) →
        (p i).burst = fillerFor filled (s.popped i ++ (p i).popped) now) := by
  obtain ⟨p, mid, hpush, hspec⟩ := pushRadioVector_spec hnow h.inTable.modulus h.inTable.storable
  obtain ⟨hpopped, hsent⟩ := pushChannel_retains ((pushRadioVector_eq_some hpush).1 i)
  have hretains := h.retains.trans hpopped
  have hsettled : Settled (p i).state := by
    obtain ⟨table, htable⟩ := hpopped.rest
    rw [htable]
    exact h.settled
  obtain ⟨t', ht', hinTable⟩ := inTable_push h.inTable hnow
  rw [hpush, Option.map_some, Option.some.injEq] at ht'
  subst ht'
  refine ⟨_, p, hpush, ⟨hinTable, hsettled, hretains⟩, fun hnone => ?_⟩
  rcases hsent with ⟨b, hcurrent, -⟩ | ⟨-, c, hc, hburst⟩
  · -- a current burst was in the queue
    rcases (hspec i).current with ⟨hcurrent', -⟩ | ⟨b', -, htop, hb', -⟩
    · rw [hcurrent] at hcurrent'
      cases hcurrent'
    · have hmem : b' ∈ Q.elems (s.trx.mTxPriorityQueues i) := by
        rw [(hspec i).elems]
        exact Multiset.mem_add.mpr (.inr (Q.mem_of_top htop))
      exact absurd hb' (hnone b' hmem)
  · rw [h.retains.fillerModulus] at hc
    rw [hburst]
    exact hretains.fillerFor_eq hc

/-- The step lemma. -/
theorem serving_step {M : Modem V} (h : Serving i filled s) {e : Traffic n}
    (hok : ServeOK (some s) e) (htypes : TypesKept i (some s) e) :
    ∃ s', serve M (some s) e = some s' ∧ Serving i filled s' := by
  cases e with
  | add chan bits RSSI wTime =>
    have hstates : (addRadioVector M s.trx chan bits RSSI wTime).mStates = s.trx.mStates := by
      unfold addRadioVector
      split_ifs <;> rfl
    refine ⟨_, rfl, inTable_add h.inTable hok, ?_, ?_⟩ <;> simp only [hstates]
    · exact h.settled
    · exact h.retains
  | setSlot chan ts code =>
    have hself : Function.update s.trx.mStates chan ((s.trx.mStates chan).setSlot ts code) i =
        s.trx.mStates i := by
      by_cases hi : i = chan
      · subst hi
        rw [Function.update_self, htypes rfl, setSlot_self h.settled]
      · rw [Function.update_of_ne hi]
    refine ⟨_, rfl, inTable_setSlot h.inTable _ _ _, ?_, ?_⟩ <;>
      rw [Transceiver.updateState_mStates, hself]
    · exact h.settled
    · exact h.retains
  | clear => exact ⟨_, rfl, inTable_clear h.inTable, h.settled, h.retains⟩
  | push now =>
    obtain ⟨t, p, hpush, hserving, -⟩ := h.push hok
    exact ⟨_, by rw [serve, hpush, Option.map_some], hserving⟩

/-- A transceiver after `init` and some SETSLOT commands. -/
def configured (generate : FillerType → Fin 102 → Fin 8 → V) (filler : FillerType) (tx_sps : ℕ)
    (latency startTime : Time) (edge ext_rach : Bool) (slots : List (Fin n × Fin 8 × ℤ)) :
    Transceiver n Q :=
  slots.foldl
    (fun t (chan, ts, code) => t.updateState chan ((t.mStates chan).setSlot ts code))
    (Transceiver.init n Q generate filler tx_sps latency startTime edge ext_rach)

/-- The moduli that `init` leaves are those of the types that it leaves. -/
theorem settled_init (generate : FillerType → Fin 102 → Fin 8 → V) (filler : FillerType)
    (tx_sps : ℕ) (latency startTime : Time) (edge ext_rach : Bool) (i : Fin n) :
    Settled ((Transceiver.init n Q generate filler tx_sps latency startTime edge
      ext_rach).mStates i) := by
  have hstate (s : TransceiverState V) (f : FillerType) (hmod : s.fillerModulus = fun _ => 26)
      (htype : s.chanType = fun _ => ChannelCombination.NONE.code) :
      Settled (s.init generate f tx_sps) := by
    intro tn m hm
    unfold TransceiverState.init at hm ⊢
    split_ifs at hm ⊢ <;> simp only [hmod, htype] at hm ⊢ <;> exact Option.some.inj hm
  simp only [Transceiver.init]
  split_ifs <;> exact hstate _ _ rfl rfl

theorem serving_configured (generate : FillerType → Fin 102 → Fin 8 → V) (filler : FillerType)
    (tx_sps : ℕ) (latency startTime : Time) (edge ext_rach : Bool)
    (slots : List (Fin n × Fin 8 × ℤ)) (i : Fin n) :
    let t : Transceiver n Q :=
      configured generate filler tx_sps latency startTime edge ext_rach slots
    Serving i (t.mStates i) ⟨t, fun _ => []⟩ := by
  have hslots (slots : List (Fin n × Fin 8 × ℤ)) : ∀ t : Transceiver n Q, InTable t →
      (∀ i, Settled (t.mStates i)) →
      let t' := slots.foldl
        (fun t (chan, ts, code) => t.updateState chan ((t.mStates chan).setSlot ts code)) t
      InTable t' ∧ ∀ i, Settled (t'.mStates i) := by
    induction slots with
    | nil => exact fun t hin hsettled => ⟨hin, hsettled⟩
    | cons slot slots ih =>
      intro t hin hsettled
      refine ih _ (inTable_setSlot hin _ _ _) fun i => ?_
      rw [Transceiver.updateState_mStates]
      by_cases hi : i = slot.1
      · subst hi
        rw [Function.update_self]
        exact settled_setSlot (hsettled _) _ _
      · rw [Function.update_of_ne hi]
        exact hsettled i
  obtain ⟨hin, hsettled⟩ := hslots slots
    (Transceiver.init n Q generate filler tx_sps latency startTime edge ext_rach)
    (inTable_of_initial (initial_init _ _ _ _ _ _ _))
    (settled_init generate filler tx_sps latency startTime edge ext_rach)
  exact ⟨hin, hsettled i, .refl _⟩

/-- **The filler of a slot is the last burst popped for its cell.**  In every run from a
configured transceiver in which the types of a channel's slots do not change, no frame number
queued on a retransmitting channel is negative and the slots pushed are valid, every push obeys
the law on the channel. -/
theorem filler_retransmission (M : Modem V) (generate : FillerType → Fin 102 → Fin 8 → V)
    (filler : FillerType) (tx_sps : ℕ) (latency startTime : Time) (edge ext_rach : Bool)
    (slots : List (Fin n × Fin 8 × ℤ)) (i : Fin n) (events : List (Traffic n)) :
    let t : Transceiver n Q :=
      configured generate filler tx_sps latency startTime edge ext_rach slots
    Run.Along (serve M) (TypesKept i) (some ⟨t, fun _ => []⟩) events →
      Run.Along (serve M) ServeOK (some ⟨t, fun _ => []⟩) events →
        Run.Along (serve M) (FillerLaw i (t.mStates i)) (some ⟨t, fun _ => []⟩) events := by
  intro t htypes hok
  refine Run.along_of_invariant (I := fun o => ∃ s, o = some s ∧ Serving i (t.mStates i) s) ?_ ?_
    ⟨_, rfl, serving_configured generate filler tx_sps latency startTime edge ext_rach slots i⟩
    (Run.along_and.mpr ⟨hok, htypes⟩)
  · rintro _ e ⟨s, rfl, hs⟩ ⟨hok, htypes⟩
    exact serving_step hs hok htypes
  · rintro _ e ⟨s, rfl, hs⟩ ⟨hok, -⟩
    cases e with
    | push now =>
      obtain ⟨t', p, hpush, -, hlaw⟩ := hs.push hok
      refine ⟨t', p, hpush, hlaw, ?_⟩
      obtain ⟨tn, htn, -⟩ := slotIndex_of_valid hok
      have hmod := hs.inTable.modulus i tn
      rw [hs.retains.fillerModulus] at hmod
      have hat : modulusAt (t.mStates i).fillerModulus now = (t.mStates i).fillerModulus tn := by
        rw [modulusAt, htn]
        rfl
      exact rows_continuous hok (by rw [hat]; exact hmod)
    | _ => trivial

/-- A modem whose bursts are their attenuation. -/
def levelModem : Modem ℤ := ⟨fun _ _ => 0, fun _ _ _ => 0, fun v e => v + e⟩

/-- A channel that retransmits, with a slot of type `V`: its multiframe has 51 frames. -/
def retransmitting (chan : Fin 1) (slot : Fin 8) :
    Transceiver 1 (listQueue (pointerCompare (V := ℤ))) :=
  configured (fun _ _ _ => 99) .FILLER_DUMMY 1 ⟨0, 0⟩ ⟨0, 0⟩ false false
    [(chan, slot, ChannelCombination.V.code)]

/-- The burst for the last frame but one is stale in the last frame, and is the filler 51 frames
after its own, past the end of the hyperframe; the burst for frame 3 goes with the queue. -/
def retransmission (chan : Fin 1) (slot : Fin 8) : List (Traffic 1) :=
  [.add chan [] (-30) ⟨2715646, slot⟩, .push ⟨2715647, slot⟩, .add chan [] (-70) ⟨3, slot⟩, .clear,
    .setSlot chan slot ChannelCombination.V.code, .push ⟨49, slot⟩]

theorem filler_retransmission_wrap :
    Run.Along (serve levelModem) (FillerLaw 0 ((retransmitting 0 0).mStates 0))
      (some ⟨retransmitting 0 0, fun _ => []⟩) (retransmission 0 0) :=
  filler_retransmission levelModem (fun _ _ _ => 99) .FILLER_DUMMY 1 ⟨0, 0⟩ ⟨0, 0⟩ false false
    [(0, 0, ChannelCombination.V.code)] 0 (retransmission 0 0) (by decide +kernel)
    (by decide +kernel)

/-- A burst with the frame number of the datagram bytes `FF FF FF FF` leaves the table when it
is stale. -/
theorem filler_of_negative_frame :
    ¬ Run.Along (serve levelModem) (FillerLaw 0 ((retransmitting 0 0).mStates 0))
      (some ⟨retransmitting 0 0, fun _ => []⟩)
      [.add 0 [] 0 (wireTime (datagramFor 255 255 255 255)), .push ⟨0, 0⟩] := by
  rintro ⟨-, ⟨t, p, hpush, -⟩, -⟩
  have hsome := (congrArg Option.isSome hpush).trans (rfl : _ = true)
  exact absurd hsome (by decide +kernel)

end Trx
end OsmoTrx
