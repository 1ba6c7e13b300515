import OsmoTrx.Trx.Clock
import OsmoTrx.Trx.Downlink

/-!
# The pace of the transmit thread

`Transceiver::driveTxFIFO`: bursts are pushed until the deadline clock has caught up with the radio
clock plus the transmit latency, and the latency is adapted while that loop runs.

* `gap` — how far one time is ahead of another, in slots, the short way round the hyperframe; the
  comparisons of `GSM::Time` are comparisons of `gap` with zero.
* `driveTxFIFO` — the loop, with the answers of `isUnderrun` as a sequence.
* `Returned`, `loop_returns` — **the loop ends** after fewer turns than the hyperframe has slots,
  and the latency changes at most once.
* `pacing_run` — over any run of calls the slots pushed are consecutive, no call leaves the deadline
  behind, and the latency keeps its bounds and its rate, as long as clock plus latency is ahead of
  the deadline by **less than half a hyperframe less one frame**.
* `half_hyperframe_ahead` — at half a hyperframe less one frame it is left behind.
-/

namespace OsmoTrx
namespace GSM
namespace Time

/-! ## How far ahead -/

/-- The slots from `u` to `t`, the short way round. -/
def gap (t u : Time) : ℤ := 8 * FNDelta t.mFN u.mFN + (t.mTN - u.mTN)

section Gap

variable {t u : Time} (ht : t.Valid) (hu : u.Valid)
include ht hu

theorem gap_range : -(4 * gHyperframe) - 7 ≤ gap t u ∧ gap t u < 4 * gHyperframe := by
  obtain ⟨hlo, hhi⟩ := FNDelta_mem ht.1 hu.1
  obtain ⟨-, htl, hth⟩ := ht
  obtain ⟨-, hul, huh⟩ := hu
  rw [gHyperframe_eq] at *
  unfold gap
  omega

/-- The gap is the difference of the slot numbers, modulo the hyperframe. -/
theorem gap_emod : gap t u % hyperslots = (t.slot - u.slot) % hyperslots := by
  have hmod := FNDelta_emod ht.1 hu.1
  simp only [gap, slot, hyperslots]
  rw [gHyperframe_eq] at *
  omega

/-- A difference of the slot numbers that is shorter than half a hyperframe is the gap. -/
theorem gap_eq_of_emod {x : ℤ} (hlo : -(4 * gHyperframe) ≤ x) (hhi : x ≤ 4 * gHyperframe - 8)
    (hmod : (t.slot - u.slot) % hyperslots = x % hyperslots) : gap t u = x := by
  have hrange := gap_range ht hu
  have heq := gap_emod ht hu
  rw [hmod] at heq
  simp only [hyperslots] at heq
  rw [gHyperframe_eq] at *
  omega

theorem gt_iff_gap : t.gt u = true ↔ 0 < gap t u := by
  have hzero := FNDelta_eq_zero_iff ht.1 hu.1
  obtain ⟨-, htl, hth⟩ := ht
  obtain ⟨-, hul, huh⟩ := hu
  unfold gt gap
  by_cases hfn : t.mFN = u.mFN
  · rw [if_pos hfn, hzero.mpr hfn, decide_eq_true_iff]
    omega
  · have hne : FNDelta t.mFN u.mFN ≠ 0 := fun h => hfn (hzero.mp h)
    rw [if_neg hfn, decide_eq_true_iff, FNCompare_pos_iff]
    omega

theorem lt_iff_gap : t.lt u = true ↔ gap t u < 0 := by
  have hzero := FNDelta_eq_zero_iff ht.1 hu.1
  obtain ⟨-, htl, hth⟩ := ht
  obtain ⟨-, hul, huh⟩ := hu
  unfold lt gap
  by_cases hfn : t.mFN = u.mFN
  · rw [if_pos hfn, hzero.mpr hfn, decide_eq_true_iff]
    omega
  · have hne : FNDelta t.mFN u.mFN ≠ 0 := fun h => hfn (hzero.mp h)
    rw [if_neg hfn, decide_eq_true_iff, FNCompare_neg_iff]
    omega

/-- The gap the other way round. -/
theorem gap_swap (hfar : -(gHyperframe / 2) < FNDelta t.mFN u.mFN) : gap u t = -gap t u := by
  unfold gap
  rw [FNDelta_eq ht.1 hu.1] at hfar ⊢
  rw [FNDelta_eq hu.1 ht.1]
  rw [gHyperframe_eq] at hfar
  split_ifs at * <;> omega

/-- A step of the time behind takes one slot off the gap, and adds no frame to it. -/
theorem gap_incTN_right (hfar : -(4 * gHyperframe) + 8 ≤ gap t u) :
    gap t (u.incTN 1) = gap t u - 1 ∧ FNDelta t.mFN (u.incTN 1).mFN ≤ FNDelta t.mFN u.mFN := by
  obtain ⟨⟨hul, huh⟩, hun, hun'⟩ := hu
  have hstep := incTN_eq ⟨⟨hul, huh⟩, hun, hun'⟩ (show (0 : ℤ) ≤ 1 by norm_num) (by norm_num)
  have hvalid := incTN_valid ⟨⟨hul, huh⟩, hun, hun'⟩ (show (0 : ℤ) ≤ 1 by norm_num) (by norm_num)
  obtain ⟨⟨htl, hth⟩, htn, htn'⟩ := ht
  rw [hstep] at hvalid ⊢
  have hnext := hvalid.1
  unfold gap at *
  rw [FNDelta_eq ⟨htl, hth⟩ ⟨hul, huh⟩] at *
  rw [FNDelta_eq ⟨htl, hth⟩ hnext]
  rw [gHyperframe_eq] at *
  split_ifs at * <;> simp only at * <;> omega

/-- A step back of the time ahead takes one slot off the gap. -/
theorem gap_decTN_left (hpos : 0 < gap t u) : gap (t.decTN 1) u = gap t u - 1 := by
  obtain ⟨⟨htl, hth⟩, htn, htn'⟩ := ht
  have hstep := decTN_eq ⟨⟨htl, hth⟩, htn, htn'⟩ (show (0 : ℤ) ≤ 1 by norm_num) (by norm_num)
  have hvalid := decTN_valid ⟨⟨htl, hth⟩, htn, htn'⟩ (show (0 : ℤ) ≤ 1 by norm_num) (by norm_num)
  obtain ⟨⟨hul, huh⟩, hun, hun'⟩ := hu
  rw [hstep] at hvalid ⊢
  have hnext := hvalid.1
  unfold gap at *
  rw [FNDelta_eq ⟨htl, hth⟩ ⟨hul, huh⟩] at *
  rw [FNDelta_eq hnext ⟨hul, huh⟩]
  rw [gHyperframe_eq] at *
  split_ifs at * <;> simp only at * <;> omega

/-- A frame more of the time ahead is eight slots more, or too much for the short way round. -/
theorem gap_addFrame_left (hpos : 0 ≤ gap t u) :
    gap (t.add ⟨1, 0⟩) u =
      if FNDelta t.mFN u.mFN + 1 < gHyperframe / 2 then gap t u + 8
      else gap t u + 8 - 8 * gHyperframe := by
  have hone : (⟨1, 0⟩ : Time).Valid := by decide
  have hvalid := add_valid ht hone
  have hsum := add_eq ht hone
  obtain ⟨⟨htl, hth⟩, htn, htn'⟩ := ht
  obtain ⟨⟨hul, huh⟩, hun, hun'⟩ := hu
  rw [hsum] at hvalid ⊢
  have hnext := hvalid.1
  unfold gap at *
  rw [FNDelta_eq ⟨htl, hth⟩ ⟨hul, huh⟩] at *
  rw [FNDelta_eq hnext ⟨hul, huh⟩]
  rw [gHyperframe_eq] at *
  simp only at *
  split_ifs at * <;> omega

end Gap

/-- A frame or a slot more or less of one summand is one of the sum. -/
theorem add_addFrame {t u : Time} (ht : t.Valid) (hu : u.Valid) :
    t.add (u.add ⟨1, 0⟩) = (t.add u).add ⟨1, 0⟩ := by
  have hone : (⟨1, 0⟩ : Time).Valid := by decide
  refine slot_injOn (add_valid ht (add_valid hu hone)) (add_valid (add_valid ht hu) hone) ?_
  rw [slot_add ht (add_valid hu hone), slot_add hu hone, slot_add (add_valid ht hu) hone,
    slot_add ht hu, Int.add_emod_emod, Int.emod_add_emod, add_assoc]

theorem add_decTN {t u : Time} (ht : t.Valid) (hu : u.Valid) :
    t.add (u.decTN 1) = (t.add u).decTN 1 := by
  have hdec {v : Time} (hv : v.Valid) : (v.decTN 1).Valid :=
    decTN_valid hv (by norm_num) (by norm_num)
  have hslot {v : Time} (hv : v.Valid) : (v.decTN 1).slot = (v.slot - 1) % hyperslots :=
    slot_decTN hv (by norm_num) (by norm_num)
  refine slot_injOn (add_valid ht (hdec hu)) (hdec (add_valid ht hu)) ?_
  rw [slot_add ht (hdec hu), hslot hu, hslot (add_valid ht hu), slot_add ht hu,
    Int.add_emod_emod, Int.emod_sub_emod, add_sub_assoc]

/-- A time is not ahead of itself plus some frames. -/
theorem not_gt_addFrames {t : Time} (ht : t.Valid) {frames : ℤ} (h0 : 0 ≤ frames)
    (hhalf : frames ≤ gHyperframe / 2) : t.gt (t.add ⟨frames, 0⟩) = false := by
  have hframes : (⟨frames, 0⟩ : Time).Valid := by
    rw [gHyperframe_eq] at hhalf
    exact ⟨⟨h0, by rw [gHyperframe_eq]; simp only; omega⟩, le_refl _, by norm_num⟩
  have hgap : gap t (t.add ⟨frames, 0⟩) = -(8 * frames) := by
    rw [gHyperframe_eq] at hhalf
    refine gap_eq_of_emod ht (add_valid ht hframes) ?_ ?_ ?_
    · rw [gHyperframe_eq]; omega
    · rw [gHyperframe_eq]; omega
    · rw [slot_add ht hframes, Int.sub_emod_emod]
      congr 1
      simp only [slot]
      ring
  by_contra hcon
  have hpos := (gt_iff_gap ht (add_valid ht hframes)).mp (eq_true_of_ne_false hcon)
  omega

end Time
end GSM

namespace Trx

open GSM

variable {n : ℕ} {V : Type} {Q : BurstQueue V}

/-! ## The loop -/

/-- The latency control at the head of a turn. -/
def adapt (t : Transceiver n Q) (clock : Time) (usrp1 underrun : Bool) (minLatency : Time) :
    Transceiver n Q :=
  match latencyControl t clock usrp1 underrun minLatency with
  | some latency => { t with mTransmitLatency := latency, mLatencyUpdateTime := clock }
  | none => t

/-- A turn of the loop of `driveTxFIFO`: the slot passed to `pushRadioVector`, and the transceiver
afterwards. -/
def txTurn (clock : Time) (usrp1 : Bool) (minLatency : Time) (underrun : Bool)
    (t : Transceiver n Q) : Option (Time × Transceiver n Q) :=
  let t := adapt t clock usrp1 underrun minLatency
  let nowTime := t.mTransmitDeadlineClock
  (pushRadioVector t nowTime).map fun r =>
    (nowTime, { r.1 with mTransmitDeadlineClock := r.1.mTransmitDeadlineClock.incTN 1 })

/-- The loop of `driveTxFIFO`: the slots passed to `pushRadioVector`, and the transceiver
afterwards.  `underrun i` is what `isUnderrun` answers in turn `i`; `fuel` bounds the turns. -/
def txLoop (clock : Time) (usrp1 : Bool) (minLatency : Time) :
    ℕ → (ℕ → Bool) → Transceiver n Q → Option (List Time × Transceiver n Q)
  | 0, _, _ => none
  | fuel + 1, underrun, t =>
    if (clock.add t.mTransmitLatency).gt t.mTransmitDeadlineClock then do
      let (nowTime, t) ← txTurn clock usrp1 minLatency (underrun 0) t
      let (slots, t) ← txLoop clock usrp1 minLatency fuel (fun i => underrun (i + 1)) t
      some (nowTime :: slots, t)
    else some ([], t)

/-- `driveTxFIFO`, while the radio clock stands at `clock`. -/
def driveTxFIFO (fuel : ℕ) (t : Transceiver n Q) (clock : Time) (usrp1 : Bool) (minLatency : Time)
    (underrun : ℕ → Bool) : Option (List Time × Transceiver n Q) :=
  if t.mOn then txLoop clock usrp1 minLatency fuel underrun t else some ([], t)

/-- The times of the loop are valid, and the filler tables are not left. -/
structure Paceable (t : Transceiver n Q) : Prop where
  latency : t.mTransmitLatency.Valid
  update : t.mLatencyUpdateTime.Valid
  deadline : t.mTransmitDeadlineClock.Valid
  table : InTable t

/-- What becomes of the latency and of the time it was changed last: nothing, or a frame more after
an underrun and more than 10 frames, or a slot less, down to the least latency, after more than 216
frames. -/
inductive Adapted (clock : Time) (usrp1 : Bool) (minLatency : Time) (t t' : Transceiver n Q) : Prop
  | kept (latency : t'.mTransmitLatency = t.mTransmitLatency)
      (update : t'.mLatencyUpdateTime = t.mLatencyUpdateTime)
  | grown (usrp1 : usrp1 = true) (due : clock.gt (t.mLatencyUpdateTime.add ⟨10, 0⟩) = true)
      (latency : t'.mTransmitLatency = t.mTransmitLatency.add ⟨1, 0⟩)
      (update : t'.mLatencyUpdateTime = clock)
  | shrunk (usrp1 : usrp1 = true) (due : clock.gt (t.mLatencyUpdateTime.add ⟨216, 0⟩) = true)
      (above : t.mTransmitLatency.gt minLatency = true)
      (latency : t'.mTransmitLatency = t.mTransmitLatency.decTN 1)
      (update : t'.mLatencyUpdateTime = clock)

variable {clock minLatency : Time} {usrp1 : Bool} {t t' : Transceiver n Q}

/-- What the latency control does. -/
theorem adapted_adapt (t : Transceiver n Q) (clock : Time) (usrp1 underrun : Bool)
    (minLatency : Time) :
    Adapted clock usrp1 minLatency t (adapt t clock usrp1 underrun minLatency) ∧
      ∃ latency update, adapt t clock usrp1 underrun minLatency =
        { t with mTransmitLatency := latency, mLatencyUpdateTime := update } := by
  unfold adapt latencyControl
  split_ifs with h1 h2 h3 h4 h5
  · exact ⟨.grown h1 h3 rfl rfl, _, _, rfl⟩
  · exact ⟨.kept rfl rfl, _, _, rfl⟩
  · exact ⟨.shrunk h1 h5 h4 rfl rfl, _, _, rfl⟩
  · exact ⟨.kept rfl rfl, _, _, rfl⟩
  · exact ⟨.kept rfl rfl, _, _, rfl⟩
  · exact ⟨.kept rfl rfl, _, _, rfl⟩

/-- A change is not due at the time of the last one. -/
theorem update_ne_of_due (hclock : clock.Valid) {update : Time} {frames : ℤ} (h0 : 0 ≤ frames)
    (hhalf : frames ≤ gHyperframe / 2) (hdue : clock.gt (update.add ⟨frames, 0⟩) = true) :
    update ≠ clock := by
  rintro rfl
  rw [Time.not_gt_addFrames hclock h0 hhalf] at hdue
  cases hdue

/-- **One change is the last**: after it no later one is due. -/
theorem Adapted.update_ne (hclock : clock.Valid) (h : Adapted clock usrp1 minLatency t t')
    (hupdate : t.mLatencyUpdateTime = clock) : t'.mTransmitLatency = t.mTransmitLatency ∧
      t'.mLatencyUpdateTime = t.mLatencyUpdateTime := by
  cases h with
  | kept hl hu => exact ⟨hl, hu⟩
  | grown _ hdue =>
    exact absurd hupdate (update_ne_of_due hclock (by norm_num) (by decide) hdue)
  | shrunk _ hdue =>
    exact absurd hupdate (update_ne_of_due hclock (by norm_num) (by decide) hdue)

theorem Adapted.trans (hclock : clock.Valid) {t'' : Transceiver n Q}
    (h : Adapted clock usrp1 minLatency t t') (h' : Adapted clock usrp1 minLatency t' t'') :
    Adapted clock usrp1 minLatency t t'' := by
  cases h with
  | kept hl hu =>
    cases h' with
    | kept hl' hu' => exact .kept (hl'.trans hl) (hu'.trans hu)
    | grown husrp hdue hl' hu' => exact .grown husrp (hu ▸ hdue) (hl ▸ hl') hu'
    | shrunk husrp hdue habove hl' hu' =>
      exact .shrunk husrp (hu ▸ hdue) (hl ▸ habove) (hl ▸ hl') hu'
  | grown husrp hdue hl hu =>
    obtain ⟨hl', hu'⟩ := h'.update_ne hclock hu
    exact .grown husrp hdue (hl'.trans hl) (hu'.trans hu)
  | shrunk husrp hdue habove hl hu =>
    obtain ⟨hl', hu'⟩ := h'.update_ne hclock hu
    exact .shrunk husrp hdue habove (hl'.trans hl) (hu'.trans hu)

theorem Adapted.valid (hclock : clock.Valid) (ht : Paceable t)
    (h : Adapted clock usrp1 minLatency t t') :
    t'.mTransmitLatency.Valid ∧ t'.mLatencyUpdateTime.Valid := by
  cases h with
  | kept hl hu => exact ⟨hl ▸ ht.latency, hu ▸ ht.update⟩
  | grown _ _ hl hu => exact ⟨hl ▸ Time.add_valid ht.latency (by decide), hu ▸ hclock⟩
  | shrunk _ _ _ hl hu =>
    exact ⟨hl ▸ Time.decTN_valid ht.latency (by norm_num) (by norm_num), hu ▸ hclock⟩

/-- How far the radio clock plus the latency is ahead of the deadline. -/
def lead (clock : Time) (t : Transceiver n Q) : ℤ :=
  Time.gap (clock.add t.mTransmitLatency) t.mTransmitDeadlineClock

/-- The frames of the lead. -/
def leadFrames (clock : Time) (t : Transceiver n Q) : ℤ :=
  FNDelta (clock.add t.mTransmitLatency).mFN t.mTransmitDeadlineClock.mFN

/-- The change of the latency that is still possible. -/
def pending (clock : Time) (t : Transceiver n Q) : ℕ :=
  if t.mLatencyUpdateTime = clock then 0 else 8

section Turn

variable (hclock : clock.Valid) (ht : Paceable t)
include hclock ht

/-- The lead after a turn that keeps the latency. -/
theorem lead_kept (hlatency : t'.mTransmitLatency = t.mTransmitLatency)
    (hdeadline : t'.mTransmitDeadlineClock = t.mTransmitDeadlineClock.incTN 1)
    (hpos : 0 < lead clock t) :
    lead clock t' = lead clock t - 1 ∧ leadFrames clock t' ≤ leadFrames clock t := by
  have hsum := Time.add_valid hclock ht.latency
  unfold lead leadFrames at *
  rw [hdeadline, hlatency]
  exact Time.gap_incTN_right hsum ht.deadline (by rw [gHyperframe_eq]; omega)

/-- The lead after a turn that adds a frame to the latency. -/
theorem lead_grown (hlatency : t'.mTransmitLatency = t.mTransmitLatency.add ⟨1, 0⟩)
    (hdeadline : t'.mTransmitDeadlineClock = t.mTransmitDeadlineClock.incTN 1)
    (hpos : 0 < lead clock t) :
    lead clock t' = lead clock t + 7 ∨
      lead clock t' < 0 ∧ ¬ leadFrames clock t + 1 < gHyperframe / 2 := by
  have hsum := Time.add_valid hclock ht.latency
  have hsum' := Time.add_valid hsum (show (⟨1, 0⟩ : Time).Valid by decide)
  have hnext := Time.incTN_valid ht.deadline (show (0 : ℤ) ≤ 1 by norm_num) (by norm_num)
  have hrange := Time.gap_range hsum ht.deadline
  unfold lead leadFrames at *
  rw [hdeadline, hlatency, Time.add_addFrame hclock ht.latency]
  by_cases hnear : FNDelta (clock.add t.mTransmitLatency).mFN t.mTransmitDeadlineClock.mFN + 1 <
      gHyperframe / 2
  · have hframe := Time.gap_addFrame_left hsum ht.deadline hpos.le
    rw [if_pos hnear] at hframe
    refine Or.inl ?_
    rw [(Time.gap_incTN_right hsum' ht.deadline (by rw [gHyperframe_eq]; omega)).1, hframe]
    omega
  · -- the lead is that of the frame and the push, modulo the hyperframe
    have hmod := Time.gap_emod hsum' hnext
    have hmod₀ := Time.gap_emod hsum ht.deadline
    have hrange' := Time.gap_range hsum' hnext
    rw [Time.slot_add hsum (by decide), Time.slot_incTN ht.deadline (by norm_num) (by norm_num),
      Int.emod_sub_emod, Int.sub_emod_emod] at hmod
    simp only [Time.hyperslots, Time.slot] at hmod hmod₀
    rw [gHyperframe_eq] at *
    omega

/-- The lead after a turn that takes a slot off the latency. -/
theorem lead_shrunk (hlatency : t'.mTransmitLatency = t.mTransmitLatency.decTN 1)
    (hdeadline : t'.mTransmitDeadlineClock = t.mTransmitDeadlineClock.incTN 1)
    (hpos : 0 < lead clock t) : lead clock t' = lead clock t - 2 := by
  have hsum := Time.add_valid hclock ht.latency
  have hsum' := Time.decTN_valid hsum (show (0 : ℤ) ≤ 1 by norm_num) (by norm_num)
  unfold lead at *
  have hslot := Time.gap_decTN_left hsum ht.deadline hpos
  rw [hdeadline, hlatency, Time.add_decTN hclock ht.latency,
    (Time.gap_incTN_right hsum' ht.deadline (by rw [gHyperframe_eq]; omega)).1, hslot]
  omega

/-- The lead after a turn. -/
theorem lead_turn (h : Adapted clock usrp1 minLatency t t')
    (hdeadline : t'.mTransmitDeadlineClock = t.mTransmitDeadlineClock.incTN 1)
    (hpos : 0 < lead clock t) :
    (lead clock t' = lead clock t - 1 ∧ leadFrames clock t' ≤ leadFrames clock t ∧
        pending clock t' = pending clock t) ∨
      (pending clock t = 8 ∧ pending clock t' = 0 ∧
        (lead clock t' = lead clock t + 7 ∨
          lead clock t' < 0 ∧ ¬ leadFrames clock t + 1 < gHyperframe / 2 ∨
          lead clock t' = lead clock t - 2)) := by
  cases h with
  | kept hl hu =>
    obtain ⟨hlead, hframes⟩ := lead_kept hclock ht hl hdeadline hpos
    exact Or.inl ⟨hlead, hframes, by rw [pending, pending, hu]⟩
  | grown _ hdue hl hu =>
    have hbefore := update_ne_of_due hclock (by norm_num) (by decide) hdue
    refine Or.inr ⟨if_neg hbefore, if_pos hu, ?_⟩
    rcases lead_grown hclock ht hl hdeadline hpos with hlead | hwrapped
    · exact Or.inl hlead
    · exact Or.inr (Or.inl hwrapped)
  | shrunk _ hdue _ hl hu =>
    have hbefore := update_ne_of_due hclock (by norm_num) (by decide) hdue
    exact Or.inr ⟨if_neg hbefore, if_pos hu,
      Or.inr (Or.inr (lead_shrunk hclock ht hl hdeadline hpos))⟩

end Turn

/-- What a turn does. -/
theorem turn_spec (usrp1 : Bool) (minLatency : Time) (underrun : Bool) (hclock : clock.Valid)
    (ht : Paceable t) :
    ∃ t', txTurn clock usrp1 minLatency underrun t = some (t.mTransmitDeadlineClock, t') ∧
      Paceable t' ∧ t'.mOn = t.mOn ∧
      t'.mTransmitDeadlineClock = t.mTransmitDeadlineClock.incTN 1 ∧
      Adapted clock usrp1 minLatency t t' := by
  obtain ⟨hadapted, latency, update, hsame⟩ := adapted_adapt t clock usrp1 underrun minLatency
  have hvalid := hadapted.valid hclock ht
  rw [hsame] at hadapted hvalid
  have htable : InTable { t with mTransmitLatency := latency, mLatencyUpdateTime := update } :=
    ⟨ht.table.modulus, ht.table.storable⟩
  obtain ⟨t₁, hpush, htable₁⟩ := inTable_push htable ht.deadline
  obtain ⟨⟨t₂, p⟩, hsome, rfl⟩ := Option.map_eq_some_iff.mp hpush
  obtain ⟨-, heq⟩ := pushRadioVector_eq_some hsome
  refine ⟨{ t₂ with mTransmitDeadlineClock := t₂.mTransmitDeadlineClock.incTN 1 }, ?_, ?_⟩
  · simp only [txTurn, hsame, hsome, Option.map_some]
  · subst heq
    exact
      ⟨{ latency := hvalid.1
         update := hvalid.2
         deadline := Time.incTN_valid ht.deadline (by norm_num) (by norm_num)
         table := ⟨htable₁.modulus, htable₁.storable⟩ },
        rfl, rfl, hadapted.trans hclock (.kept rfl rfl)⟩

/-- The numbers of `k` slots that follow each other, the first of them being `s`. -/
def slotsFrom (s : ℤ) (k : ℕ) : List ℤ := (List.range k).map fun i : ℕ => (s + i) % Time.hyperslots

theorem slotsFrom_add (s : ℤ) (j k : ℕ) :
    slotsFrom s (j + k) = slotsFrom s j ++ slotsFrom ((s + j) % Time.hyperslots) k := by
  simp only [slotsFrom, List.range_add, List.map_append, List.map_map]
  congr 1
  refine List.map_congr_left fun i _ => ?_
  rw [Function.comp_apply, Int.emod_add_emod, Nat.cast_add, add_assoc]

theorem slotsFrom_one {t : Time} (ht : t.Valid) : slotsFrom t.slot 1 = [t.slot] := by
  have hrange := Time.slot_range ht
  simp only [slotsFrom, List.range_one, List.map_cons, List.map_nil, Nat.cast_zero, add_zero,
    Int.emod_eq_of_lt hrange.1 hrange.2]

/-- What a call has done when it returns. -/
structure Returned (clock : Time) (usrp1 : Bool) (minLatency : Time) (t : Transceiver n Q)
    (slots : List Time) (t' : Transceiver n Q) : Prop where
  ready : Paceable t'
  on : t'.mOn = t.mOn
  valid : ∀ s ∈ slots, s.Valid
  /-- The slots pushed follow each other, from the deadline on … -/
  consecutive : slots.map Time.slot = slotsFrom t.mTransmitDeadlineClock.slot slots.length
  /-- … up to the new deadline. -/
  deadline : t'.mTransmitDeadlineClock.slot =
    (t.mTransmitDeadlineClock.slot + slots.length) % Time.hyperslots
  adapted : Adapted clock usrp1 minLatency t t'

/-- A call that pushes nothing. -/
theorem returned_nil (ht : Paceable t) : Returned clock usrp1 minLatency t [] t where
  ready := ht
  on := rfl
  valid s hs := by cases hs
  consecutive := rfl
  deadline := by
    have hrange := Time.slot_range ht.deadline
    rw [List.length_nil, Nat.cast_zero, add_zero, Int.emod_eq_of_lt hrange.1 hrange.2]
  adapted := .kept rfl rfl

/-- A turn in front of the turns of a call. -/
theorem Returned.cons (hclock : clock.Valid) (ht : Paceable t) {t₁ : Transceiver n Q}
    (hon : t₁.mOn = t.mOn)
    (hdeadline : t₁.mTransmitDeadlineClock = t.mTransmitDeadlineClock.incTN 1)
    (hadapted : Adapted clock usrp1 minLatency t t₁) {slots : List Time}
    (h : Returned clock usrp1 minLatency t₁ slots t') :
    Returned clock usrp1 minLatency t (t.mTransmitDeadlineClock :: slots) t' := by
  have hslot : t₁.mTransmitDeadlineClock.slot =
      (t.mTransmitDeadlineClock.slot + 1) % Time.hyperslots := by
    rw [hdeadline]
    exact Time.slot_incTN ht.deadline (by norm_num) (by norm_num)
  refine
    { ready := h.ready
      on := h.on.trans hon
      valid := fun s hs => ?_
      consecutive := ?_
      deadline := ?_
      adapted := hadapted.trans hclock h.adapted }
  · rcases List.mem_cons.mp hs with rfl | hs
    · exact ht.deadline
    · exact h.valid s hs
  · rw [List.map_cons, h.consecutive, List.length_cons, Nat.add_comm, slotsFrom_add,
      slotsFrom_one ht.deadline, hslot, Nat.cast_one, List.singleton_append]
  · rw [h.deadline, hslot, Int.emod_add_emod, List.length_cons, Nat.cast_succ]
    congr 1
    ring

/-- A lead of `-1` or more is not half a hyperframe back. -/
theorem near_of_lead (hclock : clock.Valid) (ht : Paceable t) (hge : -1 ≤ lead clock t) :
    -(gHyperframe / 2) < leadFrames clock t := by
  obtain ⟨-, hn, hn'⟩ := Time.add_valid hclock ht.latency
  obtain ⟨-, hd, hd'⟩ := ht.deadline
  unfold lead Time.gap at hge
  unfold leadFrames
  rw [gHyperframe_eq]
  omega

/-- **The loop returns** after at most as many turns as there are slots in the lead, with one frame
more for the change of the latency that is possible, and the deadline has caught up. -/
theorem loop_returns (usrp1 : Bool) (minLatency : Time) {fuel : ℕ} (underrun : ℕ → Bool)
    (hclock : clock.Valid) (ht : Paceable t)
    (hfuel : (lead clock t).toNat + pending clock t < fuel) :
    ∃ slots t', txLoop clock usrp1 minLatency fuel underrun t = some (slots, t') ∧
      Returned clock usrp1 minLatency t slots t' ∧ lead clock t' ≤ 0 ∧
      (-(gHyperframe / 2) < leadFrames clock t →
        leadFrames clock t + 1 < gHyperframe / 2 ∨ pending clock t = 0 →
          -(gHyperframe / 2) < leadFrames clock t') := by
  induction fuel generalizing t underrun with
  | zero => exact absurd hfuel (Nat.not_lt_zero _)
  | succ fuel ih =>
    have hsum := Time.add_valid hclock ht.latency
    by_cases hgt : (clock.add t.mTransmitLatency).gt t.mTransmitDeadlineClock = true
    · have hpos : 0 < lead clock t := (Time.gt_iff_gap hsum ht.deadline).mp hgt
      obtain ⟨t₁, hstep, hready, hon, hdeadline, hadapted⟩ :=
        turn_spec usrp1 minLatency (underrun 0) hclock ht
      have hturn := lead_turn hclock ht hadapted hdeadline hpos
      obtain ⟨slots, t', hloop, hret, hend, hfar⟩ :=
        ih (fun i => underrun (i + 1)) hready (by omega)
      refine ⟨t.mTransmitDeadlineClock :: slots, t', ?_,
        hret.cons hclock ht hon hdeadline hadapted, hend, fun hlo hnear => ?_⟩
      · rw [txLoop, if_pos hgt, hstep]
        simp only [Option.bind_eq_bind, Option.bind_some, hloop]
      · rcases hturn with ⟨hlead, hframes, hpend⟩ | ⟨hpend, hpend', hlead | ⟨-, hfar'⟩ | hlead⟩
        · exact hfar (near_of_lead hclock hready (by omega)) (by omega)
        · exact hfar (near_of_lead hclock hready (by omega)) (Or.inr hpend')
        · omega
        · exact hfar (near_of_lead hclock hready (by omega)) (Or.inr hpend')
    · have hle : lead clock t ≤ 0 :=
        not_lt.mp fun hpos => hgt ((Time.gt_iff_gap hsum ht.deadline).mpr hpos)
      refine ⟨[], t, by rw [txLoop, if_neg hgt], returned_nil ht, hle, fun hlo _ => hlo⟩

/-! ## Runs -/

/-- The transceiver, the radio clock with the slots it has run since the beginning, the slots passed
to `pushRadioVector`, and when the latency was raised last. -/
structure Pacing (n : ℕ) {V : Type} (Q : BurstQueue V) where
  trx : Transceiver n Q
  mClock : Time
  elapsed : ℕ
  pushed : List Time
  raised : Option ℕ

/-- A call of `driveTxFIFO` after the radio clock has moved on by some slots, with the answers of
`isUnderrun`; or what the other threads do to the transceiver between two calls. -/
inductive PaceEvent (n : ℕ) {V : Type} (Q : BurstQueue V)
  | call (advance : ℕ) (underrun : ℕ → Bool)
  | meanwhile (trx : Transceiver n Q)

/-- The radio clock some slots later. -/
def later (clock : Time) (advance : ℕ) : Time := (fun t => Time.incTN t 1)^[advance] clock

/-- One event.  A call that did not return would change nothing. -/
def paceStep (fuel : ℕ) (usrp1 : Bool) (minLatency : Time) (s : Pacing n Q) :
    PaceEvent n Q → Pacing n Q
  | .call advance underrun =>
    match driveTxFIFO fuel s.trx (later s.mClock advance) usrp1 minLatency underrun with
    | some (slots, t) =>
      { trx := t
        mClock := later s.mClock advance
        elapsed := s.elapsed + advance
        pushed := s.pushed ++ slots
        raised :=
          if t.mTransmitLatency = s.trx.mTransmitLatency.add ⟨1, 0⟩ then some (s.elapsed + advance)
          else s.raised }
    | none => s
  | .meanwhile t => { s with trx := t }

/-- What may happen.  When a call is made, clock plus latency is ahead of the deadline, and the
latency of the least latency, by less than half a hyperframe less one frame, and it is not half a
hyperframe behind.  The other threads leave the times of the loop alone. -/
def InReach (minLatency : Time) (s : Pacing n Q) : PaceEvent n Q → Prop
  | .call advance _ => s.trx.mOn = true →
      -(gHyperframe / 2) < leadFrames (later s.mClock advance) s.trx ∧
      leadFrames (later s.mClock advance) s.trx + 1 < gHyperframe / 2 ∧
      FNDelta s.trx.mTransmitLatency.mFN minLatency.mFN + 1 < gHyperframe / 2
  | .meanwhile t => t.mTransmitLatency = s.trx.mTransmitLatency ∧
      t.mLatencyUpdateTime = s.trx.mLatencyUpdateTime ∧
      t.mTransmitDeadlineClock = s.trx.mTransmitDeadlineClock ∧ InTable t

/-- A call returns, with the deadline not before clock plus latency.  The latency changes by at most
a frame up or a slot down, does not fall below the least latency, and is raised only if the clock
has moved by more than 10 frames since it was raised last. -/
def Paced (fuel : ℕ) (usrp1 : Bool) (minLatency : Time) (s : Pacing n Q) : PaceEvent n Q → Prop
  | .call advance underrun =>
    ∃ slots t, driveTxFIFO fuel s.trx (later s.mClock advance) usrp1 minLatency underrun =
        some (slots, t) ∧
      (s.trx.mOn = true →
        t.mTransmitDeadlineClock.lt ((later s.mClock advance).add t.mTransmitLatency) = false) ∧
      (t.mTransmitLatency = s.trx.mTransmitLatency ∨
        t.mTransmitLatency = s.trx.mTransmitLatency.add ⟨1, 0⟩ ∨
        t.mTransmitLatency = s.trx.mTransmitLatency.decTN 1) ∧
      (s.trx.mTransmitLatency.lt minLatency = false → t.mTransmitLatency.lt minLatency = false) ∧
      (t.mTransmitLatency = s.trx.mTransmitLatency.add ⟨1, 0⟩ →
        ∀ e ∈ s.raised, e + 10 * 8 < s.elapsed + advance)
  | .meanwhile _ => True

theorem later_valid {c : Time} (hc : c.Valid) (advance : ℕ) : (later c advance).Valid := by
  induction advance generalizing c with
  | zero => exact hc
  | succ a ih => exact ih (Time.incTN_valid hc (by norm_num) (by norm_num))

theorem slot_later {c : Time} (hc : c.Valid) (advance : ℕ) :
    (later c advance).slot = (c.slot + advance) % Time.hyperslots := by
  induction advance generalizing c with
  | zero =>
    have hrange := Time.slot_range hc
    rw [Nat.cast_zero, add_zero, Int.emod_eq_of_lt hrange.1 hrange.2]
    rfl
  | succ a ih =>
    have hnext := Time.incTN_valid hc (show (0 : ℤ) ≤ 1 by norm_num) (by norm_num)
    have hstep : later c (a + 1) = later (c.incTN 1) a := rfl
    rw [hstep, ih hnext, Time.slot_incTN hc (by norm_num) (by norm_num), Int.emod_add_emod,
      Nat.cast_succ]
    congr 1
    ring

/-- **A call returns.** -/
theorem call_returns (usrp1 : Bool) (minLatency : Time) {fuel : ℕ} (underrun : ℕ → Bool)
    (hfuel : Time.hyperslots ≤ fuel) (hclock : clock.Valid) (ht : Paceable t) :
    ∃ slots t', driveTxFIFO fuel t clock usrp1 minLatency underrun = some (slots, t') ∧
      Returned clock usrp1 minLatency t slots t' ∧
      (t.mOn = true → -(gHyperframe / 2) < leadFrames clock t →
        leadFrames clock t + 1 < gHyperframe / 2 →
          t'.mTransmitDeadlineClock.lt (clock.add t'.mTransmitLatency) = false) := by
  by_cases hon : t.mOn = true
  · have hsum := Time.add_valid hclock ht.latency
    have hrange := Time.gap_range hsum ht.deadline
    have hpending : pending clock t ≤ 8 := by unfold pending; split_ifs <;> omega
    have hturns : (lead clock t).toNat + pending clock t < fuel := by
      simp only [Time.hyperslots] at hfuel
      unfold lead
      rw [gHyperframe_eq] at *
      omega
    obtain ⟨slots, t', hloop, hret, hend, hfar⟩ :=
      loop_returns usrp1 minLatency underrun hclock ht hturns
    refine ⟨slots, t', by rw [driveTxFIFO, if_pos hon, hloop], hret, fun _ hlo hhi => ?_⟩
    have hsum' := Time.add_valid hclock hret.ready.latency
    have hswap := Time.gap_swap hsum' hret.ready.deadline (hfar hlo (Or.inl hhi))
    by_contra hcon
    have hneg := (Time.lt_iff_gap hret.ready.deadline hsum').mp (eq_true_of_ne_false hcon)
    unfold lead at hend
    omega
  · exact ⟨[], t, by rw [driveTxFIFO, if_neg hon], returned_nil ht, fun h => absurd h hon⟩

/-- The latency does not fall below the least latency. -/
theorem Adapted.not_below (ht : Paceable t) (hmin : minLatency.Valid)
    (h : Adapted clock usrp1 minLatency t t')
    (hreach : FNDelta t.mTransmitLatency.mFN minLatency.mFN + 1 < gHyperframe / 2)
    (habove : t.mTransmitLatency.lt minLatency = false) :
    t'.mTransmitLatency.lt minLatency = false := by
  have hgap : 0 ≤ Time.gap t.mTransmitLatency minLatency := by
    refine not_lt.mp fun hneg => ?_
    rw [(Time.lt_iff_gap ht.latency hmin).mpr hneg] at habove
    cases habove
  cases h with
  | kept hl _ => rw [hl]; exact habove
  | grown _ _ hl _ =>
    have hframe := Time.gap_addFrame_left ht.latency hmin hgap
    rw [if_pos hreach] at hframe
    rw [hl]
    by_contra hcon
    have hneg := (Time.lt_iff_gap (Time.add_valid ht.latency (by decide)) hmin).mp
      (eq_true_of_ne_false hcon)
    omega
  | shrunk _ _ hgt hl _ =>
    have hpos := (Time.gt_iff_gap ht.latency hmin).mp hgt
    have hslot := Time.gap_decTN_left ht.latency hmin hpos
    have hvalid := Time.decTN_valid ht.latency (show (0 : ℤ) ≤ 1 by norm_num) (by norm_num)
    rw [hl]
    by_contra hcon
    have hneg := (Time.lt_iff_gap hvalid hmin).mp (eq_true_of_ne_false hcon)
    omega

/-- The latency has been raised only if it is a frame more. -/
theorem Adapted.due_of_raised (ht : Paceable t) (h : Adapted clock usrp1 minLatency t t')
    (hraised : t'.mTransmitLatency = t.mTransmitLatency.add ⟨1, 0⟩) :
    clock.gt (t.mLatencyUpdateTime.add ⟨10, 0⟩) = true ∧ t'.mLatencyUpdateTime = clock := by
  have hslot := Time.slot_add ht.latency (show (⟨1, 0⟩ : Time).Valid by decide)
  have hrange := Time.slot_range ht.latency
  rw [← hraised] at hslot
  simp only [Time.slot, Time.hyperslots] at hslot hrange
  rw [gHyperframe_eq] at *
  cases h with
  | kept hl _ => rw [hl] at hslot; omega
  | grown _ hdue _ hu => exact ⟨hdue, hu⟩
  | shrunk _ _ _ hl _ =>
    have hdec := Time.slot_decTN ht.latency (show (0 : ℤ) ≤ 1 by norm_num) (by norm_num)
    rw [← hl] at hdec
    simp only [Time.slot, Time.hyperslots] at hdec
    rw [gHyperframe_eq] at *
    omega

/-- What a run keeps: the slots pushed follow each other up to the deadline, and the time of the
last change of the latency is not before its last raise. -/
structure Paces (first : Time) (s : Pacing n Q) : Prop where
  clock : s.mClock.Valid
  ready : Paceable s.trx
  valid : ∀ t ∈ s.pushed, t.Valid
  consecutive : s.pushed.map Time.slot = slotsFrom first.slot s.pushed.length
  deadline : s.trx.mTransmitDeadlineClock.slot = (first.slot + s.pushed.length) % Time.hyperslots
  raised : ∀ e ∈ s.raised, ∃ u, e ≤ u ∧ u ≤ s.elapsed ∧
    (s.mClock.slot - s.trx.mLatencyUpdateTime.slot) % Time.hyperslots =
      ((s.elapsed : ℤ) - u) % Time.hyperslots

section Steps

variable {fuel : ℕ} (hfuel : Time.hyperslots ≤ fuel) {first : Time} {s : Pacing n Q}
  (h : Paces first s)
include hfuel h

theorem Paces.paced (hmin : minLatency.Valid) {e : PaceEvent n Q}
    (hreach : InReach minLatency s e) : Paced fuel usrp1 minLatency s e := by
  cases e with
  | meanwhile t => trivial
  | call advance underrun =>
    have hclock := later_valid h.clock advance
    obtain ⟨slots, t, hcall, hret, hend⟩ :=
      call_returns usrp1 minLatency underrun hfuel hclock h.ready
    refine ⟨slots, t, hcall, fun hon => ?_, ?_, fun habove => ?_, fun hraised e he => ?_⟩
    · obtain ⟨hlo, hhi, -⟩ := hreach hon
      exact hend hon hlo hhi
    · cases hret.adapted with
      | kept hl => exact Or.inl hl
      | grown _ _ hl => exact Or.inr (Or.inl hl)
      | shrunk _ _ _ hl => exact Or.inr (Or.inr hl)
    · by_cases hon : s.trx.mOn = true
      · exact hret.adapted.not_below h.ready hmin (hreach hon).2.2 habove
      · rw [driveTxFIFO, if_neg hon, Option.some.injEq, Prod.mk.injEq] at hcall
        rw [← hcall.2]
        exact habove
    · obtain ⟨u, heu, hu, hmod⟩ := h.raised e he
      have hdue := (hret.adapted.due_of_raised h.ready hraised).1
      have hten : (⟨10, 0⟩ : Time).Valid := by decide
      have hsum := Time.add_valid h.ready.update hten
      have hpos := (Time.gt_iff_gap hclock hsum).mp hdue
      have hgap := Time.gap_emod hclock hsum
      have hrange := Time.gap_range hclock hsum
      have hslot : (⟨10, 0⟩ : Time).slot = 10 * 8 := by decide
      rw [Time.slot_add h.ready.update hten, slot_later h.clock, Int.emod_sub_emod,
        Int.sub_emod_emod, hslot] at hgap
      simp only [Time.hyperslots] at hgap hmod
      rw [gHyperframe_eq] at *
      omega

theorem Paces.step {e : PaceEvent n Q} (hreach : InReach minLatency s e) :
    Paces first (paceStep fuel usrp1 minLatency s e) := by
  cases e with
  | meanwhile t =>
    obtain ⟨hl, hu, hd, htable⟩ := hreach
    exact
      { clock := h.clock
        ready := ⟨hl ▸ h.ready.latency, hu ▸ h.ready.update, hd ▸ h.ready.deadline, htable⟩
        valid := h.valid
        consecutive := h.consecutive
        deadline := by simp only [paceStep, hd, h.deadline]
        raised := by simpa only [paceStep, hu] using h.raised }
  | call advance underrun =>
    have hclock := later_valid h.clock advance
    obtain ⟨slots, t, hcall, hret, -⟩ :=
      call_returns usrp1 minLatency underrun hfuel hclock h.ready
    simp only [paceStep, hcall]
    refine
      { clock := hclock
        ready := hret.ready
        valid := fun t ht => (List.mem_append.mp ht).elim (h.valid t) (hret.valid t)
        consecutive := ?_
        deadline := ?_
        raised := fun e he => ?_ }
    · rw [List.map_append, h.consecutive, hret.consecutive, h.deadline, List.length_append,
        slotsFrom_add]
    · simp only
      rw [hret.deadline, h.deadline, Int.emod_add_emod, List.length_append, Nat.cast_add, add_assoc]
    · simp only at he ⊢
      split_ifs at he with hraised
      · -- raised just now: the time of the change is the clock
        obtain rfl : s.elapsed + advance = e := Option.some.inj he
        refine ⟨s.elapsed + advance, le_refl _, le_refl _, ?_⟩
        rw [(hret.adapted.due_of_raised h.ready hraised).2, sub_self, sub_self]
      · obtain ⟨u, heu, hu, hmod⟩ := h.raised e he
        have hsame : t.mLatencyUpdateTime = s.trx.mLatencyUpdateTime ∨
            t.mLatencyUpdateTime = later s.mClock advance := by
          cases hret.adapted with
          | kept _ hupdate => exact Or.inl hupdate
          | grown _ _ _ hupdate => exact Or.inr hupdate
          | shrunk _ _ _ _ hupdate => exact Or.inr hupdate
        rcases hsame with hsame | hsame
        · refine ⟨u, heu, by omega, ?_⟩
          rw [hsame, slot_later h.clock, Int.emod_sub_emod,
            show s.mClock.slot + (advance : ℤ) - s.trx.mLatencyUpdateTime.slot =
              s.mClock.slot - s.trx.mLatencyUpdateTime.slot + advance by ring,
            ← Int.emod_add_emod, hmod, Int.emod_add_emod, Nat.cast_add]
          congr 1
          ring
        · refine ⟨s.elapsed + advance, by omega, le_refl _, ?_⟩
          rw [hsame, sub_self, sub_self]

end Steps

/-- A transceiver whose loop has not been called yet. -/
def Pacing.start (t : Transceiver n Q) (clock : Time) : Pacing n Q := ⟨t, clock, 0, [], none⟩

theorem paces_start (ht : Paceable t) (hclock : clock.Valid) :
    Paces t.mTransmitDeadlineClock (Pacing.start t clock) where
  clock := hclock
  ready := ht
  valid t ht := by cases ht
  consecutive := rfl
  deadline := by
    have hrange := Time.slot_range ht.deadline
    simp only [Pacing.start, List.length_nil, Nat.cast_zero, add_zero]
    exact (Int.emod_eq_of_lt hrange.1 hrange.2).symm
  raised e he := by cases he

/-- **The pace is kept.**  In every run of calls of `driveTxFIFO`, with whatever answers of
`isUnderrun` and whatever the other threads do in between, in which clock plus latency stays less
than half a hyperframe less one frame ahead of the deadline: every call returns and leaves the
deadline where it should be and the latency in its bounds, and the slots passed to `pushRadioVector`
in the whole run are consecutive. -/
theorem pacing_run (usrp1 : Bool) (hmin : minLatency.Valid) {fuel : ℕ}
    (hfuel : Time.hyperslots ≤ fuel) (ht : Paceable t) (hclock : clock.Valid)
    (events : List (PaceEvent n Q))
    (hevents : Run.Along (paceStep fuel usrp1 minLatency) (InReach minLatency)
      (Pacing.start t clock) events) :
    Run.Along (paceStep fuel usrp1 minLatency) (Paced fuel usrp1 minLatency)
        (Pacing.start t clock) events ∧
      let pushed := (Run.exec (paceStep fuel usrp1 minLatency) (Pacing.start t clock) events).pushed
      (∀ s ∈ pushed, s.Valid) ∧
        pushed.map Time.slot = slotsFrom t.mTransmitDeadlineClock.slot pushed.length := by
  have hstep (s : Pacing n Q) (e : PaceEvent n Q) (h : Paces t.mTransmitDeadlineClock s)
      (hreach : InReach minLatency s e) :
      Paces t.mTransmitDeadlineClock (paceStep fuel usrp1 minLatency s e) :=
    h.step hfuel hreach
  have h0 := paces_start ht hclock
  have hpaced : Run.Along (paceStep fuel usrp1 minLatency) (Paced fuel usrp1 minLatency)
      (Pacing.start t clock) events :=
    Run.along_of_invariant hstep (fun s e h hreach => h.paced hfuel hmin hreach) h0 hevents
  have hlast := Run.invariant_exec hstep h0 hevents
  exact ⟨hpaced, hlast.valid, hlast.consecutive⟩

/-- A transceiver that is on, with the given times. -/
def pacedTrx (latency update deadline : Time) :
    Transceiver 1 (listQueue (pointerCompare (V := Unit))) :=
  { dummyTrx with
    mOn := true
    mTransmitLatency := latency
    mLatencyUpdateTime := update
    mTransmitDeadlineClock := deadline }

theorem paceable_pacedTrx {latency update deadline : Time} (hl : latency.Valid) (hu : update.Valid)
    (hd : deadline.Valid) : Paceable (pacedTrx latency update deadline) where
  latency := hl
  update := hu
  deadline := hd
  table := by
    have htable := inTable_of_initial (initial_init (n := 1) (Q := listQueue (pointerCompare))
      (fun _ _ _ => ()) .FILLER_DUMMY 1 ⟨0, 0⟩ ⟨0, 0⟩ false false)
    exact ⟨htable.modulus, htable.storable⟩

/-- A latency of two frames, at the end of the hyperframe. -/
theorem pacing_run_wrap :
    Run.Along (paceStep 21725184 true ⟨1, 1⟩) (Paced 21725184 true ⟨1, 1⟩)
        (Pacing.start (pacedTrx ⟨2, 0⟩ ⟨2715600, 0⟩ ⟨2715647, 7⟩) ⟨2715646, 0⟩)
        [.call 9 fun _ => true] ∧
      let pushed := (Run.exec (paceStep 21725184 true ⟨1, 1⟩)
        (Pacing.start (pacedTrx ⟨2, 0⟩ ⟨2715600, 0⟩ ⟨2715647, 7⟩) ⟨2715646, 0⟩)
        [.call 9 fun _ => true]).pushed
      (∀ s ∈ pushed, s.Valid) ∧
        pushed.map Time.slot = slotsFrom (⟨2715647, 7⟩ : Time).slot pushed.length :=
  pacing_run true (by decide) (by decide) (paceable_pacedTrx (by decide) (by decide) (by decide))
    (by decide) _ ⟨fun _ => by decide +kernel, trivial⟩

/-- Two times less than half a hyperframe apart. -/
def Close (t u : Time) : Prop :=
  |Time.gap t u| < 4 * gHyperframe ∧ |Time.gap u t| < 4 * gHyperframe

instance (t u : Time) : Decidable (Close t u) := inferInstanceAs (Decidable (_ ∧ _))

/-- **Less than half a hyperframe is not enough.**  Clock plus latency is half a hyperframe less one
frame ahead of the deadline when an underrun adds a frame: the loop ends after one push, with the
deadline before clock plus latency.  And a latency that is half a hyperframe less one frame above
the least latency is below it after it has been raised. -/
theorem half_hyperframe_ahead :
    (Close ((⟨100, 0⟩ : Time).add ⟨1357723, 0⟩) ⟨0, 0⟩ ∧
      Close ((⟨100, 0⟩ : Time).add ⟨1357723, 0⟩) ⟨50, 0⟩ ∧ Close ⟨50, 0⟩ ⟨0, 0⟩ ∧
      (driveTxFIFO 2 (pacedTrx ⟨1357723, 0⟩ ⟨50, 0⟩ ⟨0, 0⟩) ⟨100, 0⟩ true ⟨1, 1⟩
        fun _ => true).map (fun r => (r.1, r.2.mTransmitLatency, r.2.mTransmitDeadlineClock)) =
          some ([⟨0, 0⟩], ⟨1357724, 0⟩, ⟨0, 1⟩) ∧
      (⟨0, 1⟩ : Time).lt ((⟨100, 0⟩ : Time).add ⟨1357724, 0⟩) = true) ∧
    (Close ((⟨100, 0⟩ : Time).add ⟨1357824, 1⟩) ⟨1357924, 0⟩ ∧
      Close ((⟨100, 0⟩ : Time).add ⟨1357824, 1⟩) ⟨80, 0⟩ ∧ Close ⟨80, 0⟩ ⟨1357924, 0⟩ ∧
      (driveTxFIFO 11 (pacedTrx ⟨1357824, 1⟩ ⟨80, 0⟩ ⟨1357924, 0⟩) ⟨100, 0⟩ true ⟨1, 1⟩
        fun _ => true).map (fun r => r.2.mTransmitLatency) = some ⟨1357825, 1⟩ ∧
      (⟨1357824, 1⟩ : Time).lt ⟨1, 1⟩ = false ∧ (⟨1357825, 1⟩ : Time).lt ⟨1, 1⟩ = true) := by
  decide +kernel

end Trx
end OsmoTrx
