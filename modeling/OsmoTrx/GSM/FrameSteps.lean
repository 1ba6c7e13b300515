import OsmoTrx.GSM.Time

/-!
# Steps of many frames

`operator+=`, `operator+` and `operator-` of `GSM::Time` for a number of frames.  The frame number
is an `int` that is corrected once, and the remainder is taken of an `unsigned`; `none` is an
overflow of `int`.

* `addAssign_eq` — what is left below zero after the correction goes through `unsigned`.
* `addAssign_iff`, `subFrames_iff` — a step is one modulo the hyperframe just if it goes back by
  less than a hyperframe beyond frame zero.
* `subFrames_addFrames_iff` — when a step is undone.
* `frame_steps_iff` — **when steps are modular**, all operators together.
-/

namespace OsmoTrx
namespace GSM
namespace Time

/-- `operator+=(step)`. -/
def addAssign (t : Time) (step : ℤ) : Option Time := do
  let mFN ← checkedInt (t.mFN + step)
  let mFN := if mFN < 0 then i32 (u32 mFN + gHyperframe) else mFN
  some ⟨i32 (u32 mFN % gHyperframe), t.mTN⟩

/-- `operator+(step)`. -/
def addFrames (t : Time) (step : ℤ) : Option Time :=
  let newVal := t
  newVal.addAssign step

/-- `operator-(step)`. -/
def subFrames (t : Time) (step : ℤ) : Option Time := do
  let step ← checkedInt (-step)
  t.addFrames step

/-! ## What the operators compute -/

/-- The sum fits in an `int`. -/
def Fits (x : ℤ) : Prop := -2 ^ 31 ≤ x ∧ x < 2 ^ 31

instance (x : ℤ) : Decidable (Fits x) := inferInstanceAs (Decidable (_ ∧ _))

theorem checkedInt_of_fits {x : ℤ} (h : Fits x) : checkedInt x = some x := if_pos h

theorem checkedInt_of_not_fits {x : ℤ} (h : ¬ Fits x) : checkedInt x = none := if_neg h

variable {t : Time} {step : ℤ}

/-- **The remainder** is that of the sum, or of the sum as an `unsigned` where one hyperframe is not
enough to make it positive. -/
theorem addAssign_eq (h : Fits (t.mFN + step)) :
    t.addAssign step =
      some ⟨(if t.mFN + step < -gHyperframe then t.mFN + step + 2 ^ 32 else t.mFN + step) %
        gHyperframe, t.mTN⟩ := by
  simp only [addAssign, checkedInt_of_fits h, Option.bind_eq_bind, Option.bind_some]
  obtain ⟨hlo, hhi⟩ := h
  have hsmall : ∀ x : ℤ, i32 (x % gHyperframe) = x % gHyperframe := by
    intro x
    rw [gHyperframe_eq]
    exact i32_eq_self (by omega) (by omega)
  rw [hsmall]
  have hcorrected : t.mFN + step < 0 →
      i32 (u32 (t.mFN + step) + gHyperframe) = t.mFN + step + gHyperframe := by
    intro hneg
    have hu : u32 (t.mFN + step) = t.mFN + step + 2 ^ 32 := by
      unfold u32
      omega
    rw [hu, add_right_comm, gHyperframe_eq]
    unfold i32
    rw [show ((2 : ℤ) ^ 32) = ((2 ^ 32 : ℕ) : ℤ) by norm_num, Int.add_bmod_right]
    exact i32_eq_self (by omega) (by omega)
  by_cases hneg : t.mFN + step < 0
  · rw [if_pos hneg, hcorrected hneg]
    by_cases hfar : t.mFN + step < -gHyperframe
    · -- still negative: 2³² more
      rw [if_pos hfar, gHyperframe_eq] at *
      have hu : u32 (t.mFN + step + 2715648) = t.mFN + step + 2715648 + 2 ^ 32 := by
        unfold u32
        omega
      rw [hu, add_right_comm, Int.add_emod_right]
    · rw [if_neg hfar, gHyperframe_eq] at *
      rw [u32_eq_self (by omega) (by omega), Int.add_emod_right]
  · rw [if_neg hneg, u32_eq_self (by omega) (by omega), if_neg (by rw [gHyperframe_eq]; omega)]

theorem addAssign_of_not_fits (h : ¬ Fits (t.mFN + step)) : t.addAssign step = none := by
  simp only [addAssign, checkedInt_of_not_fits h, Option.bind_eq_bind, Option.bind_none]

/-- The time that lies a number of frames away, modulo the hyperframe. -/
def ShiftedBy (t u : Time) (frames : ℤ) : Prop :=
  u.Valid ∧ u.mTN = t.mTN ∧ u.mFN ≡ t.mFN + frames [ZMOD gHyperframe]

instance (t u : Time) (frames : ℤ) : Decidable (ShiftedBy t u frames) :=
  inferInstanceAs (Decidable (_ ∧ _ ∧ _))

/-- The hyperframe does not divide 2³². -/
theorem not_modEq_add_pow (x : ℤ) : ¬ x + 2 ^ 32 ≡ x [ZMOD gHyperframe] := by
  unfold Int.ModEq
  rw [gHyperframe_eq]
  omega

theorem valid_emod (ht : t.Valid) (x : ℤ) : Valid ⟨x % gHyperframe, t.mTN⟩ :=
  ⟨⟨Int.emod_nonneg _ (by decide), Int.emod_lt_of_pos _ (by decide)⟩, ht.2⟩

/-- **A step that fits** is one modulo the hyperframe just if it goes back no further than a
hyperframe beyond frame zero. -/
theorem addAssign_iff (ht : t.Valid) (h : Fits (t.mFN + step)) :
    (∃ u, t.addAssign step = some u ∧ t.ShiftedBy u step) ↔ -gHyperframe ≤ t.mFN + step := by
  rw [addAssign_eq h]
  by_cases hfar : t.mFN + step < -gHyperframe
  · rw [if_pos hfar, iff_false_right (not_le.mpr hfar)]
    rintro ⟨u, hu, -, -, hmod⟩
    cases hu
    exact not_modEq_add_pow (t.mFN + step) ((Int.mod_modEq _ _).symm.trans hmod)
  · rw [if_neg hfar, iff_true_right (not_lt.mp hfar)]
    exact ⟨_, rfl, valid_emod ht _, rfl, Int.mod_modEq _ _⟩

theorem subFrames_eq (hneg : Fits (-step)) : t.subFrames step = t.addAssign (-step) := by
  simp only [subFrames, checkedInt_of_fits hneg, Option.bind_eq_bind, Option.bind_some, addFrames]

/-- **A step back**, which must not be too far and not overflow. -/
theorem subFrames_iff (ht : t.Valid) (hneg : Fits (-step)) :
    (∃ u, t.subFrames step = some u ∧ t.ShiftedBy u (-step)) ↔
      -gHyperframe ≤ t.mFN - step ∧ t.mFN - step < 2 ^ 31 := by
  rw [subFrames_eq hneg]
  by_cases hfits : Fits (t.mFN + -step)
  · rw [addAssign_iff ht hfits, ← sub_eq_add_neg, iff_self_and]
    exact fun _ => sub_eq_add_neg t.mFN step ▸ hfits.2
  · rw [addAssign_of_not_fits hfits, iff_false_left (by simp)]
    rintro ⟨hlo, hhi⟩
    rw [gHyperframe_eq] at hlo
    exact hfits ⟨by omega, by omega⟩

/-- A time is a step away from itself just if the step is a multiple of the hyperframe. -/
theorem eq_of_shiftedBy {u : Time} (ht : t.Valid) (h : t.ShiftedBy u 0) : u = t := by
  obtain ⟨⟨⟨hul, huh⟩, -⟩, htn, hmod⟩ := h
  obtain ⟨⟨htl, hth⟩, -⟩ := ht
  rw [add_zero] at hmod
  have hfn : u.mFN = t.mFN := by
    rw [Int.ModEq, Int.emod_eq_of_lt hul huh, Int.emod_eq_of_lt htl hth] at hmod
    exact hmod
  obtain ⟨uf, un⟩ := u
  obtain ⟨tf, tn⟩ := t
  simp only at hfn htn
  rw [hfn, htn]

theorem ShiftedBy.trans {u v : Time} {k l : ℤ} (h : t.ShiftedBy u k) (h' : u.ShiftedBy v l) :
    t.ShiftedBy v (k + l) := by
  refine ⟨h'.1, h'.2.1.trans h.2.1, h'.2.2.trans ?_⟩
  rw [← add_assoc]
  exact h.2.2.add_right l

/-- A step that was wrong by 2³² is not undone: the way back is right. -/
theorem subFrames_far_ne (ht : t.Valid) (hneg : Fits (-step))
    (hfar : t.mFN + step < -gHyperframe) :
    subFrames ⟨(t.mFN + step + 2 ^ 32) % gHyperframe, t.mTN⟩ step ≠ some t := by
  rw [subFrames_eq hneg]
  intro hback
  have hvalid := valid_emod ht (t.mFN + step + 2 ^ 32)
  by_cases hfits : Fits ((t.mFN + step + 2 ^ 32) % gHyperframe + -step)
  · have hnear : -gHyperframe ≤ (t.mFN + step + 2 ^ 32) % gHyperframe + -step := by
      have hnonneg := hvalid.1.1
      have htl := ht.1.1
      have hpos : 0 < gHyperframe := by decide
      simp only at hnonneg
      linarith
    obtain ⟨u, hu, -, -, hmod⟩ := (addAssign_iff hvalid hfits).mpr hnear
    rw [hback, Option.some.injEq] at hu
    subst hu
    have hback' : t.mFN ≡ t.mFN + 2 ^ 32 [ZMOD gHyperframe] := by
      refine hmod.trans ((Int.ModEq.add_right (-step) (Int.mod_modEq _ _)).trans ?_)
      rw [show t.mFN + step + 2 ^ 32 + -step = t.mFN + 2 ^ 32 by ring]
    exact not_modEq_add_pow t.mFN hback'.symm
  · rw [addAssign_of_not_fits hfits] at hback
    exact absurd hback (by simp)

/-- **When a step is undone**: neither the step nor the way back may be too far. -/
theorem subFrames_addFrames_iff (ht : t.Valid) (h : Fits (t.mFN + step)) (hneg : Fits (-step)) :
    (t.addFrames step).bind (fun u => u.subFrames step) = some t ↔
      -gHyperframe ≤ t.mFN + step ∧ step ≤ gHyperframe + (t.mFN + step) % gHyperframe := by
  have hfn := ht.1
  rw [addFrames, addAssign_eq h, Option.bind_some]
  by_cases hfar : t.mFN + step < -gHyperframe
  · rw [if_pos hfar, iff_false_right (fun hc => absurd hc.1 (not_le.mpr hfar))]
    exact subFrames_far_ne ht hneg hfar
  · rw [if_neg hfar, and_iff_right (not_lt.mp hfar)]
    have hvalid := valid_emod ht (t.mFN + step)
    have hforth : t.ShiftedBy ⟨(t.mFN + step) % gHyperframe, t.mTN⟩ step :=
      ⟨hvalid, rfl, Int.mod_modEq _ _⟩
    have hiff := subFrames_iff hvalid hneg
    constructor
    · intro hback
      have hshift : ∃ u, subFrames ⟨(t.mFN + step) % gHyperframe, t.mTN⟩ step = some u ∧
          ShiftedBy ⟨(t.mFN + step) % gHyperframe, t.mTN⟩ u (-step) := by
        refine ⟨t, hback, ht, rfl, ?_⟩
        unfold Int.ModEq
        rw [Int.emod_add_emod, add_neg_cancel_right]
      have hlo := (hiff.mp hshift).1
      linarith
    · intro hstep
      have hhi : (t.mFN + step) % gHyperframe - step < 2 ^ 31 := by
        rw [ValidFN, gHyperframe_eq] at *
        omega
      obtain ⟨u, hu, hshift⟩ := hiff.mpr ⟨by linarith, hhi⟩
      rw [hu, Option.some.injEq]
      exact eq_of_shiftedBy ht (by simpa using hforth.trans hshift)

/-- **When steps of many frames are modular**, for a sum and a negated step that fit in an `int`. -/
theorem frame_steps_iff (ht : t.Valid) (h : Fits (t.mFN + step)) (hneg : Fits (-step)) :
    ((∃ u, t.addAssign step = some u ∧ t.ShiftedBy u step) ↔ -gHyperframe ≤ t.mFN + step) ∧
      ((∃ u, t.addFrames step = some u ∧ t.ShiftedBy u step) ↔ -gHyperframe ≤ t.mFN + step) ∧
      ((∃ u, t.subFrames step = some u ∧ t.ShiftedBy u (-step)) ↔
        -gHyperframe ≤ t.mFN - step ∧ t.mFN - step < 2 ^ 31) ∧
      ((t.addFrames step).bind (fun u => u.subFrames step) = some t ↔
        -gHyperframe ≤ t.mFN + step ∧ step ≤ gHyperframe + (t.mFN + step) % gHyperframe) :=
  ⟨addAssign_iff ht h, addAssign_iff ht h, subFrames_iff ht hneg, subFrames_addFrames_iff ht h hneg⟩

/-- Back across frame zero and forth again. -/
theorem frame_steps_back :
    (∃ u, addFrames ⟨2, 5⟩ (-7) = some u ∧ ShiftedBy ⟨2, 5⟩ u (-7)) ∧
      (addFrames ⟨2, 5⟩ (-7)).bind (fun u => u.subFrames (-7)) = some ⟨2, 5⟩ := by
  obtain ⟨-, hadd, -, hundo⟩ := frame_steps_iff (show Valid ⟨2, 5⟩ by decide)
    (show Fits (2 + -7) by decide) (show Fits (- -7) by decide)
  exact ⟨hadd.mpr (by decide), hundo.mpr (by decide)⟩

/-- A hyperframe and a frame back from frame zero is frame 1527807, and not the last one. -/
theorem frame_steps_far :
    Valid ⟨0, 0⟩ ∧ Fits (0 + -2715649) ∧ addFrames ⟨0, 0⟩ (-2715649) = some ⟨1527807, 0⟩ ∧
      ¬ ∃ u, addFrames ⟨0, 0⟩ (-2715649) = some u ∧ ShiftedBy ⟨0, 0⟩ u (-2715649) := by
  refine ⟨by decide, by decide, by decide, ?_⟩
  rintro ⟨u, hu, hshift⟩
  cases hu
  exact absurd hshift (by decide)

end Time
end GSM
end OsmoTrx
