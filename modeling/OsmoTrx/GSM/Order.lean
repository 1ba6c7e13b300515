import OsmoTrx.GSM.Time

/-!
# The order of GSM times

The five comparisons of `GSM::Time`.  Each has a branch of its own for equal frame
numbers and leaves the others to `FNCompare`, which is circular: it is no order on the
hyperframe, and two questions are asked of it.

* Where it is antisymmetric: `FNCompare_antisymm_iff` and `trichotomous_iff` say that it
  is so for every two frame numbers but those exactly half a hyperframe apart, for
  which each counts as before the other (`FNCompare_of_half`).
* Where it is an order: on the times less than half a hyperframe after a start slot
  (`InWindow`), where the five operators compare the number of slots since the start
  (`lt_iff_offset` and its companions), whether or not the window contains the wrap.
-/

namespace OsmoTrx
namespace GSM

/-! ## Frame numbers half a hyperframe apart -/

/-- Two frame numbers exactly half a hyperframe apart. -/
def HalfApart (a b : ℤ) : Prop := (a - b) % gHyperframe = gHyperframe / 2

instance (a b : ℤ) : Decidable (HalfApart a b) := inferInstanceAs (Decidable (_ = _))

theorem HalfApart.symm {a b : ℤ} (h : HalfApart a b) : HalfApart b a := by
  unfold HalfApart at *
  rw [gHyperframe_eq] at *
  omega

theorem HalfApart.ne {a b : ℤ} (h : HalfApart a b) : a ≠ b := by
  rintro rfl
  rw [HalfApart, sub_self] at h
  exact absurd h (by decide)

/-- `FNCompare` is the sign of `FNDelta`. -/
theorem FNCompare_eq_sign (a b : ℤ) : FNCompare a b = (FNDelta a b).sign := by
  simp only [FNCompare]
  split_ifs with hpos hneg
  · exact (Int.sign_eq_one_of_pos hpos).symm
  · exact (Int.sign_eq_neg_one_of_neg hneg).symm
  · rw [show FNDelta a b = 0 by omega, Int.sign_zero]

section Frames

variable {a b : ℤ} (ha : ValidFN a) (hb : ValidFN b)
include ha hb

/-- Half a hyperframe apart the difference is `-H/2`, whichever number comes first. -/
theorem FNDelta_eq_neg_half_iff : FNDelta a b = -(gHyperframe / 2) ↔ HalfApart a b := by
  have hmod := FNDelta_emod ha hb
  have hmem := FNDelta_mem ha hb
  unfold HalfApart
  rw [gHyperframe_eq] at *
  omega

theorem FNDelta_symm (h : ¬ HalfApart a b) : FNDelta b a = -FNDelta a b := by
  have hne : FNDelta a b ≠ -(gHyperframe / 2) := fun heq =>
    h ((FNDelta_eq_neg_half_iff ha hb).mp heq)
  have hab := FNDelta_emod ha hb
  have hba := FNDelta_emod hb ha
  have hma := FNDelta_mem ha hb
  have hmb := FNDelta_mem hb ha
  rw [gHyperframe_eq] at *
  omega

theorem FNCompare_of_half (h : HalfApart a b) : FNCompare a b = -1 := by
  rw [FNCompare_eq_sign, (FNDelta_eq_neg_half_iff ha hb).mpr h]
  decide

theorem FNCompare_symm (h : ¬ HalfApart a b) : FNCompare b a = -FNCompare a b := by
  rw [FNCompare_eq_sign, FNCompare_eq_sign, FNDelta_symm ha hb h, Int.sign_neg]

/-- **`FNCompare` is antisymmetric just where the distance is not half a hyperframe.** -/
theorem FNCompare_antisymm_iff : FNCompare a b = -FNCompare b a ↔ ¬ HalfApart a b := by
  constructor
  · intro heq hhalf
    rw [FNCompare_of_half ha hb hhalf, FNCompare_of_half hb ha hhalf.symm] at heq
    exact absurd heq (by decide)
  · intro h
    rw [FNCompare_symm ha hb h, neg_neg]

theorem FNCompare_eq_zero_iff : FNCompare a b = 0 ↔ a = b := by
  rw [FNCompare_eq_sign, Int.sign_eq_zero_iff_zero, FNDelta_eq_zero_iff ha hb]

end Frames

namespace Time

/-! ## The other operators -/

/-- `operator<=`. -/
def le (t other : Time) : Bool :=
  if t.mFN = other.mFN then t.mTN ≤ other.mTN else FNCompare t.mFN other.mFN ≤ 0

/-- `operator>=`. -/
def ge (t other : Time) : Bool :=
  if t.mFN = other.mFN then t.mTN ≥ other.mTN else FNCompare t.mFN other.mFN ≥ 0

/-- `operator==`. -/
def eq (t other : Time) : Bool := t.mFN = other.mFN && t.mTN = other.mTN

theorem eq_iff (t u : Time) : t.eq u = true ↔ t = u := by
  obtain ⟨tf, tn⟩ := t
  obtain ⟨uf, un⟩ := u
  simp [eq]

/-- `<=` is the negation of `>`, for all times … -/
theorem le_eq_not_gt (t u : Time) : t.le u = !t.gt u := by
  unfold le gt
  by_cases hfn : t.mFN = u.mFN
  · rw [if_pos hfn, if_pos hfn, ← decide_not, decide_eq_decide, not_lt]
  · rw [if_neg hfn, if_neg hfn, ← decide_not, decide_eq_decide, not_lt]

/-- … and `>=` that of `<`. -/
theorem ge_eq_not_lt (t u : Time) : t.ge u = !t.lt u := by
  unfold ge lt
  by_cases hfn : t.mFN = u.mFN
  · rw [if_pos hfn, if_pos hfn, ← decide_not, decide_eq_decide, not_lt]
  · rw [if_neg hfn, if_neg hfn, ← decide_not, decide_eq_decide, not_lt]

theorem lt_self_false (t : Time) : t.lt t = false := by simp [lt]

/-! ## Trichotomy -/

/-- Exactly one of `t < u`, `t == u` and `u < t` holds. -/
def Trichotomous (t u : Time) : Prop :=
  (t.lt u = true ∧ t.eq u = false ∧ u.lt t = false) ∨
  (t.lt u = false ∧ t.eq u = true ∧ u.lt t = false) ∨
  (t.lt u = false ∧ t.eq u = false ∧ u.lt t = true)

section Pair

variable {t u : Time} (ht : t.Valid) (hu : u.Valid)
include ht hu

/-- Half a hyperframe apart each of two times is before the other. -/
theorem lt_of_half (h : HalfApart t.mFN u.mFN) : t.lt u = true := by
  rw [lt, if_neg h.ne, FNCompare_of_half ht.1 hu.1 h]
  decide

theorem gt_eq_lt_of_not_half (h : ¬ HalfApart t.mFN u.mFN) : t.gt u = u.lt t :=
  gt_eq_lt t u ht hu fun heq => h ((FNDelta_eq_neg_half_iff ht.1 hu.1).mp heq)

/-- Of times that are neither equal nor half a hyperframe apart, one is the earlier. -/
theorem lt_eq_not_lt (hne : t ≠ u) (h : ¬ HalfApart t.mFN u.mFN) : t.lt u = !u.lt t := by
  have hsymm := FNCompare_symm ht.1 hu.1 h
  have hzero := FNCompare_eq_zero_iff ht.1 hu.1
  unfold lt
  by_cases hfn : t.mFN = u.mFN
  · have htn : t.mTN ≠ u.mTN := by
      intro htn
      exact hne ((eq_iff t u).mp (by simp [eq, hfn, htn]))
    rw [if_pos hfn, if_pos hfn.symm, ← decide_not, decide_eq_decide]
    omega
  · have hcmp : FNCompare t.mFN u.mFN ≠ 0 := fun h0 => hfn (hzero.mp h0)
    rw [if_neg hfn, if_neg (Ne.symm hfn), ← decide_not, decide_eq_decide]
    omega

/-- **Trichotomy holds just where the frames are not half a hyperframe apart.** -/
theorem trichotomous_iff : Trichotomous t u ↔ ¬ HalfApart t.mFN u.mFN := by
  constructor
  · intro htri hhalf
    have htu := lt_of_half ht hu hhalf
    have hut := lt_of_half hu ht hhalf.symm
    simp [Trichotomous, htu, hut] at htri
  · intro h
    by_cases heq : t = u
    · subst heq
      exact Or.inr (Or.inl ⟨lt_self_false t, (eq_iff t t).mpr rfl, lt_self_false t⟩)
    · have hne : t.eq u = false := by
        rw [← Bool.not_eq_true, eq_iff]
        exact heq
      have hlt := lt_eq_not_lt ht hu heq h
      cases hut : u.lt t with
      | true => exact Or.inr (Or.inr ⟨by rw [hlt, hut]; rfl, hne, hut⟩)
      | false => exact Or.inl ⟨by rw [hlt, hut]; rfl, hne, hut⟩

/-- **And so does the equivalence of `t <= u` with `not (u < t)`.** -/
theorem le_iff_not_lt_iff : (t.le u = !u.lt t) ↔ ¬ HalfApart t.mFN u.mFN := by
  constructor
  · intro hle hhalf
    rw [lt_of_half hu ht hhalf.symm, le, if_neg hhalf.ne,
      FNCompare_of_half ht.1 hu.1 hhalf] at hle
    exact absurd hle (by decide)
  · intro h
    rw [le_eq_not_gt, gt_eq_lt_of_not_half ht hu h]

end Pair

/-! ## Windows -/

/-- A valid time whose frame is fewer than half a hyperframe after that of `start`,
counted forward through the wrap. -/
structure InWindow (start t : Time) : Prop where
  valid : t.Valid
  after : (t.mFN - start.mFN) % gHyperframe < gHyperframe / 2

instance (start t : Time) : Decidable (InWindow start t) :=
  decidable_of_iff (t.Valid ∧ (t.mFN - start.mFN) % gHyperframe < gHyperframe / 2)
    ⟨fun ⟨h1, h2⟩ => ⟨h1, h2⟩, fun ⟨h1, h2⟩ => ⟨h1, h2⟩⟩

/-- Slots from `start` to a time of its window. -/
def offset (start t : Time) : ℤ :=
  8 * ((t.mFN - start.mFN) % gHyperframe) + (t.mTN - start.mTN)

/-- The offset is the difference of the two places in the hyperframe, modulo its slots. -/
theorem offset_emod (start t : Time) :
    start.offset t % hyperslots = (t.slot - start.slot) % hyperslots := by
  simp only [offset, slot, hyperslots]
  rw [gHyperframe_eq]
  omega

section Window

variable {start : Time} (hs : start.Valid)
include hs

/-- In the window `FNDelta` from the start never takes its negative branch. -/
theorem InWindow.FNDelta_eq {t : Time} (ht : InWindow start t) :
    FNDelta t.mFN start.mFN = (t.mFN - start.mFN) % gHyperframe := by
  have hmod := FNDelta_emod ht.valid.1 hs.1
  have hmem := FNDelta_mem ht.valid.1 hs.1
  have hafter := ht.after
  rw [gHyperframe_eq] at *
  omega

theorem InWindow.key_eq {t : Time} (ht : InWindow start t) :
    key start.mFN t = start.offset t + start.mTN := by
  rw [key, ht.FNDelta_eq hs, offset]
  ring

/-- Two times of a window are less than half a hyperframe apart, either way. -/
theorem InWindow.close {t u : Time} (ht : InWindow start t) (hu : InWindow start u) :
    FNDelta t.mFN start.mFN - FNDelta u.mFN start.mFN < gHyperframe / 2 := by
  have hafter := ht.after
  rw [ht.FNDelta_eq hs, hu.FNDelta_eq hs]
  rw [gHyperframe_eq] at *
  omega

variable {t u : Time} (ht : InWindow start t) (hu : InWindow start u)
include ht hu

theorem lt_iff_offset : t.lt u = true ↔ start.offset t < start.offset u := by
  rw [lt_iff_key hs.1 ht.valid hu.valid (by have := hu.close hs ht; omega) (ht.close hs hu),
    ht.key_eq hs, hu.key_eq hs, add_lt_add_iff_right]

theorem gt_iff_offset : t.gt u = true ↔ start.offset u < start.offset t := by
  rw [gt_iff_key hs.1 ht.valid hu.valid (by have := hu.close hs ht; omega) (ht.close hs hu),
    ht.key_eq hs, hu.key_eq hs, add_lt_add_iff_right]

theorem le_iff_offset : t.le u = true ↔ start.offset t ≤ start.offset u := by
  rw [le_eq_not_gt, Bool.not_eq_true', ← Bool.not_eq_true, gt_iff_offset hs ht hu, not_lt]

theorem ge_iff_offset : t.ge u = true ↔ start.offset u ≤ start.offset t := by
  rw [ge_eq_not_lt, Bool.not_eq_true', ← Bool.not_eq_true, lt_iff_offset hs ht hu, not_lt]

omit hs in
/-- The offset determines a time of the window. -/
theorem eq_iff_offset : t.eq u = true ↔ start.offset t = start.offset u := by
  rw [eq_iff]
  constructor
  · rintro rfl
    rfl
  · intro h
    refine slot_injOn ht.valid hu.valid ?_
    have hmod : (t.slot - start.slot) % hyperslots = (u.slot - start.slot) % hyperslots := by
      rw [← offset_emod, ← offset_emod, h]
    have htr := slot_range ht.valid
    have hur := slot_range hu.valid
    simp only [hyperslots, gHyperframe_eq] at *
    omega

end Window

/-- The five operators compare the offsets of two times from `start`. -/
structure ComparesOffsets (start t u : Time) : Prop where
  lt : t.lt u = true ↔ start.offset t < start.offset u
  gt : t.gt u = true ↔ start.offset u < start.offset t
  le : t.le u = true ↔ start.offset t ≤ start.offset u
  ge : t.ge u = true ↔ start.offset u ≤ start.offset t
  eq : t.eq u = true ↔ start.offset t = start.offset u

/-- **In a window the operators are the order of the offsets.** -/
theorem comparesOffsets {start t u : Time} (hs : start.Valid) (ht : InWindow start t)
    (hu : InWindow start u) : ComparesOffsets start t u where
  lt := lt_iff_offset hs ht hu
  gt := gt_iff_offset hs ht hu
  le := le_iff_offset hs ht hu
  ge := ge_iff_offset hs ht hu
  eq := eq_iff_offset ht hu

/-- So each of them is transitive there. -/
theorem operators_trans {start t u w : Time} (hs : start.Valid) (ht : InWindow start t)
    (hu : InWindow start u) (hw : InWindow start w) :
    ∀ R ∈ [Time.lt, Time.gt, Time.le, Time.ge, Time.eq],
      R t u = true → R u w = true → R t w = true := by
  have htu := comparesOffsets hs ht hu
  have huw := comparesOffsets hs hu hw
  have htw := comparesOffsets hs ht hw
  intro R hR h1 h2
  simp only [List.mem_cons, List.not_mem_nil, or_false] at hR
  rcases hR with rfl | rfl | rfl | rfl | rfl
  · exact htw.lt.mpr ((htu.lt.mp h1).trans (huw.lt.mp h2))
  · exact htw.gt.mpr ((huw.gt.mp h2).trans (htu.gt.mp h1))
  · exact htw.le.mpr ((htu.le.mp h1).trans (huw.le.mp h2))
  · exact htw.ge.mpr ((huw.ge.mp h2).trans (htu.ge.mp h1))
  · exact htw.eq.mpr ((htu.eq.mp h1).trans (huw.eq.mp h2))

end Time

/-- **Comparison over the whole hyperframe.**  `FNDelta` is the difference modulo the
hyperframe; antisymmetry, trichotomy and `<=` as the converse of `<` hold of all pairs
but those half a hyperframe apart. -/
theorem comparison_except_half :
    (∀ a b : ℤ, ValidFN a → ValidFN b →
      FNDelta a b % gHyperframe = (a - b) % gHyperframe ∧
      -(gHyperframe / 2) ≤ FNDelta a b ∧ FNDelta a b < gHyperframe / 2 ∧
      (FNCompare a b = -FNCompare b a ↔ ¬ HalfApart a b)) ∧
    (∀ x y : Time, x.Valid → y.Valid →
      (x.Trichotomous y ↔ ¬ HalfApart x.mFN y.mFN) ∧
      ((x.le y = !y.lt x) ↔ ¬ HalfApart x.mFN y.mFN)) := by
  constructor
  · intro a b ha hb
    obtain ⟨hlo, hhi⟩ := FNDelta_mem ha hb
    exact ⟨FNDelta_emod ha hb, hlo, hhi, FNCompare_antisymm_iff ha hb⟩
  · intro x y hx hy
    exact ⟨Time.trichotomous_iff hx hy, Time.le_iff_not_lt_iff hx hy⟩

/-- Frames on both sides of the wrap, and a pair one frame short of half a hyperframe. -/
theorem comparison_except_half_wrap :
    FNCompare 2715647 0 = -FNCompare 0 2715647 ∧
      (⟨1357823, 3⟩ : Time).Trichotomous ⟨0, 5⟩ :=
  ⟨((comparison_except_half.1 2715647 0 (by decide) (by decide)).2.2.2).mpr (by decide),
    ((comparison_except_half.2 ⟨1357823, 3⟩ ⟨0, 5⟩ (by decide) (by decide)).1).mpr (by decide)⟩

/-- Frames 0 and 1357824: each is before the other. -/
theorem comparison_half_not_antisymm :
    ValidFN 0 ∧ ValidFN 1357824 ∧ FNCompare 0 1357824 = -1 ∧ FNCompare 1357824 0 = -1 ∧
      (⟨0, 0⟩ : Time).lt ⟨1357824, 0⟩ = true ∧ (⟨1357824, 0⟩ : Time).lt ⟨0, 0⟩ = true ∧
      (⟨0, 0⟩ : Time).le ⟨1357824, 0⟩ = true := by
  decide

end GSM
end OsmoTrx
