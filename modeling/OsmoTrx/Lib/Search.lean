import Mathlib.Tactic

/-!
# Searches

Two ways to search a greatest value.  One looks at all values in turn and keeps the record.  The
other starts at a place, goes forward or backward by a step as a comparison says, halves the step,
and ends when the comparison is even or the step has become small.

* `Record` — what the first search has found; `Record.succ` is one turn of it.
* `halving_terminates` — the second search ends, since the step halves.
* `halving_grid` — **where it can end**: on the grid of the last step, within the sum of the steps.
* `halving_bracket` — **what it finds**: where the comparison says forward on the left and backward
  on the right of the start, it still does around the end, at the last distance.
-/

namespace OsmoTrx
namespace Search

variable {K : Type*} [Field K] [LinearOrder K]

/-! ## Records -/

/-- The first of the greatest values among the first `n`, if one is above zero. -/
def Record (f : ℕ → K) (n : ℕ) : Option ℕ → Prop
  | none => ∀ j < n, f j ≤ 0
  | some i => i < n ∧ 0 < f i ∧ (∀ j < n, f j ≤ f i) ∧ ∀ j < i, f j < f i

/-- The value to beat. -/
def toBeat (f : ℕ → K) : Option ℕ → K
  | none => 0
  | some i => f i

/-- A search has found nothing in front of the first value. -/
theorem record_zero (f : ℕ → K) : Record f 0 none := fun _ hj => absurd hj (Nat.not_lt_zero _)

/-- **A turn of the search**: the next value is the record if it beats the last one. -/
theorem Record.succ {f : ℕ → K} {n : ℕ} {r : Option ℕ} (h : Record f n r) :
    Record f (n + 1) (if f n > toBeat f r then some n else r) := by
  cases r with
  | none =>
    by_cases hbeat : f n > 0
    · rw [toBeat, if_pos hbeat]
      refine ⟨Nat.lt_succ_self n, hbeat, fun j hj => ?_, fun j hj => (h j hj).trans_lt hbeat⟩
      rcases Nat.lt_succ_iff_lt_or_eq.mp hj with hlt | rfl
      · exact (h j hlt).trans hbeat.le
      · exact le_rfl
    · rw [toBeat, if_neg hbeat]
      intro j hj
      rcases Nat.lt_succ_iff_lt_or_eq.mp hj with hlt | rfl
      · exact h j hlt
      · exact not_lt.mp hbeat
  | some i =>
    obtain ⟨hi, hpos, hmax, hfirst⟩ := h
    by_cases hbeat : f n > f i
    · rw [toBeat, if_pos hbeat]
      refine ⟨Nat.lt_succ_self n, hpos.trans hbeat, fun j hj => ?_,
        fun j hj => (hmax j hj).trans_lt hbeat⟩
      rcases Nat.lt_succ_iff_lt_or_eq.mp hj with hlt | rfl
      · exact (hmax j hlt).trans hbeat.le
      · exact le_rfl
    · rw [toBeat, if_neg hbeat]
      refine ⟨Nat.lt_succ_of_lt hi, hpos, fun j hj => ?_, hfirst⟩
      rcases Nat.lt_succ_iff_lt_or_eq.mp hj with hlt | rfl
      · exact hmax j hlt
      · exact not_lt.mp hbeat

/-- There is one record at most. -/
theorem Record.unique {f : ℕ → K} {n : ℕ} {r r' : Option ℕ} (h : Record f n r)
    (h' : Record f n r') : r = r' := by
  cases r with
  | none =>
    cases r' with
    | none => rfl
    | some i' => exact absurd h'.2.1 (not_lt.mpr (h i' h'.1))
  | some i =>
    cases r' with
    | none => exact absurd h.2.1 (not_lt.mpr (h' i h.1))
    | some i' =>
      rcases lt_trichotomy i i' with hlt | rfl | hlt
      · exact absurd (h'.2.2.2 i hlt) (not_lt.mpr (h.2.2.1 i' h'.1))
      · rfl
      · exact absurd (h.2.2.2 i' hlt) (not_lt.mpr (h'.2.2.1 i h.1))

/-! ## Halving the step -/

/-- The search: `dir x` compares what is before `x` with what is behind it, and the search goes
where there is more.  It stops at a step of `bound` or less, and `none` is a search that has not
ended after so many turns. -/
def halving (dir : K → Ordering) (bound : K) : ℕ → K → K → Option K
  | 0, _, _ => none
  | fuel + 1, x, incr =>
    if bound < incr then
      match dir x with
      | .lt => halving dir bound fuel (x + incr) (incr / 2)
      | .gt => halving dir bound fuel (x - incr) (incr / 2)
      | .eq => some x
    else some x

variable {dir : K → Ordering} {bound : K} {n : ℕ} {x incr y : K}

theorem halving_of_le (h : incr ≤ bound) : halving dir bound (n + 1) x incr = some x := by
  rw [halving, if_neg (not_lt.mpr h)]

theorem halving_of_lt (h : bound < incr) :
    halving dir bound (n + 1) x incr = match dir x with
      | .lt => halving dir bound n (x + incr) (incr / 2)
      | .gt => halving dir bound n (x - incr) (incr / 2)
      | .eq => some x := by
  rw [halving, if_pos h]

/-- **The search ends** when the step has been halved often enough. -/
theorem halving_terminates (h : incr / 2 ^ n ≤ bound) :
    ∃ y, halving dir bound (n + 1) x incr = some y := by
  induction n generalizing x incr with
  | zero =>
    rw [pow_zero, div_one] at h
    exact ⟨x, halving_of_le h⟩
  | succ n ih =>
    have hnext : incr / 2 / 2 ^ n ≤ bound := by
      rw [div_div, ← pow_succ']
      exact h
    by_cases hlt : bound < incr
    · rw [halving_of_lt hlt]
      cases hdir : dir x with
      | lt => exact ih hnext
      | gt => exact ih hnext
      | eq => exact ⟨x, rfl⟩
    · exact ⟨x, halving_of_le (not_lt.mp hlt)⟩

variable [IsStrictOrderedRing K]

/-- **Where a search ends**: a multiple of the last step away from its start, and less than twice
the first. -/
theorem halving_grid (h : incr / 2 ^ n ≤ bound) (hy : halving dir bound (n + 1) x incr = some y) :
    ∃ k : ℤ, y = x + k * (2 * incr / 2 ^ n) ∧ |k| < 2 ^ n := by
  induction n generalizing x incr with
  | zero =>
    rw [pow_zero, div_one] at h
    rw [halving_of_le h, Option.some_inj] at hy
    exact ⟨0, by rw [← hy]; simp, by simp⟩
  | succ n ih =>
    have hnext : incr / 2 / 2 ^ n ≤ bound := by
      rw [div_div, ← pow_succ']
      exact h
    have hpow : (2 : K) ^ n ≠ 0 := pow_ne_zero n two_ne_zero
    by_cases hlt : bound < incr
    · rw [halving_of_lt hlt] at hy
      cases hdir : dir x with
      | lt =>
        rw [hdir] at hy
        obtain ⟨k, hk, habs⟩ := ih hnext hy
        refine ⟨2 ^ n + k, ?_, ?_⟩
        · rw [hk, pow_succ]
          push_cast
          field_simp
          ring
        · rw [abs_lt] at habs ⊢
          constructor <;> linarith [pow_succ (2 : ℤ) n]
      | gt =>
        rw [hdir] at hy
        obtain ⟨k, hk, habs⟩ := ih hnext hy
        refine ⟨k - 2 ^ n, ?_, ?_⟩
        · rw [hk, pow_succ]
          push_cast
          field_simp
          ring
        · rw [abs_lt] at habs ⊢
          constructor <;> linarith [pow_succ (2 : ℤ) n]
      | eq =>
        rw [hdir, Option.some_inj] at hy
        exact ⟨0, by rw [← hy]; simp, by simp⟩
    · rw [halving_of_le (not_lt.mp hlt), Option.some_inj] at hy
      exact ⟨0, by rw [← hy]; simp, by simp⟩

/-- What lies around the end of a search whose last step is `w`. -/
def Bracketed (dir : K → Ordering) (y w : K) : Prop :=
  dir y = .eq ∨ dir (y - w) = .lt ∧ dir (y + w) = .gt

/-- **What a search finds.**  If the comparison leads from both ends of the range to the start, it
leads to the end of the search from both sides at twice the bound. -/
theorem halving_bracket (hlo : dir (x - 2 * incr) = .lt) (hhi : dir (x + 2 * incr) = .gt)
    (hend : incr / 2 ^ n = bound) (hpos : 0 < incr)
    (hy : halving dir bound (n + 1) x incr = some y) : Bracketed dir y (2 * bound) := by
  induction n generalizing x incr with
  | zero =>
    rw [pow_zero, div_one] at hend
    rw [halving_of_le hend.le, Option.some_inj] at hy
    rw [← hy, ← hend]
    exact Or.inr ⟨hlo, hhi⟩
  | succ n ih =>
    have hnext : incr / 2 / 2 ^ n = bound := by
      rw [div_div, ← pow_succ']
      exact hend
    have hlt : bound < incr := by
      rw [← hend]
      exact div_lt_self hpos (one_lt_pow₀ one_lt_two n.succ_ne_zero)
    have htwo : 2 * (incr / 2) = incr := by ring
    rw [halving_of_lt hlt] at hy
    cases hdir : dir x with
    | lt =>
      rw [hdir] at hy
      refine ih ?_ ?_ hnext (half_pos hpos) hy
      · rw [htwo, add_sub_cancel_right]
        exact hdir
      · rw [htwo, add_assoc, ← two_mul]
        exact hhi
    | gt =>
      rw [hdir] at hy
      refine ih ?_ ?_ hnext (half_pos hpos) hy
      · rw [htwo, sub_sub, ← two_mul]
        exact hlo
      · rw [htwo, sub_add_cancel]
        exact hdir
    | eq =>
      rw [hdir, Option.some_inj] at hy
      rw [← hy]
      exact Or.inl hdir

end Search
end OsmoTrx
