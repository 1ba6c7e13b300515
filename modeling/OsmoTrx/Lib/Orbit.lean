import Mathlib.Data.Set.Card
import Mathlib.Dynamics.PeriodicPts.Lemmas
import Mathlib.Order.Interval.Set.Nat
import Mathlib.Tactic

/-!
# Loops that wait for a state to come back

A loop with its test behind the body, and when it ends if it waits for a map to return to the point
it started from.

* `doUntil_eq`, `doUntil_eq_none` — the loop stops at the first turn whose test says so, and not
  before.
* `minimalPeriod_pos_of_injOn`, `minimalPeriod_le_ncard` — a map that is injective on a finite set
  **comes back to each point** of it, after no more turns than the set has points.
* `doUntil_return`, `doUntil_no_return` — the loop ends after the period of the point, and never if
  it has none.
-/

namespace OsmoTrx
namespace Orbit

open Function

variable {σ α : Type*}

/-! ## The loop -/

/-- `do body(s); while (!stop(s));`, for `fuel` turns at most; `none` if they do not suffice. -/
def doUntil (body : σ → σ) (stop : σ → Bool) : ℕ → σ → Option σ
  | 0, _ => none
  | fuel + 1, s => if stop (body s) then some (body s) else doUntil body stop fuel (body s)

variable {body : σ → σ} {stop : σ → Bool} {s : σ} {k fuel : ℕ}

/-- The loop goes on as long as the test fails. -/
theorem doUntil_eq_none (hbefore : ∀ j, 0 < j → j ≤ fuel → stop (body^[j] s) = false) :
    doUntil body stop fuel s = none := by
  induction fuel generalizing s with
  | zero => rfl
  | succ fuel ih =>
    have hfirst : stop (body s) = false := hbefore 1 Nat.one_pos (by omega)
    rw [doUntil, hfirst]
    apply ih
    intro j _ hj
    exact hbefore (j + 1) (Nat.succ_pos j) (by omega)

/-- **The loop stops** at the first turn whose test says so. -/
theorem doUntil_eq (hk : 0 < k) (hstop : stop (body^[k] s) = true)
    (hbefore : ∀ j, 0 < j → j < k → stop (body^[j] s) = false) (hfuel : k ≤ fuel) :
    doUntil body stop fuel s = some (body^[k] s) := by
  induction fuel generalizing s k with
  | zero => omega
  | succ fuel ih =>
    rw [doUntil]
    obtain rfl | hlt : k = 1 ∨ 1 < k := by omega
    · simp only [iterate_one] at hstop ⊢
      rw [hstop, if_pos rfl]
    · obtain ⟨k, rfl⟩ : ∃ k', k = k' + 1 := ⟨k - 1, by omega⟩
      have hfirst : stop (body s) = false := hbefore 1 Nat.one_pos hlt
      rw [hfirst, iterate_succ_apply]
      refine ih (by omega) hstop ?_ (by omega)
      intro j _ hj
      exact hbefore (j + 1) (Nat.succ_pos j) (by omega)

/-! ## Points that come back -/

variable {f : α → α} {x : α} {S : Set α}

/-- **A map that is injective on a finite set** comes back to each point of it. -/
theorem minimalPeriod_pos_of_injOn (hfin : S.Finite) (hmaps : Set.MapsTo f S S)
    (hinj : Set.InjOn f S) (hx : x ∈ S) : 0 < minimalPeriod f x := by
  have : Finite S := hfin
  -- on the set itself the map is injective, and its iterates are those of the map
  have hrestrict : Injective (hmaps.restrict f S S) := hmaps.restrict_inj.mpr hinj
  obtain ⟨k, hk, hper⟩ := hrestrict.mem_periodicPts ⟨x, hx⟩
  have hback : f^[k] x = x := by
    rw [IsPeriodicPt, IsFixedPt, Subtype.ext_iff, hmaps.coe_iterate_restrict] at hper
    exact hper
  exact IsPeriodicPt.minimalPeriod_pos hk hback

/-- The points up to the first return are distinct. -/
theorem minimalPeriod_le_ncard (hfin : S.Finite) (hmaps : Set.MapsTo f S S) (hx : x ∈ S) :
    minimalPeriod f x ≤ S.ncard := by
  have hinto : ∀ j ∈ Set.Iio (minimalPeriod f x), f^[j] x ∈ S := fun j _ => hmaps.iterate j hx
  have hle := Set.ncard_le_ncard_of_injOn _ hinto iterate_injOn_Iio_minimalPeriod hfin
  rwa [Set.ncard_Iio_nat] at hle

/-! ## The loop that waits for one -/

/-- **A loop that waits for a point to come back** ends after the period of the point. -/
theorem doUntil_return (hstop : ∀ j, stop (body^[j] s) = true ↔ f^[j] x = x)
    (hpos : 0 < minimalPeriod f x) (hfuel : minimalPeriod f x ≤ fuel) :
    doUntil body stop fuel s = some (body^[minimalPeriod f x] s) := by
  refine doUntil_eq hpos ((hstop _).mpr iterate_minimalPeriod) ?_ hfuel
  intro j hj hlt
  rw [← Bool.not_eq_true, hstop]
  exact not_isPeriodicPt_of_pos_of_lt_minimalPeriod hj.ne' hlt

/-- **It never ends** if the point does not come back. -/
theorem doUntil_no_return (hstop : ∀ j, stop (body^[j] s) = true ↔ f^[j] x = x)
    (hx : x ∉ periodicPts f) (fuel : ℕ) : doUntil body stop fuel s = none := by
  apply doUntil_eq_none
  intro j hj _
  rw [← Bool.not_eq_true, hstop]
  exact fun hback => hx (mk_mem_periodicPts hj hback)

end Orbit
end OsmoTrx
