import OsmoTrx.GSM.Time
import Mathlib.Data.ZMod.Basic

/-!
# The cyclic group of timeslots

The valid times of `GSM/GSMCommon.h` are the residues modulo the number of timeslots in a
hyperframe, and every clock operation is the operation of that group: in particular none of
them can lose a slot at the end of a frame or of the hyperframe.

* `residue` — the slot number of a time as a residue; `residue_bijective`.
* `slots_cyclic` — **clock arithmetic is the arithmetic of residues.**
-/

namespace OsmoTrx
namespace GSM

/-- A time of the hyperframe. -/
abbrev ValidTime := {t : Time // t.Valid}

/-- The number of timeslots in a hyperframe, as a modulus. -/
def slotCount : ℕ := 8 * 2715648

theorem hyperslots_eq : Time.hyperslots = (slotCount : ℤ) := by decide

/-- The slot number, as a residue. -/
def residue (t : Time) : ZMod slotCount := (t.slot : ZMod slotCount)

theorem residue_of_slot {t : Time} {a : ℤ} (h : t.slot = a % Time.hyperslots) :
    residue t = (a : ZMod slotCount) := by
  rw [residue, h, hyperslots_eq, ZMod.intCast_mod]

theorem residue_injective : Function.Injective fun t : ValidTime => residue t.val := by
  rintro ⟨t, ht⟩ ⟨u, hu⟩ h
  have hmod : t.slot % Time.hyperslots = u.slot % Time.hyperslots := by
    rw [hyperslots_eq]
    exact (ZMod.intCast_eq_intCast_iff' _ _ _).mp h
  obtain ⟨ht0, ht1⟩ := Time.slot_range ht
  obtain ⟨hu0, hu1⟩ := Time.slot_range hu
  rw [Int.emod_eq_of_lt ht0 ht1, Int.emod_eq_of_lt hu0 hu1] at hmod
  exact Subtype.ext (Time.slot_injOn ht hu hmod)

theorem residue_surjective : Function.Surjective fun t : ValidTime => residue t.val := by
  intro r
  -- the frame and the timeslot of the representative of `r`
  obtain ⟨n, rfl⟩ := ZMod.intCast_surjective r
  have hlo := Int.emod_nonneg n (show (slotCount : ℤ) ≠ 0 by decide)
  have hhi := Int.emod_lt_of_pos n (show (0 : ℤ) < slotCount by decide)
  have hcount : (slotCount : ℤ) = 8 * gHyperframe := by decide
  have hfn : ValidFN (n % slotCount / 8) := ⟨by omega, by omega⟩
  refine ⟨⟨⟨n % slotCount / 8, n % slotCount % 8⟩, hfn, by simp only; omega,
    by simp only; omega⟩, ?_⟩
  refine residue_of_slot ?_
  rw [Time.slot, hyperslots_eq]
  exact Int.mul_ediv_add_emod _ _

/-- **Times are residues.** -/
theorem residue_bijective : Function.Bijective fun t : ValidTime => residue t.val :=
  ⟨residue_injective, residue_surjective⟩

/-- **Clock arithmetic is the arithmetic of residues**: a step forward or back of up to 8
timeslots, the step to the next frame, and the sum of two times. -/
theorem slots_cyclic :
    (Function.Bijective fun t : ValidTime => residue t.val) ∧
    ∀ (t u : ValidTime) (step : Fin 9),
      ((t.val.incTN step.val).Valid ∧
        residue (t.val.incTN step.val) = residue t.val + step.val) ∧
      ((t.val.decTN step.val).Valid ∧
        residue (t.val.decTN step.val) = residue t.val - step.val) ∧
      (t.val.increment.Valid ∧ residue t.val.increment = residue t.val + 8) ∧
      ((t.val.add u.val).Valid ∧ residue (t.val.add u.val) = residue t.val + residue u.val) := by
  refine ⟨residue_bijective, fun t u step => ?_⟩
  obtain ⟨t, ht⟩ := t
  obtain ⟨u, hu⟩ := u
  have h0 : (0 : ℤ) ≤ step.val := Int.natCast_nonneg _
  have h8 : (step.val : ℤ) ≤ 8 := by have := step.isLt; omega
  refine ⟨⟨Time.incTN_valid ht h0 h8, ?_⟩, ⟨Time.decTN_valid ht h0 h8, ?_⟩,
    ⟨Time.increment_valid ht, ?_⟩, Time.add_valid ht hu, ?_⟩
  · rw [residue_of_slot (Time.slot_incTN ht h0 h8), residue, Int.cast_add, Int.cast_natCast]
  · rw [residue_of_slot (Time.slot_decTN ht h0 h8), residue, Int.cast_sub, Int.cast_natCast]
  · rw [residue_of_slot (Time.slot_increment ht), residue, Int.cast_add, Int.cast_ofNat]
  · rw [residue_of_slot (Time.slot_add ht hu), residue, residue, Int.cast_add]

end GSM
end OsmoTrx
