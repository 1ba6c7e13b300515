import OsmoTrx.Lib.Word

/-!
# GSM time

The frame clock of `GSM/GSMCommon.h`: a frame number in the hyperframe and a
timeslot, with the arithmetic and the circular comparisons of `GSM::Time`, carried
out as the C++ does it, in 32-bit `int` and `unsigned` (`i32`, `u32`).

* `slot` — valid times are the integers modulo `8 * gHyperframe`; `slot_incTN` and
  `slot_decTN` say that the clock steps are addition and subtraction there, and
  `slot_injOn` that nothing is lost.
* `FNDelta_emod`, `FNDelta_mem` — `FNDelta` is the representative of the difference
  of two frame numbers in `[-H/2, H/2)`.
* `lt_iff_key`, `gt_iff_key` — inside a window of less than half a hyperframe around
  any reference, the circular comparisons are the comparison of an integer key.
-/

namespace OsmoTrx
namespace GSM

/-! ## Frame numbers -/

/-- The hyperframe, `2048 * 26 * 51` frames. -/
def gHyperframe : ℤ := 2048 * 26 * 51

theorem gHyperframe_eq : gHyperframe = 2715648 := by decide

/-- Symbols of a slot, guard periods not counted. -/
def gSlotLen : ℕ := 148

/-- `FNDelta`: a clock difference within the modulus, `v1 - v2`. -/
def FNDelta (v1 v2 : ℤ) : ℤ :=
  let halfModulus := gHyperframe / 2
  let delta := i32 (v1 - v2)
  if delta ≥ halfModulus then i32 (u32 delta - gHyperframe)
  else if delta < -halfModulus then i32 (u32 delta + gHyperframe)
  else delta

/-- `FNCompare`: `1` if `v1 > v2`, `-1` if `v1 < v2`, `0` if `v1 == v2`. -/
def FNCompare (v1 v2 : ℤ) : ℤ :=
  let delta := FNDelta v1 v2
  if delta > 0 then 1 else if delta < 0 then -1 else 0

/-- A frame number the hyperframe has. -/
def ValidFN (fn : ℤ) : Prop := 0 ≤ fn ∧ fn < gHyperframe

instance (fn : ℤ) : Decidable (ValidFN fn) := inferInstanceAs (Decidable (_ ∧ _))

/-- Between valid frame numbers no machine operation of `FNDelta` wraps. -/
theorem FNDelta_eq {v1 v2 : ℤ} (h1 : ValidFN v1) (h2 : ValidFN v2) :
    FNDelta v1 v2 =
      if v1 - v2 ≥ 1357824 then v1 - v2 - 2715648
      else if v1 - v2 < -1357824 then v1 - v2 + 2715648
      else v1 - v2 := by
  obtain ⟨h1l, h1h⟩ := h1
  obtain ⟨h2l, h2h⟩ := h2
  rw [gHyperframe_eq] at h1h h2h
  have hd : i32 (v1 - v2) = v1 - v2 := i32_eq_self (by omega) (by omega)
  simp only [FNDelta, hd, gHyperframe_eq]
  norm_num only
  split_ifs with hhi hlo
  · rw [u32_eq_self (by omega) (by omega), i32_eq_self (by omega) (by omega)]
  · -- a negative difference becomes a large `unsigned` before the hyperframe is added
    have hu : u32 (v1 - v2) = v1 - v2 + 2 ^ 32 := by unfold u32; omega
    rw [hu]
    unfold i32
    rw [show v1 - v2 + 2 ^ 32 + 2715648 = v1 - v2 + 2715648 + 2 ^ 32 by ring,
      show ((2 : ℤ) ^ 32) = ((2 ^ 32 : ℕ) : ℤ) by norm_num, Int.add_bmod_right]
    exact i32_eq_self (by omega) (by omega)
  · rfl

/-- `FNDelta` is the difference modulo the hyperframe … -/
theorem FNDelta_emod {v1 v2 : ℤ} (h1 : ValidFN v1) (h2 : ValidFN v2) :
    FNDelta v1 v2 % gHyperframe = (v1 - v2) % gHyperframe := by
  rw [FNDelta_eq h1 h2, gHyperframe_eq]
  split_ifs <;> omega

/-- … taken in `[-H/2, H/2)`. -/
theorem FNDelta_mem {v1 v2 : ℤ} (h1 : ValidFN v1) (h2 : ValidFN v2) :
    -(gHyperframe / 2) ≤ FNDelta v1 v2 ∧ FNDelta v1 v2 < gHyperframe / 2 := by
  rw [FNDelta_eq h1 h2]
  obtain ⟨h1l, h1h⟩ := h1
  obtain ⟨h2l, h2h⟩ := h2
  rw [gHyperframe_eq] at *
  split_ifs <;> omega

/-- Seen from a reference, the difference of two frame numbers less than half a
hyperframe apart is the difference of their offsets. -/
theorem FNDelta_sub {a b r : ℤ} (ha : ValidFN a) (hb : ValidFN b) (hr : ValidFN r)
    (hlo : -(gHyperframe / 2) < FNDelta a r - FNDelta b r)
    (hhi : FNDelta a r - FNDelta b r < gHyperframe / 2) :
    FNDelta a b = FNDelta a r - FNDelta b r := by
  have hab := FNDelta_emod ha hb
  have har := FNDelta_emod ha hr
  have hbr := FNDelta_emod hb hr
  have hm := FNDelta_mem ha hb
  rw [gHyperframe_eq] at *
  omega

theorem FNDelta_eq_zero_iff {a b : ℤ} (ha : ValidFN a) (hb : ValidFN b) :
    FNDelta a b = 0 ↔ a = b := by
  rw [FNDelta_eq ha hb]
  obtain ⟨hal, hah⟩ := ha
  obtain ⟨hbl, hbh⟩ := hb
  rw [gHyperframe_eq] at *
  split_ifs <;> omega

@[simp] theorem FNDelta_self {a : ℤ} (ha : ValidFN a) : FNDelta a a = 0 :=
  (FNDelta_eq_zero_iff ha ha).mpr rfl

theorem FNCompare_neg_iff (v1 v2 : ℤ) : FNCompare v1 v2 < 0 ↔ FNDelta v1 v2 < 0 := by
  simp only [FNCompare]
  split_ifs <;> omega

theorem FNCompare_pos_iff (v1 v2 : ℤ) : FNCompare v1 v2 > 0 ↔ FNDelta v1 v2 > 0 := by
  simp only [FNCompare]
  split_ifs <;> omega

/-! ## The clock value -/

/-- `GSM::Time`: frame number in the hyperframe and timeslot number. -/
structure Time where
  mFN : ℤ
  mTN : ℤ
  deriving DecidableEq, Repr

namespace Time

/-- A time of the hyperframe: `0 ≤ FN < gHyperframe`, `0 ≤ TN ≤ 7`. -/
def Valid (t : Time) : Prop := ValidFN t.mFN ∧ 0 ≤ t.mTN ∧ t.mTN ≤ 7

instance (t : Time) : Decidable t.Valid := inferInstanceAs (Decidable (_ ∧ _))

/-- The accessor `TN()`, which converts to `unsigned`. -/
def TN (t : Time) : ℤ := u32 t.mTN

/-- The accessor `FN()`. -/
def FN (t : Time) : ℤ := t.mFN

/-- `incTN(step)`: move forward by timeslots, carrying into the frame number. -/
def incTN (t : Time) (step : ℤ) : Time :=
  let tn := i32 (u32 t.mTN + step)
  if tn > 7 then ⟨u32 (t.mFN + 1) % gHyperframe, tn - 8⟩ else ⟨t.mFN, tn⟩

/-- `decTN(step)`: move back by timeslots, borrowing from the frame number. -/
def decTN (t : Time) (step : ℤ) : Time :=
  let tn := i32 (u32 t.mTN - step)
  if tn < 0 then
    let fn := t.mFN - 1
    ⟨if fn < 0 then i32 (u32 fn + gHyperframe) else fn, tn + 8⟩
  else ⟨t.mFN, tn⟩

/-- `operator++`: the same timeslot of the next frame. -/
def increment (t : Time) : Time := ⟨i32 (u32 (t.mFN + 1) % gHyperframe), t.mTN⟩

/-- `operator+` of two times.  The sums are of `int`, the moduli of `unsigned`. -/
def add (t other : Time) : Time :=
  ⟨i32 (u32 (t.mFN + other.mFN + (t.mTN + other.mTN).tdiv 8) % gHyperframe),
    i32 (u32 ((t.mTN + other.mTN).tmod 8))⟩

/-- `operator<`. -/
def lt (t other : Time) : Bool :=
  if t.mFN = other.mFN then t.mTN < other.mTN else FNCompare t.mFN other.mFN < 0

/-- `operator>`. -/
def gt (t other : Time) : Bool :=
  if t.mFN = other.mFN then t.mTN > other.mTN else FNCompare t.mFN other.mFN > 0

/-- The place of a time in the hyperframe, counted in slots. -/
def slot (t : Time) : ℤ := 8 * t.mFN + t.mTN

/-- Slots in a hyperframe. -/
def hyperslots : ℤ := 8 * gHyperframe

/-! ## Clock steps -/

theorem incTN_eq {t : Time} (ht : t.Valid) {step : ℤ} (h0 : 0 ≤ step) (h8 : step ≤ 8) :
    t.incTN step =
      if t.mTN + step > 7 then ⟨(t.mFN + 1) % gHyperframe, t.mTN + step - 8⟩
      else ⟨t.mFN, t.mTN + step⟩ := by
  obtain ⟨⟨hfl, hfh⟩, htl, hth⟩ := ht
  rw [gHyperframe_eq] at hfh
  have htn : i32 (u32 t.mTN + step) = t.mTN + step := by
    rw [u32_eq_self (by omega) (by omega), i32_eq_self (by omega) (by omega)]
  have hfn : u32 (t.mFN + 1) = t.mFN + 1 := u32_eq_self (by omega) (by omega)
  simp only [incTN, htn, hfn]

theorem decTN_eq {t : Time} (ht : t.Valid) {step : ℤ} (h0 : 0 ≤ step) (h8 : step ≤ 8) :
    t.decTN step =
      if t.mTN - step < 0 then
        ⟨if t.mFN = 0 then gHyperframe - 1 else t.mFN - 1, t.mTN - step + 8⟩
      else ⟨t.mFN, t.mTN - step⟩ := by
  obtain ⟨⟨hfl, hfh⟩, htl, hth⟩ := ht
  rw [gHyperframe_eq] at hfh
  have htn : i32 (u32 t.mTN - step) = t.mTN - step := by
    rw [u32_eq_self (by omega) (by omega), i32_eq_self (by omega) (by omega)]
  simp only [decTN, htn]
  by_cases hz : t.mFN = 0
  · -- borrowing from frame 0: `-1` plus the hyperframe, through `unsigned`
    have hwrap : i32 (u32 (0 - 1) + gHyperframe) = gHyperframe - 1 := by decide
    simp only [hz, hwrap, if_pos (show (0 : ℤ) - 1 < 0 by norm_num), if_true]
  · rw [if_neg (show ¬ t.mFN - 1 < 0 by omega), if_neg hz]

theorem incTN_valid {t : Time} (ht : t.Valid) {step : ℤ} (h0 : 0 ≤ step) (h8 : step ≤ 8) :
    (t.incTN step).Valid := by
  rw [incTN_eq ht h0 h8]
  obtain ⟨⟨hfl, hfh⟩, htl, hth⟩ := ht
  rw [gHyperframe_eq] at *
  split_ifs with h
  · refine ⟨⟨?_, ?_⟩, ?_, ?_⟩ <;> simp only [gHyperframe_eq] <;> omega
  · refine ⟨⟨?_, ?_⟩, ?_, ?_⟩ <;> simp only [gHyperframe_eq] <;> omega

theorem decTN_valid {t : Time} (ht : t.Valid) {step : ℤ} (h0 : 0 ≤ step) (h8 : step ≤ 8) :
    (t.decTN step).Valid := by
  rw [decTN_eq ht h0 h8]
  obtain ⟨⟨hfl, hfh⟩, htl, hth⟩ := ht
  rw [gHyperframe_eq] at *
  split_ifs <;> refine ⟨⟨?_, ?_⟩, ?_, ?_⟩ <;> simp only [gHyperframe_eq] <;> omega

theorem increment_eq {t : Time} (ht : t.Valid) :
    t.increment = ⟨(t.mFN + 1) % gHyperframe, t.mTN⟩ := by
  obtain ⟨⟨hfl, hfh⟩, -⟩ := ht
  rw [gHyperframe_eq] at hfh
  rw [increment, gHyperframe_eq, u32_eq_self (by omega) (by omega),
    i32_eq_self (by omega) (by omega)]

/-- Between valid times no machine operation of `operator+` wraps. -/
theorem add_eq {t other : Time} (ht : t.Valid) (ho : other.Valid) :
    t.add other = ⟨(t.mFN + other.mFN + (t.mTN + other.mTN) / 8) % gHyperframe,
      (t.mTN + other.mTN) % 8⟩ := by
  obtain ⟨⟨hfl, hfh⟩, htl, hth⟩ := ht
  obtain ⟨⟨hfl', hfh'⟩, htl', hth'⟩ := ho
  rw [gHyperframe_eq] at hfh hfh'
  have hcarry : (t.mTN + other.mTN).tdiv 8 = (t.mTN + other.mTN) / 8 :=
    Int.tdiv_eq_ediv_of_nonneg (by omega)
  have htn : (t.mTN + other.mTN).tmod 8 = (t.mTN + other.mTN) % 8 :=
    Int.tmod_eq_emod_of_nonneg (by omega)
  rw [add, hcarry, htn, gHyperframe_eq,
    u32_eq_self (x := t.mFN + other.mFN + (t.mTN + other.mTN) / 8) (by omega) (by omega),
    i32_eq_self (by omega) (by omega),
    u32_eq_self (x := (t.mTN + other.mTN) % 8) (by omega) (by omega),
    i32_eq_self (by omega) (by omega)]

theorem increment_valid {t : Time} (ht : t.Valid) : t.increment.Valid := by
  rw [increment_eq ht]
  exact ⟨⟨Int.emod_nonneg _ (by decide), Int.emod_lt_of_pos _ (by decide)⟩, ht.2⟩

theorem add_valid {t other : Time} (ht : t.Valid) (ho : other.Valid) : (t.add other).Valid := by
  rw [add_eq ht ho]
  refine ⟨⟨Int.emod_nonneg _ (by decide), Int.emod_lt_of_pos _ (by decide)⟩, ?_, ?_⟩
  · exact Int.emod_nonneg _ (by decide)
  · have hlt := Int.emod_lt_of_pos (t.mTN + other.mTN) (show (0 : ℤ) < 8 by decide)
    simp only
    omega

/-- `incTN` adds to the slot number modulo the hyperframe. -/
theorem slot_incTN {t : Time} (ht : t.Valid) {step : ℤ} (h0 : 0 ≤ step) (h8 : step ≤ 8) :
    (t.incTN step).slot = (t.slot + step) % hyperslots := by
  rw [incTN_eq ht h0 h8]
  obtain ⟨⟨hfl, hfh⟩, htl, hth⟩ := ht
  simp only [slot, hyperslots]
  rw [gHyperframe_eq] at *
  split_ifs <;> simp only [] <;> omega

/-- `decTN` subtracts from the slot number modulo the hyperframe. -/
theorem slot_decTN {t : Time} (ht : t.Valid) {step : ℤ} (h0 : 0 ≤ step) (h8 : step ≤ 8) :
    (t.decTN step).slot = (t.slot - step) % hyperslots := by
  rw [decTN_eq ht h0 h8]
  obtain ⟨⟨hfl, hfh⟩, htl, hth⟩ := ht
  simp only [slot, hyperslots]
  rw [gHyperframe_eq] at *
  split_ifs <;> simp only [] <;> omega

/-- `operator++` adds a frame modulo the hyperframe. -/
theorem slot_increment {t : Time} (ht : t.Valid) :
    t.increment.slot = (t.slot + 8) % hyperslots := by
  rw [increment_eq ht]
  obtain ⟨⟨hfl, hfh⟩, htl, hth⟩ := ht
  simp only [slot, hyperslots]
  rw [gHyperframe_eq] at *
  omega

/-- `operator+` adds the slot numbers modulo the hyperframe. -/
theorem slot_add {t other : Time} (ht : t.Valid) (ho : other.Valid) :
    (t.add other).slot = (t.slot + other.slot) % hyperslots := by
  rw [add_eq ht ho]
  obtain ⟨⟨hfl, hfh⟩, htl, hth⟩ := ht
  obtain ⟨⟨hfl', hfh'⟩, htl', hth'⟩ := ho
  simp only [slot, hyperslots]
  rw [gHyperframe_eq] at *
  omega

theorem slot_range {t : Time} (ht : t.Valid) : 0 ≤ t.slot ∧ t.slot < hyperslots := by
  obtain ⟨⟨hfl, hfh⟩, htl, hth⟩ := ht
  simp only [slot, hyperslots]
  omega

/-- A valid time is determined by its slot number. -/
theorem slot_injOn {t u : Time} (ht : t.Valid) (hu : u.Valid) (h : t.slot = u.slot) : t = u := by
  obtain ⟨⟨-, -⟩, htl, hth⟩ := ht
  obtain ⟨⟨-, -⟩, hul, huh⟩ := hu
  simp only [slot] at h
  obtain ⟨tf, tn⟩ := t
  obtain ⟨uf, un⟩ := u
  simp only at *
  congr 1 <;> omega

/-- `incTN` undoes `decTN`. -/
theorem incTN_decTN {t : Time} (ht : t.Valid) {step : ℤ} (h0 : 0 ≤ step) (h8 : step ≤ 8) :
    (t.decTN step).incTN step = t := by
  have hd := decTN_valid ht h0 h8
  refine slot_injOn (incTN_valid hd h0 h8) ht ?_
  rw [slot_incTN hd h0 h8, slot_decTN ht h0 h8]
  have hr := slot_range ht
  rw [Int.emod_add_emod, show t.slot - step + step = t.slot by ring]
  exact Int.emod_eq_of_lt hr.1 hr.2

theorem decTN_incTN {t : Time} (ht : t.Valid) {step : ℤ} (h0 : 0 ≤ step) (h8 : step ≤ 8) :
    (t.incTN step).decTN step = t := by
  have hi := incTN_valid ht h0 h8
  refine slot_injOn (decTN_valid hi h0 h8) ht ?_
  rw [slot_decTN hi h0 h8, slot_incTN ht h0 h8, Int.emod_sub_emod, add_sub_cancel_right]
  exact Int.emod_eq_of_lt (slot_range ht).1 (slot_range ht).2

/-- Clock steps commute. -/
theorem incTN_comm {t : Time} (ht : t.Valid) {a b : ℤ} (ha0 : 0 ≤ a) (ha8 : a ≤ 8)
    (hb0 : 0 ≤ b) (hb8 : b ≤ 8) : (t.incTN a).incTN b = (t.incTN b).incTN a := by
  have hva := incTN_valid ht ha0 ha8
  have hvb := incTN_valid ht hb0 hb8
  refine slot_injOn (incTN_valid hva hb0 hb8) (incTN_valid hvb ha0 ha8) ?_
  rw [slot_incTN hva hb0 hb8, slot_incTN hvb ha0 ha8, slot_incTN ht ha0 ha8,
    slot_incTN ht hb0 hb8, Int.emod_add_emod, Int.emod_add_emod, add_right_comm]

/-! ## Comparisons inside a window -/

/-- The position of a time relative to a reference frame: its frame offset, then its
timeslot. -/
def key (r : ℤ) (t : Time) : ℤ := 8 * FNDelta t.mFN r + t.mTN

theorem gt_eq_lt (t u : Time) (ht : t.Valid) (hu : u.Valid)
    (hfar : FNDelta t.mFN u.mFN ≠ -(gHyperframe / 2)) : t.gt u = u.lt t := by
  unfold gt lt
  by_cases hfn : t.mFN = u.mFN
  · rw [if_pos hfn, if_pos hfn.symm]
  · rw [if_neg hfn, if_neg (Ne.symm hfn), decide_eq_decide, FNCompare_pos_iff,
      FNCompare_neg_iff, FNDelta_eq hu.1 ht.1]
    rw [FNDelta_eq ht.1 hu.1] at hfar ⊢
    rw [gHyperframe_eq] at hfar
    split_ifs at * <;> omega

section Window

variable {r : ℤ} (hr : ValidFN r) {t u : Time} (ht : t.Valid) (hu : u.Valid)
include hr ht hu

/-- **`operator<` is the order of the keys** for two times whose offsets from the
reference differ by less than half a hyperframe. -/
theorem lt_iff_key (hlo : -(gHyperframe / 2) < FNDelta t.mFN r - FNDelta u.mFN r)
    (hhi : FNDelta t.mFN r - FNDelta u.mFN r < gHyperframe / 2) :
    t.lt u = true ↔ key r t < key r u := by
  have hsub := FNDelta_sub ht.1 hu.1 hr hlo hhi
  obtain ⟨htv, htl, hth⟩ := ht
  obtain ⟨huv, hul, huh⟩ := hu
  have hzero := FNDelta_eq_zero_iff htv huv
  unfold lt key
  by_cases hfn : t.mFN = u.mFN
  · simp [hfn]
  · have hne : FNDelta t.mFN u.mFN ≠ 0 := fun h => hfn (hzero.mp h)
    rw [if_neg hfn, decide_eq_true_iff, FNCompare_neg_iff, hsub]
    omega

/-- **`operator>` is the order of the keys**, under the same proviso. -/
theorem gt_iff_key (hlo : -(gHyperframe / 2) < FNDelta t.mFN r - FNDelta u.mFN r)
    (hhi : FNDelta t.mFN r - FNDelta u.mFN r < gHyperframe / 2) :
    t.gt u = true ↔ key r u < key r t := by
  have hsub := FNDelta_sub ht.1 hu.1 hr hlo hhi
  rw [gt_eq_lt t u ht hu (by rw [hsub]; omega)]
  exact lt_iff_key hr hu ht (by omega) (by omega)

end Window

end Time
end GSM
end OsmoTrx
