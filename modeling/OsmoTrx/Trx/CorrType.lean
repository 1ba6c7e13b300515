import OsmoTrx.Trx.State

/-!
# The expected burst type

`expectedCorrType` of `Transceiver.cpp`: what kind of burst a channel is to look for in a
slot of a frame.  The combination of the slot decides, and for some frames of some
combinations the handover flag of a subslot.

* `consulted` — the subslot whose flag decides in a frame, if one does.
* `Consults` — the subslots whose flags a combination ever asks for.
* `expectedCorrType_congr_iff` — **two transceivers expect the same bursts on a channel
  exactly if the flags that are asked for agree.**
-/

namespace OsmoTrx
namespace Trx

open GSM

/-! ## The code -/

/-- `CorrType`: codes for burst types of received bursts. -/
inductive CorrType
  | OFF
  | TSC
  | EXT_RACH
  | RACH
  | EDGE
  | IDLE
  deriving DecidableEq, Repr

/-- `tchh_subslot`. -/
def tchhSubslot : List ℕ :=
  [0, 1, 0, 1, 0, 1, 0, 1, 0, 1, 0, 1, 0, 0, 1, 0, 1, 0, 1, 0, 1, 0, 1, 0, 1, 1]

/-- `sdcch4_subslot`. -/
def sdcch4Subslot : List ℕ :=
  [3, 3, 3, 3, 0, 0, 2, 2, 2, 2, 3, 3, 3, 3, 0, 0, 0,
    0, 0, 0, 0, 0, 0, 0, 0, 0, 0, 0, 0, 0, 0, 0, 0, 0,
    0, 0, 0, 0, 0, 0, 0, 1, 1, 1, 1, 0, 0, 2, 2, 2, 2,
    3, 3, 3, 3, 0, 0, 0, 0, 0, 0, 1, 1, 1, 1, 0, 0, 0,
    0, 0, 0, 0, 0, 0, 0, 0, 0, 0, 0, 0, 0, 0, 0, 0, 0,
    0, 0, 0, 0, 0, 0, 0, 1, 1, 1, 1, 0, 0, 2, 2, 2, 2]

/-- `sdcch8_subslot`. -/
def sdcch8Subslot : List ℕ :=
  [5, 5, 5, 5, 6, 6, 6, 6, 7, 7, 7, 7, 0, 0, 0, 0, 0,
    0, 0, 1, 1, 1, 1, 2, 2, 2, 2, 3, 3, 3, 3, 4, 4, 4,
    4, 5, 5, 5, 5, 6, 6, 6, 6, 7, 7, 7, 7, 0, 0, 0, 0,
    1, 1, 1, 1, 2, 2, 2, 2, 3, 3, 3, 3, 0, 0, 0, 0, 0,
    0, 0, 1, 1, 1, 1, 2, 2, 2, 2, 3, 3, 3, 3, 4, 4, 4,
    4, 5, 5, 5, 5, 6, 6, 6, 6, 7, 7, 7, 7, 4, 4, 4, 4]

/-- The subslot of a frame, as an index of `mHandover[burstTN]`. -/
def subslot (table : List ℕ) (k : ℕ) : Fin 8 := Fin.ofNat 8 (table.getD k 0)

variable {n : ℕ} {V : Type} {Q : BurstQueue V}

/-- `expectedCorrType`. -/
def expectedCorrType (t : Transceiver n Q) (burstTN : Fin 8) (burstFN : ℕ) (chan : Fin n) :
    CorrType :=
  let mHandover := t.mHandover burstTN
  let rach := if t.mExtRACH then CorrType.EXT_RACH else .RACH
  match ChannelCombination.ofCode ((t.mStates chan).chanType burstTN) with
  | some .NONE => .OFF
  | some .FILL => .IDLE
  | some .I => if mHandover 0 then .RACH else .TSC
  | some .II =>
    let subch := subslot tchhSubslot (burstFN % 26)
    if subch = 1 then .IDLE else if mHandover 0 then .RACH else .TSC
  | some .III =>
    let subch := subslot tchhSubslot (burstFN % 26)
    if mHandover subch then .RACH else .TSC
  | some .IV | some .VI => rach
  | some .V =>
    let mod51 := burstFN % 51
    if mod51 ≤ 36 ∧ mod51 ≥ 14 then rach
    else if mod51 = 4 ∨ mod51 = 5 then rach
    else if mod51 = 45 ∨ mod51 = 46 then rach
    else if mHandover (subslot sdcch4Subslot (burstFN % 102)) then .RACH
    else .TSC
  | some .VII =>
    if burstFN % 51 ≤ 14 ∧ burstFN % 51 ≥ 12 then .IDLE
    else if mHandover (subslot sdcch8Subslot (burstFN % 102)) then .RACH
    else .TSC
  | some .XIII =>
    let mod52 := burstFN % 52
    if mod52 = 12 ∨ mod52 = 38 then rach
    else if mod52 = 25 ∨ mod52 = 51 then .IDLE
    else .TSC
  | some .LOOPBACK => if burstFN % 51 ≤ 50 ∧ burstFN % 51 ≥ 48 then .IDLE else .TSC
  | _ => .OFF

/-! ## The flags it asks for -/

/-- The subslot whose handover flag decides in a frame. -/
def consulted (combination : Option ChannelCombination) (burstFN : ℕ) : Option (Fin 8) :=
  match combination with
  | some .I => some 0
  | some .II => if subslot tchhSubslot (burstFN % 26) = 1 then none else some 0
  | some .III => some (subslot tchhSubslot (burstFN % 26))
  | some .V =>
    if (burstFN % 51 ≤ 36 ∧ burstFN % 51 ≥ 14) ∨ (burstFN % 51 = 4 ∨ burstFN % 51 = 5) ∨
      burstFN % 51 = 45 ∨ burstFN % 51 = 46 then none
    else some (subslot sdcch4Subslot (burstFN % 102))
  | some .VII =>
    if burstFN % 51 ≤ 14 ∧ burstFN % 51 ≥ 12 then none
    else some (subslot sdcch8Subslot (burstFN % 102))
  | _ => none

/-- The subslots whose flags a combination asks for in some frame. -/
def Consults (combination : Option ChannelCombination) (ss : Fin 8) : Prop :=
  match combination with
  | some .I | some .II => ss.val = 0
  | some .III => ss.val < 2
  | some .V => ss.val < 4
  | some .VII => True
  | _ => False

/-- Half-rate channels have two subslots. -/
theorem subslot_tchh_lt (burstFN : ℕ) : (subslot tchhSubslot (burstFN % 26)).val < 2 := by
  have hall : ∀ k < 26, (subslot tchhSubslot k).val < 2 := by decide
  exact hall _ (Nat.mod_lt _ (by norm_num))

/-- Where the combination V asks for a flag, it is one of four. -/
theorem consulted_V_lt {burstFN : ℕ} {ss : Fin 8} (h : consulted (some .V) burstFN = some ss) :
    ss.val < 4 := by
  have hall : ∀ k < 102, (subslot sdcch4Subslot k).val < 4 := by decide
  simp only [consulted] at h
  split_ifs at h
  rw [← Option.some.inj h]
  exact hall _ (Nat.mod_lt _ (by norm_num))

theorem exists_consulted_V : ∀ ss : Fin 8, ss.val < 4 →
    ∃ fn < 51, consulted (some .V) fn = some ss := by
  decide +kernel

theorem exists_consulted_VII : ∀ ss : Fin 8, ∃ fn < 51, consulted (some .VII) fn = some ss := by
  decide +kernel

theorem consults_iff (combination : Option ChannelCombination) (ss : Fin 8) :
    Consults combination ss ↔ ∃ fn, consulted combination fn = some ss := by
  rcases combination with _ | c
  · simp [Consults, consulted]
  · cases c with
    | I =>
      refine ⟨fun h => ⟨0, congrArg some (Fin.ext h.symm)⟩, ?_⟩
      rintro ⟨fn, h⟩
      rw [← Option.some.inj h]
      rfl
    | II =>
      refine ⟨fun h => ⟨0, ?_⟩, ?_⟩
      · obtain rfl : ss = 0 := Fin.ext h
        decide
      · rintro ⟨fn, h⟩
        simp only [consulted] at h
        split_ifs at h
        rw [← Option.some.inj h]
        rfl
    | III =>
      constructor
      · intro h
        have hall : ∀ ss : Fin 8, ss.val < 2 → ∃ fn < 2, consulted (some .III) fn = some ss := by
          decide
        obtain ⟨fn, -, hfn⟩ := hall ss h
        exact ⟨fn, hfn⟩
      · rintro ⟨fn, h⟩
        rw [← Option.some.inj h]
        exact subslot_tchh_lt fn
    | V =>
      constructor
      · intro h
        obtain ⟨fn, -, hfn⟩ := exists_consulted_V ss h
        exact ⟨fn, hfn⟩
      · rintro ⟨fn, h⟩
        exact consulted_V_lt h
    | VII =>
      refine ⟨fun _ => ?_, fun _ => trivial⟩
      obtain ⟨fn, -, hfn⟩ := exists_consulted_VII ss
      exact ⟨fn, hfn⟩
    | _ => simp [Consults, consulted]

/-- The combination of a slot. -/
def Transceiver.combination (t : Transceiver n Q) (chan : Fin n) (burstTN : Fin 8) :
    Option ChannelCombination :=
  ChannelCombination.ofCode ((t.mStates chan).chanType burstTN)

variable {t t' : Transceiver n Q} {burstTN : Fin 8} {burstFN : ℕ} {chan : Fin n}

/-- Where a flag is asked for, it decides. -/
theorem expectedCorrType_of_consulted {ss : Fin 8}
    (h : consulted (t.combination chan burstTN) burstFN = some ss) :
    expectedCorrType t burstTN burstFN chan =
      if t.mHandover burstTN ss then .RACH else .TSC := by
  unfold Transceiver.combination at h
  unfold expectedCorrType
  rcases hc : ChannelCombination.ofCode ((t.mStates chan).chanType burstTN) with _ | c
  · rw [hc] at h
    cases h
  · rw [hc] at h
    cases c with
    | I => rw [← Option.some.inj h]
    | II =>
      simp only [consulted] at h
      split_ifs at h with hsub
      rw [← Option.some.inj h]
      simp only [if_neg hsub]
    | III => rw [← Option.some.inj h]
    | V =>
      simp only [consulted] at h
      split_ifs at h with hmod
      obtain ⟨h1, h2, h3⟩ : ¬ (burstFN % 51 ≤ 36 ∧ burstFN % 51 ≥ 14) ∧
          ¬ (burstFN % 51 = 4 ∨ burstFN % 51 = 5) ∧
          ¬ (burstFN % 51 = 45 ∨ burstFN % 51 = 46) := by
        simpa only [not_or] using hmod
      rw [← Option.some.inj h]
      simp only [if_neg h1, if_neg h2, if_neg h3]
    | VII =>
      simp only [consulted] at h
      split_ifs at h with hmod
      rw [← Option.some.inj h]
      simp only [if_neg hmod]
    | _ => cases h

/-- Where no flag is asked for, the flags do not matter. -/
theorem expectedCorrType_of_not_consulted
    (h : consulted (t.combination chan burstTN) burstFN = none)
    (htype : (t'.mStates chan).chanType burstTN = (t.mStates chan).chanType burstTN)
    (hext : t'.mExtRACH = t.mExtRACH) :
    expectedCorrType t' burstTN burstFN chan = expectedCorrType t burstTN burstFN chan := by
  unfold Transceiver.combination at h
  unfold expectedCorrType
  rw [htype, hext]
  rcases hc : ChannelCombination.ofCode ((t.mStates chan).chanType burstTN) with _ | c
  · rfl
  · rw [hc] at h
    cases c with
    | I => cases h
    | II =>
      simp only [consulted] at h
      split_ifs at h with hsub
      simp only [if_pos hsub]
    | III => cases h
    | V =>
      simp only [consulted] at h
      split_ifs at h with hmod
      rcases hmod with h1 | h2 | h3
      · simp only [if_pos h1]
      · simp only [if_pos h2]
      · simp only [if_pos h3]
    | VII =>
      simp only [consulted] at h
      split_ifs at h with hmod
      simp only [if_pos hmod]
    | _ => rfl

/-- **Two transceivers expect the same bursts exactly if the flags asked for agree**, if the
channel has the same slots in both. -/
theorem expectedCorrType_congr_iff
    (htype : (t'.mStates chan).chanType = (t.mStates chan).chanType)
    (hext : t'.mExtRACH = t.mExtRACH) :
    (∀ tn fn, expectedCorrType t' tn fn chan = expectedCorrType t tn fn chan) ↔
      ∀ tn ss, Consults (t.combination chan tn) ss →
        t'.mHandover tn ss = t.mHandover tn ss := by
  constructor
  · intro h tn ss hss
    obtain ⟨fn, hfn⟩ := (consults_iff _ _).mp hss
    have heq := h tn fn
    have hfn' : consulted (t'.combination chan tn) fn = some ss := by
      rw [Transceiver.combination, htype]
      exact hfn
    rw [expectedCorrType_of_consulted hfn, expectedCorrType_of_consulted hfn'] at heq
    revert heq
    cases t'.mHandover tn ss <;> cases t.mHandover tn ss <;> simp
  · intro h tn fn
    cases hc : consulted (t.combination chan tn) fn with
    | none => exact expectedCorrType_of_not_consulted hc (by rw [htype]) hext
    | some ss =>
      have hc' : consulted (t'.combination chan tn) fn = some ss := by
        rw [Transceiver.combination, htype]
        exact hc
      rw [expectedCorrType_of_consulted hc, expectedCorrType_of_consulted hc',
        h tn ss ((consults_iff _ _).mpr ⟨fn, hc⟩)]

end Trx
end OsmoTrx
