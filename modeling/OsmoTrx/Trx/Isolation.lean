import OsmoTrx.Trx.CorrType
import OsmoTrx.Trx.Control
import OsmoTrx.Lib.Run

/-!
# Isolation of the channels

Every channel has a control socket of its own, but the handover flags belong to the
transceiver: what is sent to one channel may change the bursts that another expects.

* `handle_frame` — the slots of the other channels are not touched by a command.
* `handle_mHandover_iff` — what a command does to the flags that a channel asks for.
* `run_isolated_iff` — **in a run, the bursts that a channel expects are not affected by the
  commands sent to the others if and only if these leave the flags it asks for as they are.**
-/

namespace OsmoTrx
namespace Trx

open GSM CText

variable {n : ℕ} {V ρ : Type} {Q : BurstQueue V}

/-! ## One command -/

section Command

variable (R : RadioCalls ρ n) (junk : ℕ → ℤ) {t : Transceiver n Q} (r : ρ) {chan i : Fin n}
  (c : Command) (params : List Char)

/-- A command does not touch the slots of another channel, nor the type of its access
bursts. -/
theorem handle_frame (hne : i ≠ chan) :
    ((handle R junk t r chan c params).trx.mStates i).chanType = (t.mStates i).chanType ∧
      (handle R junk t r chan c params).trx.mExtRACH = t.mExtRACH := by
  cases c with
  | POWEROFF =>
    obtain ⟨_, _, heq⟩ := t.stop_writes R r
    simp only [handle, heq, and_self]
  | POWERON =>
    obtain ⟨_, _, _, _, _, _, heq⟩ := handle_poweron_trx R junk t r chan params
    rw [heq]
    exact ⟨rfl, rfl⟩
  | HANDOVER =>
    simp only [handle]
    split_ifs <;> exact ⟨rfl, rfl⟩
  | NOHANDOVER =>
    simp only [handle]
    split_ifs <;> exact ⟨rfl, rfl⟩
  | NOISELEV =>
    rw [handle_noiselev_trx]
    exact ⟨rfl, rfl⟩
  | SETPOWER =>
    simp [handle, Transceiver.setPower, Function.update_of_ne hne, Transceiver.updateState]
  | ADJPOWER =>
    simp [handle, Transceiver.setPower, Function.update_of_ne hne, Transceiver.updateState]
  | RXTUNE =>
    rw [handle_rxtune_trx]
    exact ⟨rfl, rfl⟩
  | TXTUNE =>
    rw [handle_txtune_trx]
    exact ⟨rfl, rfl⟩
  | SETTSC =>
    simp only [handle]
    split_ifs <;> exact ⟨rfl, rfl⟩
  | SETSLOT =>
    simp only [handle]
    split_ifs
    · exact ⟨rfl, rfl⟩
    · simp [Function.update_of_ne hne, Transceiver.updateState]
  | _ => exact ⟨rfl, rfl⟩

/-- The handover flag that the parameters name has the value `flag` already, or channel `i`
does not ask for it. -/
def FlagKept (t : Transceiver n Q) (i : Fin n) (ts ss : ℤ) (flag : Bool) : Prop :=
  ∀ tn sub : Fin 8, ts = tn.val → ss = sub.val → Consults (t.combination i tn) sub →
    t.mHandover tn sub = flag

/-- A command leaves the flags that channel `i` asks for as they are. -/
def Isolated (junk : ℕ → ℤ) (t : Transceiver n Q) (i : Fin n) (c : Command)
    (params : List Char) : Prop :=
  match c with
  | .HANDOVER =>
    FlagKept t i (argument junk .HANDOVER params 0) (argument junk .HANDOVER params 1) true
  | .NOHANDOVER =>
    FlagKept t i (argument junk .NOHANDOVER params 0) (argument junk .NOHANDOVER params 1) false
  | .POWERON => ∀ tn sub, Consults (t.combination i tn) sub → t.mHandover tn sub = false
  | _ => True

theorem setHandover_kept_iff (ts ss : ℤ) (flag : Bool) :
    (∀ tn sub, Consults (t.combination i tn) sub →
      (if ts > 7 ∨ ss > 7 then t else t.setHandover ts ss flag).mHandover tn sub =
        t.mHandover tn sub) ↔ FlagKept t i ts ss flag := by
  constructor
  · rintro h tn sub rfl rfl hc
    have hkept := h tn sub hc
    rw [if_neg (by omega)] at hkept
    simpa [Transceiver.setHandover] using hkept.symm
  · intro h tn sub hc
    split_ifs
    · rfl
    · simp only [Transceiver.setHandover]
      split_ifs with hthis
      · exact (h tn sub hthis.1.symm hthis.2.symm hc).symm
      · rfl

/-- While the transceiver is on, a command keeps the flags that channel `i` asks for exactly
if it is isolated from it. -/
theorem handle_mHandover_iff (hon : t.mOn = true) :
    (∀ tn sub, Consults (t.combination i tn) sub →
      (handle R junk t r chan c params).trx.mHandover tn sub = t.mHandover tn sub) ↔
    Isolated junk t i c params := by
  cases c with
  | HANDOVER =>
    rw [Isolated, ← setHandover_kept_iff]
    simp only [handle, apply_ite Handled.trx]
  | NOHANDOVER =>
    rw [Isolated, ← setHandover_kept_iff]
    simp only [handle, apply_ite Handled.trx]
  | POWERON =>
    simp only [handle, Transceiver.start_of_mOn R hon, Isolated]
    exact ⟨fun h tn sub hc => (h tn sub hc).symm, fun h tn sub hc => (h tn sub hc).symm⟩
  | POWEROFF =>
    refine iff_of_true (fun tn sub _ => ?_) trivial
    obtain ⟨_, _, heq⟩ := t.stop_writes R r
    simp only [handle, heq]
  | NOISELEV =>
    refine iff_of_true (fun tn sub _ => ?_) trivial
    rw [handle_noiselev_trx]
  | RXTUNE =>
    refine iff_of_true (fun tn sub _ => ?_) trivial
    rw [handle_rxtune_trx]
  | TXTUNE =>
    refine iff_of_true (fun tn sub _ => ?_) trivial
    rw [handle_txtune_trx]
  | SETTSC =>
    refine iff_of_true (fun tn sub _ => ?_) trivial
    simp only [handle]
    split_ifs <;> rfl
  | SETSLOT =>
    refine iff_of_true (fun tn sub _ => ?_) trivial
    simp only [handle]
    split_ifs <;> rfl
  | _ => exact iff_of_true (fun _ _ _ => rfl) trivial

end Command

/-! ## Datagrams -/

/-- A datagram on the control socket of a channel, with what variables hold that have never
been assigned. -/
structure ControlEvent (n : ℕ) where
  chan : Fin n
  msg : List Char
  junk : ℕ → ℤ

/-- `driveControl` on the transceiver and its radio. -/
def controlStep (R : RadioCalls ρ n) (s : Transceiver n Q × ρ) (e : ControlEvent n) :
    Transceiver n Q × ρ :=
  let out := driveControl R e.junk s.1 s.2 e.chan e.msg
  (out.trx, out.radio)

/-- Channel `i` expects the same bursts before and after the datagram. -/
def Unaffected (R : RadioCalls ρ n) (i : Fin n) (s : Transceiver n Q × ρ)
    (e : ControlEvent n) : Prop :=
  ∀ tn fn, expectedCorrType (controlStep R s e).1 tn fn i = expectedCorrType s.1 tn fn i

/-- The transceiver is on, and the datagram is for another channel and is not POWEROFF. -/
def Foreign (i : Fin n) (s : Transceiver n Q × ρ) (e : ControlEvent n) : Prop :=
  s.1.mOn = true ∧ i ≠ e.chan ∧ ∀ params, recognised e.msg ≠ some (.POWEROFF, params)

/-- The command in the datagram is isolated from channel `i`. -/
def KeepsFlags (i : Fin n) (s : Transceiver n Q × ρ) (e : ControlEvent n) : Prop :=
  ∀ c params, recognised e.msg = some (c, params) → Isolated e.junk s.1 i c params

/-- **One datagram.** -/
theorem unaffected_iff (R : RadioCalls ρ n) {i : Fin n} {s : Transceiver n Q × ρ}
    {e : ControlEvent n} (h : Foreign i s e) : Unaffected R i s e ↔ KeepsFlags i s e := by
  obtain ⟨hon, hne, -⟩ := h
  unfold Unaffected KeepsFlags controlStep
  cases hrec : recognised e.msg with
  | none =>
    rw [driveControl_of_unrecognised R e.junk s.1 s.2 e.chan hrec]
    exact iff_of_true (fun _ _ => rfl) (by simp)
  | some p =>
    obtain ⟨c, params⟩ := p
    rw [driveControl_of_recognised R e.junk s.1 s.2 e.chan hrec]
    obtain ⟨htype, hext⟩ := handle_frame (t := s.1) R e.junk s.2 c params hne
    rw [expectedCorrType_congr_iff htype hext, handle_mHandover_iff R e.junk s.2 c params hon]
    constructor
    · rintro hiso c' params' ⟨rfl, rfl⟩
      exact hiso
    · intro hiso
      exact hiso c params rfl

/-- **Isolation over runs.**  In every run of datagrams from any state, the foreign ones all
leave channel `i` with the bursts it expected if and only if they all leave the flags it
asks for as they are. -/
theorem run_isolated_iff (R : RadioCalls ρ n) (i : Fin n) (events : List (ControlEvent n)) :
    ∀ s : Transceiver n Q × ρ,
    Run.Along (controlStep R) (fun s e => Foreign i s e → Unaffected R i s e) s events ↔
      Run.Along (controlStep R) (fun s e => Foreign i s e → KeepsFlags i s e) s events := by
  induction events with
  | nil => exact fun _ => Iff.rfl
  | cons e events ih =>
    intro s
    rw [Run.along_cons, Run.along_cons, ih]
    exact and_congr_left fun _ => forall_congr' fun h => unaffected_iff R h

/-- A run of foreign datagrams that keep the flags might as well not have happened, as far as
the bursts that channel `i` expects are concerned. -/
theorem expectedCorrType_exec (R : RadioCalls ρ n) (i : Fin n) (events : List (ControlEvent n)) :
    ∀ s : Transceiver n Q × ρ,
    Run.Along (controlStep R) (fun s e => Foreign i s e ∧ KeepsFlags i s e) s events →
    ∀ tn fn, expectedCorrType (Run.exec (controlStep R) s events).1 tn fn i =
      expectedCorrType s.1 tn fn i := by
  induction events with
  | nil => exact fun _ _ _ _ => rfl
  | cons e events ih =>
    rintro s ⟨⟨hforeign, hkeeps⟩, hrest⟩ tn fn
    rw [Run.exec_cons, ih _ hrest]
    exact (unaffected_iff R hforeign).mpr hkeeps tn fn

/-- Channel 0 is switched on and its slot 0 given to a traffic channel. -/
def setUp : List (ControlEvent 2) :=
  [⟨0, "CMD POWERON".toList, fun _ => 0⟩, ⟨0, "CMD SETSLOT 0 1".toList, fun _ => 0⟩]

/-- HANDOVER on the socket of channel 1. -/
def handoverElsewhere : ControlEvent 2 := ⟨1, "CMD HANDOVER 0 0".toList, fun _ => 0⟩

/-- **HANDOVER on one channel** makes another expect access bursts in place of normal ones. -/
theorem handover_not_isolated :
    let s := Run.exec (controlStep (obedientRadio 2)) (newTrx 2, ()) setUp
    Foreign 0 s handoverElsewhere ∧
      expectedCorrType s.1 0 0 0 = .TSC ∧
      expectedCorrType (controlStep (obedientRadio 2) s handoverElsewhere).1 0 0 0 = .RACH ∧
      ¬ Unaffected (obedientRadio 2) 0 s handoverElsewhere := by
  intro s
  have hbefore : expectedCorrType s.1 0 0 0 = .TSC := by decide +kernel
  have hafter : expectedCorrType (controlStep (obedientRadio 2) s handoverElsewhere).1 0 0 0 =
      .RACH := by decide +kernel
  have hcommand : recognised handoverElsewhere.msg = some (.HANDOVER, "0 0".toList) := by decide
  refine ⟨⟨by decide +kernel, by decide, ?_⟩, hbefore, hafter, ?_⟩
  · intro params h
    rw [hcommand] at h
    cases h
  · intro h
    have heq := h 0 0
    rw [hbefore, hafter] at heq
    cases heq

end Trx
end OsmoTrx
