import OsmoTrx.Trx.Protocol

/-!
# Refused commands

A command that is refused should leave the transceiver as it was.  The handlers of RXTUNE and
TXTUNE store the frequency before they ask the radio, and a start sets the clocks before it
asks the radio; all others look before they store.

* `failed_rsp_iff` — the status can be read off a response.
* `handle_failed_iff` — when a command is answered with a status other than 0.
* `refused_unchanged_iff` — **a refused command changes nothing, unless the radio refuses a new
  frequency, or refuses to start while the clocks of the transceiver are not its own.**
-/

namespace OsmoTrx
namespace Trx

open GSM CText

variable {n : ℕ} {V ρ : Type} {Q : BurstQueue V}

/-! ## Responses -/

/-- `RSP <command> <status> ...` with a status other than 0. -/
def Failed (response : List Char) : Prop :=
  ∃ name status rest, response = "RSP ".toList ++ name ++ ' ' :: status :: rest ∧ ' ' ∉ name ∧
    status ≠ '0'

theorem failed_rsp_iff (c : Command) (status : Char) (results : List ℤ) :
    Failed (rsp c status results) ↔ status ≠ '0' := by
  constructor
  · rintro ⟨name, status', rest, hform, hname, hstatus⟩
    rw [rsp, List.append_assoc, List.append_assoc, List.append_cancel_left_eq] at hform
    -- the name is the first token of what follows, on both sides
    have htoken := congrArg token hform
    rw [token_append c.space_not_mem_name (Or.inr rfl), token_append hname (Or.inr rfl)] at htoken
    subst htoken
    rw [List.append_cancel_left_eq, List.cons.injEq, List.cons.injEq] at hform
    rw [hform.2.1]
    exact hstatus
  · intro hstatus
    exact ⟨c.name, status, _, rfl, c.space_not_mem_name, hstatus⟩

theorem failed_one (c : Command) (results : List ℤ) : Failed (rsp c '1' results) :=
  (failed_rsp_iff c '1' results).mpr (by decide)

theorem not_failed_zero (c : Command) (results : List ℤ) : ¬ Failed (rsp c '0' results) := by
  rw [failed_rsp_iff]
  exact not_not_intro rfl

/-- The response to NOISELEV while the transceiver is off. -/
theorem failed_noiselev : Failed "RSP NOISELEV 1  0".toList :=
  ⟨"NOISELEV".toList, '1', "  0".toList, rfl, by decide, by decide⟩

/-! ## Handlers -/

section Handlers

variable (R : RadioCalls ρ n) (junk : ℕ → ℤ) (t : Transceiver n Q) (r : ρ) (chan : Fin n)
  (params : List Char)

/-- What makes a handler answer with a status other than 0. -/
def Refuses (c : Command) : Prop :=
  let arg := argument junk c params
  match c with
  | .POWERON => t.mOn = false ∧ (R.start r).1 = false
  | .HANDOVER | .NOHANDOVER => arg 0 > 7 ∨ arg 1 > 7
  | .NOISELEV => t.mOn = false
  | .RXTUNE => (R.tuneRx r (arg 0 * 1000) chan).1 = false
  | .TXTUNE => (R.tuneTx r (arg 0 * 1000) chan).1 = false
  | .SETTSC => arg 0 > 7
  | _ => False

/-- What a refusal does not change because it is there already: the frequency that the radio
refuses, and the clock of a radio that refuses to start. -/
def AlreadySet (c : Command) : Prop :=
  let arg := argument junk c params
  match c with
  | .POWERON => t.mTransmitDeadlineClock = R.getClock r ∧ t.mLastClockUpdateTime = R.getClock r ∧
      t.mLatencyUpdateTime = R.getClock r
  | .RXTUNE => t.mRxFreq = arg 0 * 1000
  | .TXTUNE => t.mTxFreq = arg 0 * 1000
  | _ => True

/-- The response of the handler says that the command failed. -/
def HandlerFails (c : Command) : Prop :=
  ∃ response, (handle R junk t r chan c params).response = some response ∧ Failed response

/-- An answer with status 1 is a failure, … -/
theorem handlerFails_one {c c' : Command} {results : List ℤ}
    (h : (handle R junk t r chan c params).response = some (rsp c' '1' results)) :
    HandlerFails R junk t r chan params c :=
  ⟨_, h, failed_one c' results⟩

/-- … and one with status 0 is none. -/
theorem handlerFails_zero {c c' : Command} {results : List ℤ}
    (h : (handle R junk t r chan c params).response = some (rsp c' '0' results)) :
    ¬ HandlerFails R junk t r chan params c := by
  rintro ⟨response, hresponse, hfailed⟩
  rw [h] at hresponse
  rw [← Option.some.inj hresponse] at hfailed
  exact not_failed_zero c' results hfailed

/-- A handler that answers with status 1 exactly if `p` fails exactly then. -/
theorem handlerFails_iff {c : Command} {p : Prop}
    (hone : p → ∃ c' results,
      (handle R junk t r chan c params).response = some (rsp c' '1' results))
    (hzero : ¬ p → ∃ c' results,
      (handle R junk t r chan c params).response = some (rsp c' '0' results)) :
    HandlerFails R junk t r chan params c ↔ p := by
  by_cases hp : p
  · obtain ⟨_, _, hresponse⟩ := hone hp
    exact iff_of_true (handlerFails_one R junk t r chan params hresponse) hp
  · obtain ⟨_, _, hresponse⟩ := hzero hp
    exact iff_of_false (handlerFails_zero R junk t r chan params hresponse) hp

omit junk chan params in
/-- A start fails if the transceiver is off and the radio refuses. -/
theorem start_eq_false_iff : (t.start R r).1 = false ↔ t.mOn = false ∧ (R.start r).1 = false := by
  cases hon : t.mOn with
  | true => simp [Transceiver.start, hon]
  | false =>
    rcases hstart : R.start r with ⟨ok, r'⟩
    cases ok <;> simp [Transceiver.start, hon, hstart]

/-- **When a command is answered with a status other than 0.** -/
theorem handle_failed_iff (c : Command) :
    HandlerFails R junk t r chan params c ↔ Refuses R junk t r chan params c := by
  cases c with
  | POWERON =>
    rw [Refuses, ← start_eq_false_iff]
    rcases hstart : t.start R r with ⟨ok, t', r'⟩
    refine handlerFails_iff R junk t r chan params ?_ ?_
    · rintro rfl
      exact ⟨_, _, by rw [handle, hstart]⟩
    · intro hok
      obtain rfl := Bool.eq_true_of_not_eq_false hok
      exact ⟨_, _, by rw [handle, hstart]⟩
  | HANDOVER =>
    simp only [Refuses]
    exact handlerFails_iff R junk t r chan params (fun h => ⟨_, _, by rw [handle, if_pos h]⟩)
      fun h => ⟨_, _, by rw [handle, if_neg h]⟩
  | NOHANDOVER =>
    simp only [Refuses]
    exact handlerFails_iff R junk t r chan params (fun h => ⟨_, _, by rw [handle, if_pos h]⟩)
      fun h => ⟨_, _, by rw [handle, if_neg h]⟩
  | NOISELEV =>
    cases hon : t.mOn with
    | false =>
      exact iff_of_true ⟨_, by rw [handle, if_neg (by simp [hon])], failed_noiselev⟩ hon
    | true =>
      refine iff_of_false
        (handlerFails_zero R junk t r chan params (by rw [handle, if_pos hon])) ?_
      simp only [Refuses, hon, Bool.true_eq_false, not_false_eq_true]
  | RXTUNE =>
    rw [Refuses]
    rcases htune : R.tuneRx r (argument junk .RXTUNE params 0 * 1000) chan with ⟨ok, r'⟩
    refine handlerFails_iff R junk t r chan params ?_ ?_
    · rintro rfl
      exact ⟨_, _, by simp only [handle, htune]; rfl⟩
    · intro hok
      obtain rfl := Bool.eq_true_of_not_eq_false hok
      exact ⟨_, _, by simp only [handle, htune]; rfl⟩
  | TXTUNE =>
    rw [Refuses]
    rcases htune : R.tuneTx r (argument junk .TXTUNE params 0 * 1000) chan with ⟨ok, r'⟩
    refine handlerFails_iff R junk t r chan params ?_ ?_
    · rintro rfl
      exact ⟨_, _, by simp only [handle, htune]; rfl⟩
    · intro hok
      obtain rfl := Bool.eq_true_of_not_eq_false hok
      exact ⟨_, _, by simp only [handle, htune]; rfl⟩
  | SETTSC =>
    simp only [Refuses]
    exact handlerFails_iff R junk t r chan params (fun h => ⟨_, _, by rw [handle, if_pos h]⟩)
      fun h => ⟨_, _, by rw [handle, if_neg h]⟩
  | SETSLOT =>
    by_cases hrange : argument junk .SETSLOT params 0 < 0 ∨ argument junk .SETSLOT params 0 > 7
    · -- out of range there is no answer at all
      refine iff_of_false ?_ id
      rintro ⟨response, hresponse, -⟩
      simp only [handle, dif_pos hrange, reduceCtorEq] at hresponse
    · exact iff_of_false
        (handlerFails_zero R junk t r chan params (by rw [handle, dif_neg hrange])) id
  | POWEROFF => exact iff_of_false (handlerFails_zero R junk t r chan params rfl) id
  | SETMAXDLY => exact iff_of_false (handlerFails_zero R junk t r chan params rfl) id
  | SETMAXDLYNB => exact iff_of_false (handlerFails_zero R junk t r chan params rfl) id
  | SETRXGAIN => exact iff_of_false (handlerFails_zero R junk t r chan params rfl) id
  | SETPOWER => exact iff_of_false (handlerFails_zero R junk t r chan params rfl) id
  | ADJPOWER => exact iff_of_false (handlerFails_zero R junk t r chan params rfl) id
  | SETBURSTTODISKMASK => exact iff_of_false (handlerFails_zero R junk t r chan params rfl) id

/-- **What a refused command changes**: nothing, exactly if the value it stores first is there
already. -/
theorem handle_refused_iff {c : Command} (h : Refuses R junk t r chan params c) :
    (handle R junk t r chan c params).trx = t ↔ AlreadySet R junk t r params c := by
  cases c with
  | POWERON =>
    obtain ⟨hon, hstart⟩ := h
    rcases hst : R.start r with ⟨ok, r'⟩
    obtain rfl : ok = false := by rw [hst] at hstart; exact hstart
    simp only [handle, Transceiver.start, hon, hst, Bool.false_eq_true, if_false, AlreadySet]
    constructor
    · intro heq
      rw [← heq]
      exact ⟨rfl, rfl, rfl⟩
    · rintro ⟨hdeadline, hlast, hlatency⟩
      cases t
      simp only at hdeadline hlast hlatency hon
      subst hdeadline hlast hlatency hon
      rfl
  | RXTUNE =>
    rw [handle_rxtune_trx, AlreadySet]
    constructor
    · intro heq
      rw [← heq]
    · intro hfreq
      cases t
      subst hfreq
      rfl
  | TXTUNE =>
    rw [handle_txtune_trx, AlreadySet]
    constructor
    · intro heq
      rw [← heq]
    · intro hfreq
      cases t
      subst hfreq
      rfl
  | HANDOVER =>
    simp only [Refuses] at h
    exact iff_of_true (by rw [handle, if_pos h]) trivial
  | NOHANDOVER =>
    simp only [Refuses] at h
    exact iff_of_true (by rw [handle, if_pos h]) trivial
  | NOISELEV =>
    exact iff_of_true (handle_noiselev_trx R junk t r chan params) trivial
  | SETTSC =>
    simp only [Refuses] at h
    exact iff_of_true (by rw [handle, if_pos h]) trivial
  | _ => exact h.elim

end Handlers

/-! ## Datagrams -/

/-- **A refused command changes nothing**: if the datagram is not recognised, or is answered
with a status other than 0, the transceiver is as it was. -/
def RefusalKeeps (R : RadioCalls ρ n) (junk : ℕ → ℤ) (t : Transceiver n Q) (r : ρ)
    (chan : Fin n) (msg : List Char) : Prop :=
  let out := driveControl R junk t r chan msg
  (recognised msg = none ∨ ∃ response, out.sent = reply chan response ∧ Failed response) →
    out.trx = t

/-- **A refused command changes nothing, unless** the radio refuses a frequency that the
transceiver does not have yet, or refuses to start while the transceiver's clocks are not the
clock of the radio. -/
theorem refused_unchanged_iff (R : RadioCalls ρ n) (junk : ℕ → ℤ) (t : Transceiver n Q) (r : ρ)
    (chan : Fin n) (msg : List Char) :
    RefusalKeeps R junk t r chan msg ↔
      ∀ c params, recognised msg = some (c, params) → Refuses R junk t r chan params c →
        AlreadySet R junk t r params c := by
  unfold RefusalKeeps
  cases hrec : recognised msg with
  | none =>
    rw [driveControl_of_unrecognised R junk t r chan hrec]
    exact iff_of_true (fun _ => rfl) (by simp)
  | some p =>
    obtain ⟨c, params⟩ := p
    rw [driveControl_of_recognised R junk t r chan hrec]
    simp only [reduceCtorEq, false_or, elim_reply_iff, Option.some.injEq, Prod.mk.injEq]
    have hfails := handle_failed_iff R junk t r chan params c
    constructor
    · rintro hkeeps _ _ ⟨rfl, rfl⟩ hrefuses
      exact (handle_refused_iff R junk t r chan params hrefuses).mp (hkeeps (hfails.mpr hrefuses))
    · intro hset hfailed
      have hrefuses := hfails.mp hfailed
      exact (handle_refused_iff R junk t r chan params hrefuses).mpr
        (hset c params ⟨rfl, rfl⟩ hrefuses)

/-- A radio with its own clock that refuses everything. -/
def refusingRadio (n : ℕ) : RadioCalls Unit n where
  start _ := (false, ())
  stop _ := (false, ())
  getClock _ := ⟨100, 0⟩
  tuneTx _ _ _ := (false, ())
  tuneRx _ _ _ := (false, ())
  setRxGain _ db _ := (db, ())
  setPowerAttenuation _ atten _ := (atten, ())
  noiseLevel _ := 50

/-- A refused RXTUNE leaves its frequency behind, and a refused POWERON the clock of the
radio. -/
theorem refused_rxtune_stored :
    ¬ RefusalKeeps (refusingRadio 1) (fun _ => 0) (newTrx 1) () 0 "CMD RXTUNE 935000".toList ∧
    ¬ RefusalKeeps (refusingRadio 1) (fun _ => 0) (newTrx 1) () 0 "CMD POWERON".toList := by
  constructor
  · intro hkeeps
    have hsent : (driveControl (refusingRadio 1) (fun _ => 0) (newTrx 1) () 0
        "CMD RXTUNE 935000".toList).sent = reply 0 (rsp .RXTUNE '1' [935000]) := by
      decide +kernel
    have hsame := congrArg Transceiver.mRxFreq
      (hkeeps (Or.inr ⟨_, hsent, failed_one .RXTUNE [935000]⟩))
    exact absurd hsame (by decide +kernel)
  · intro hkeeps
    have hsent : (driveControl (refusingRadio 1) (fun _ => 0) (newTrx 1) () 0
        "CMD POWERON".toList).sent = reply 0 (rsp .POWERON '1' []) := by decide +kernel
    have hsame := congrArg Transceiver.mTransmitDeadlineClock
      (hkeeps (Or.inr ⟨_, hsent, failed_one .POWERON []⟩))
    exact absurd hsame (by decide +kernel)

end Trx
end OsmoTrx
