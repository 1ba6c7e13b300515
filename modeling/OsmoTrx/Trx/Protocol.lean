import OsmoTrx.Trx.Control

/-!
# The control protocol

What a user of the control interface may rely on: every command has a response that names it
and tells whether it was carried out, and only what is written as a command is carried out.

* `CarriedOut` — what each command is to achieve.
* `follows_protocol_iff` — **the response to a command is the promised one, unless the command
  is SETSLOT or HANDOVER with a parameter out of range.**
* `InGrammar` — a command and its parameters, as they are to be written.
* `acts_on_grammar_iff` — **what is not in the grammar is not carried out and changes nothing,
  unless it matches a command all the same**, the harmless cases excepted.
-/

namespace OsmoTrx
namespace Trx

open GSM CText

variable {n : ℕ} {V ρ : Type} {Q : BurstQueue V}

/-! ## Commands that are carried out -/

/-- What a command is to achieve, with the state before and after it. -/
def CarriedOut (R : RadioCalls ρ n) (junk : ℕ → ℤ) (t : Transceiver n Q) (r : ρ) (chan : Fin n)
    (c : Command) (params : List Char) (t' : Transceiver n Q) (r' : ρ) : Prop :=
  let arg := argument junk c params
  match c with
  | .POWEROFF => t'.mOn = false
  | .POWERON => t'.mOn = true
  | .HANDOVER => ∃ ts ss : Fin 8, arg 0 = ts.val ∧ arg 1 = ss.val ∧ t'.mHandover ts ss = true
  | .NOHANDOVER => ∃ ts ss : Fin 8, arg 0 = ts.val ∧ arg 1 = ss.val ∧ t'.mHandover ts ss = false
  | .SETMAXDLY => t'.mMaxExpectedDelayAB = u32 (arg 0)
  | .SETMAXDLYNB => t'.mMaxExpectedDelayNB = u32 (arg 0)
  | .SETRXGAIN => r' = (R.setRxGain r (arg 0) chan).2
  | .NOISELEV => t.mOn = true
  | .SETPOWER => let set := R.setPowerAttenuation r (arg 0) chan
    (t'.mStates chan).mPower = set.1 ∧ r' = set.2
  | .ADJPOWER => let set := R.setPowerAttenuation r (i32 ((t.mStates chan).mPower + arg 0)) chan
    (t'.mStates chan).mPower = set.1 ∧ r' = set.2
  | .RXTUNE => (R.tuneRx r (arg 0 * 1000) chan).1 = true
  | .TXTUNE => (R.tuneTx r (arg 0 * 1000) chan).1 = true
  | .SETTSC => arg 0 ≤ 7 ∧ t'.mTSC = arg 0
  | .SETSLOT => ∃ ts : Fin 8, arg 0 = ts.val ∧ (t'.mStates chan).chanType ts = arg 1
  | .SETBURSTTODISKMASK => t'.mWriteBurstToDiskMask = u32 (arg 0)

/-- `RSP <command> <status> ...`, with status 0 exactly if the command was carried out. -/
def Answers (c : Command) (carriedOut : Prop) (response : List Char) : Prop :=
  ∃ status rest, response = "RSP ".toList ++ c.name ++ ' ' :: status :: rest ∧
    (rest = [] ∨ rest.head? = some ' ') ∧ (status = '0' ↔ carriedOut)

theorem answers_rsp {c : Command} {status : Char} {results : List ℤ} {carriedOut : Prop}
    (h : status = '0' ↔ carriedOut) : Answers c carriedOut (rsp c status results) := by
  refine ⟨status, _, rfl, ?_, h⟩
  cases results with
  | nil => exact Or.inl rfl
  | cons v results => exact Or.inr rfl

theorem answers_ok {c : Command} {results : List ℤ} {carriedOut : Prop} (h : carriedOut) :
    Answers c carriedOut (rsp c '0' results) :=
  answers_rsp (iff_of_true rfl h)

theorem answers_failed {c : Command} {results : List ℤ} {carriedOut : Prop} (h : ¬ carriedOut) :
    Answers c carriedOut (rsp c '1' results) :=
  answers_rsp (iff_of_false (by decide) h)

/-- The parameters with which a command is not answered as promised. -/
def OutOfRange (junk : ℕ → ℤ) (c : Command) (params : List Char) : Prop :=
  match c with
  | .HANDOVER => argument junk .HANDOVER params 0 > 7 ∨ argument junk .HANDOVER params 1 > 7
  | .SETSLOT => argument junk .SETSLOT params 0 < 0 ∨ argument junk .SETSLOT params 0 > 7
  | _ => False

/-- The parameters of HANDOVER and NOHANDOVER are unsigned. -/
theorem argument_nonneg {c : Command} (hconv : c.conversions = [.u, .u])
    (hinit : c.initialised = true) (junk : ℕ → ℤ) (params : List Char) {k : ℕ} (hk : k < 2) :
    0 ≤ argument junk c params k := by
  unfold argument
  cases h : (sscanf c.conversions params)[k]? with
  | none => simp [hinit]
  | some v =>
    obtain ⟨w, rfl⟩ := sscanf_store h
    have hu : c.conversions.getD k .d = .u := by
      rw [hconv]
      interval_cases k <;> rfl
    rw [Option.getD_some, hu]
    exact (Conv.store_u_range w).1

/-- A number from 0 to 7 as an index. -/
theorem exists_index {v : ℤ} (h0 : 0 ≤ v) (h7 : v ≤ 7) : ∃ k : Fin 8, v = k.val :=
  ⟨⟨v.toNat, by omega⟩, by simp [h0]⟩

section Handlers

variable (R : RadioCalls ρ n) (junk : ℕ → ℤ) (t : Transceiver n Q) (r : ρ) (chan : Fin n)
  (params : List Char)

/-- The command achieves what it is to achieve. -/
abbrev Done (c : Command) : Prop :=
  CarriedOut R junk t r chan c params (handle R junk t r chan c params).trx
    (handle R junk t r chan c params).radio

omit R junk r chan params in
/-- A flag is set exactly if it exists. -/
theorem setHandover_done_iff {ts ss : ℤ} (hts : 0 ≤ ts) (hss : 0 ≤ ss) (flag : Bool) :
    (∃ i j : Fin 8, ts = i.val ∧ ss = j.val ∧
      (if ts > 7 ∨ ss > 7 then t else t.setHandover ts ss flag).mHandover i j = flag) ↔
    ¬ (ts > 7 ∨ ss > 7) := by
  constructor
  · rintro ⟨i, j, hi, hj, -⟩
    omega
  · intro hrange
    obtain ⟨i, hi⟩ := exists_index hts (by omega)
    obtain ⟨j, hj⟩ := exists_index hss (by omega)
    rw [if_neg hrange]
    exact ⟨i, j, hi, hj, by simp [Transceiver.setHandover, hi, hj]⟩

theorem handover_done_iff : Done R junk t r chan params .HANDOVER ↔
    ¬ (argument junk .HANDOVER params 0 > 7 ∨ argument junk .HANDOVER params 1 > 7) := by
  rw [← setHandover_done_iff t (argument_nonneg rfl rfl junk params (k := 0) (by norm_num))
    (argument_nonneg rfl rfl junk params (k := 1) (by norm_num)) true]
  simp only [Done, CarriedOut, handle, apply_ite Handled.trx]

theorem nohandover_done_iff : Done R junk t r chan params .NOHANDOVER ↔
    ¬ (argument junk .NOHANDOVER params 0 > 7 ∨ argument junk .NOHANDOVER params 1 > 7) := by
  rw [← setHandover_done_iff t (argument_nonneg rfl rfl junk params (k := 0) (by norm_num))
    (argument_nonneg rfl rfl junk params (k := 1) (by norm_num)) false]
  simp only [Done, CarriedOut, handle, apply_ite Handled.trx]

theorem setslot_done_iff : Done R junk t r chan params .SETSLOT ↔
    ¬ (argument junk .SETSLOT params 0 < 0 ∨ argument junk .SETSLOT params 0 > 7) := by
  simp only [Done, CarriedOut, handle]
  constructor
  · rintro ⟨ts, hts, -⟩
    omega
  · intro hrange
    rw [dif_neg hrange]
    refine ⟨⟨(argument junk .SETSLOT params 0).toNat, by omega⟩, by simp; omega, ?_⟩
    simp

/-- POWERON succeeds exactly if the transceiver runs afterwards. -/
theorem poweron_done_iff : Done R junk t r chan params .POWERON ↔ (t.start R r).1 = true := by
  rw [Transceiver.start_iff_mOn]
  simp only [Done, CarriedOut, handle]
  have hmOn := Transceiver.start_iff_mOn R t r
  rcases t.start R r with ⟨ok, t', r'⟩
  cases ok <;> rfl

/-- With its parameters in range, a command is answered as promised. -/
theorem handle_answers {c : Command} (hrange : ¬ OutOfRange junk c params) :
    ∃ response, (handle R junk t r chan c params).response = some response ∧
      Answers c (Done R junk t r chan params c) response := by
  cases c with
  | POWEROFF => exact ⟨_, rfl, answers_ok (Transceiver.stop_mOn R t r)⟩
  | POWERON =>
    rw [poweron_done_iff]
    simp only [handle]
    rcases t.start R r with ⟨ok, t', r'⟩
    cases ok with
    | false => exact ⟨_, rfl, answers_failed Bool.false_ne_true⟩
    | true => exact ⟨_, rfl, answers_ok rfl⟩
  | HANDOVER =>
    rw [handover_done_iff]
    simp only [OutOfRange] at hrange
    simp only [handle, if_neg hrange]
    exact ⟨_, rfl, answers_ok hrange⟩
  | NOHANDOVER =>
    rw [nohandover_done_iff]
    simp only [handle]
    split_ifs with hrefused
    · exact ⟨_, rfl, answers_failed (not_not_intro hrefused)⟩
    · exact ⟨_, rfl, answers_ok hrefused⟩
  | NOISELEV =>
    simp only [Done, CarriedOut, handle]
    cases hon : t.mOn with
    | false =>
      exact ⟨_, rfl, '1', "  0".toList, rfl, Or.inr rfl,
        iff_of_false (by decide) Bool.false_ne_true⟩
    | true => exact ⟨_, rfl, answers_ok rfl⟩
  | RXTUNE =>
    simp only [Done, CarriedOut, handle]
    rcases R.tuneRx r (argument junk .RXTUNE params 0 * 1000) chan with ⟨ok, r'⟩
    cases ok with
    | false => exact ⟨_, rfl, answers_failed Bool.false_ne_true⟩
    | true => exact ⟨_, rfl, answers_ok rfl⟩
  | TXTUNE =>
    simp only [Done, CarriedOut, handle]
    rcases R.tuneTx r (argument junk .TXTUNE params 0 * 1000) chan with ⟨ok, r'⟩
    cases ok with
    | false => exact ⟨_, rfl, answers_failed Bool.false_ne_true⟩
    | true => exact ⟨_, rfl, answers_ok rfl⟩
  | SETTSC =>
    simp only [Done, CarriedOut, handle]
    split_ifs with htsc
    · exact ⟨_, rfl, answers_failed fun h => not_lt.mpr h.1 htsc⟩
    · exact ⟨_, rfl, answers_ok ⟨not_lt.mp htsc, rfl⟩⟩
  | SETSLOT =>
    rw [setslot_done_iff]
    simp only [OutOfRange] at hrange
    simp only [handle, dif_neg hrange]
    exact ⟨_, rfl, answers_ok hrange⟩
  | SETPOWER => exact ⟨_, rfl, answers_ok ⟨by simp [handle, Transceiver.setPower], rfl⟩⟩
  | ADJPOWER => exact ⟨_, rfl, answers_ok ⟨by simp [handle, Transceiver.setPower], rfl⟩⟩
  | SETMAXDLY => exact ⟨_, rfl, answers_ok rfl⟩
  | SETMAXDLYNB => exact ⟨_, rfl, answers_ok rfl⟩
  | SETRXGAIN => exact ⟨_, rfl, answers_ok rfl⟩
  | SETBURSTTODISKMASK => exact ⟨_, rfl, answers_ok rfl⟩

omit R junk t r chan params in
/-- NOHANDOVER is not how a response to HANDOVER begins. -/
theorem rsp_nohandover_ne (status : Char) (results : List ℤ) (rest : List Char) :
    rsp .NOHANDOVER status results ≠ "RSP ".toList ++ Command.HANDOVER.name ++ rest := by
  have hno : Command.NOHANDOVER.name = 'N' :: "OHANDOVER".toList := by decide
  have hname : Command.HANDOVER.name = 'H' :: "ANDOVER".toList := by decide
  intro h
  unfold rsp at h
  rw [List.append_assoc, List.append_assoc, List.append_cancel_left_eq, hno, hname,
    List.cons_append, List.cons_append, List.cons.injEq] at h
  exact absurd h.1 (by decide)

/-- Out of range, HANDOVER is answered under another name and SETSLOT not at all. -/
theorem not_answers_of_outOfRange {c : Command} (hrange : OutOfRange junk c params)
    (carriedOut : Prop) :
    ¬ ∃ response, (handle R junk t r chan c params).response = some response ∧
      Answers c carriedOut response := by
  rintro ⟨response, hresponse, status, rest, hform, -⟩
  cases c with
  | HANDOVER =>
    simp only [OutOfRange] at hrange
    simp only [handle, if_pos hrange, Option.some.injEq] at hresponse
    exact rsp_nohandover_ne _ _ _ (hresponse.trans hform)
  | SETSLOT =>
    simp only [OutOfRange] at hrange
    simp only [handle, dif_pos hrange, reduceCtorEq] at hresponse
  | _ => exact hrange

end Handlers

/-- The one response on the socket is that of the handler. -/
theorem elim_reply_iff {response : Option (List Char)} {chan : Fin n} {sent : List Char} :
    response.elim [] (reply chan) = reply chan sent ↔ response = some sent := by
  cases response with
  | none => simp [reply]
  | some response => simp [reply]

/-- **The protocol**: a datagram with the signature gets one response on the socket it came
from, and the response to a command is the one promised; other datagrams get none. -/
def FollowsProtocol (R : RadioCalls ρ n) (junk : ℕ → ℤ) (t : Transceiver n Q) (r : ρ)
    (chan : Fin n) (msg : List Char) : Prop :=
  let out := driveControl R junk t r chan msg
  if "CMD ".toList <+: msg then
    ∃ response, out.sent = reply chan response ∧
      ∀ c params, recognised msg = some (c, params) →
        Answers c (CarriedOut R junk t r chan c params out.trx out.radio) response
  else out.sent = []

/-- **The protocol is followed unless SETSLOT or HANDOVER has a parameter out of range.**
SETSLOT then returns without a response, and HANDOVER has the response of NOHANDOVER. -/
theorem follows_protocol_iff (R : RadioCalls ρ n) (junk : ℕ → ℤ) (t : Transceiver n Q) (r : ρ)
    (chan : Fin n) (msg : List Char) :
    FollowsProtocol R junk t r chan msg ↔
      ∀ c params, recognised msg = some (c, params) → ¬ OutOfRange junk c params := by
  unfold FollowsProtocol
  cases hrec : recognised msg with
  | none =>
    rw [driveControl_of_unrecognised R junk t r chan hrec]
    refine iff_of_true ?_ (by simp)
    simp only [commandOf_isSome_iff]
    split_ifs
    · exact ⟨_, rfl, by simp⟩
    · rfl
  | some p =>
    obtain ⟨c, params⟩ := p
    rw [driveControl_of_recognised R junk t r chan hrec,
      if_pos ((commandOf_isSome_iff msg).mp (isSome_of_recognised hrec))]
    simp only [elim_reply_iff, Option.some.injEq, Prod.mk.injEq]
    constructor
    · rintro ⟨response, hresponse, hanswers⟩ _ _ ⟨rfl, rfl⟩ hrange
      exact not_answers_of_outOfRange R junk t r chan params hrange _
        ⟨response, hresponse, hanswers c params ⟨rfl, rfl⟩⟩
    · intro hrange
      obtain ⟨response, hresponse, hanswers⟩ :=
        handle_answers R junk t r chan params (hrange c params ⟨rfl, rfl⟩)
      refine ⟨response, hresponse, ?_⟩
      rintro _ _ ⟨rfl, rfl⟩
      exact hanswers

/-- SETSLOT for timeslot 8 has no response, and HANDOVER to it the response of NOHANDOVER. -/
theorem setslot_unanswered :
    (driveControl (obedientRadio 1) (fun _ => 0) (newTrx 1) () 0
      "CMD SETSLOT 8 1".toList).sent = [] ∧
    (driveControl (obedientRadio 1) (fun _ => 0) (newTrx 1) () 0 "CMD HANDOVER 8 0".toList).sent =
      reply 0 "RSP NOHANDOVER 1 8 0".toList ∧
    ¬ FollowsProtocol (obedientRadio 1) (fun _ => 0) (newTrx 1) () 0 "CMD SETSLOT 8 1".toList := by
  have hsent : (driveControl (obedientRadio 1) (fun _ => 0) (newTrx 1) () 0
      "CMD SETSLOT 8 1".toList).sent = [] := by decide +kernel
  refine ⟨hsent, by decide +kernel, ?_⟩
  unfold FollowsProtocol
  rw [if_pos (by decide), hsent]
  rintro ⟨response, hreply, -⟩
  cases hreply

/-! ## The grammar -/

/-- **The grammar**: after the signature the command stands as a token of its own, and all
its parameters can be read. -/
def InGrammar (msg : List Char) (c : Command) : Prop :=
  ∃ rest, received msg = "CMD ".toList ++ c.name ++ rest ∧ (rest = [] ∨ rest.head? = some ' ') ∧
    (sscanf c.conversions rest).length = c.conversions.length

/-- A command without conversions is one without parameters. -/
theorem Command.conversions_eq_nil_iff (c : Command) :
    c.conversions = [] ↔ c.hasParams = false := by
  cases c <;> decide

/-- **What is in the grammar of a command is recognised as it**, with parameters that can all
be read. -/
theorem InGrammar.recognised {msg : List Char} {c : Command} (h : InGrammar msg c) :
    ∃ params, Trx.recognised msg = some (c, params) ∧
      (sscanf c.conversions params).length = c.conversions.length := by
  obtain ⟨rest, hreceived, hrest, hread⟩ := h
  rw [List.append_assoc] at hreceived
  suffices hmatch : ∃ params, matchCmd (c.name ++ rest) c.name c.hasParams = some params ∧
      (sscanf c.conversions params).length = c.conversions.length by
    obtain ⟨params, hmatch, hread⟩ := hmatch
    exact ⟨params, recognised_eq_some_iff.mpr ⟨_, hreceived, dispatch_of_token hrest hmatch⟩, hread⟩
  simp only [matchCmd_eq_some_iff]
  cases hp : c.hasParams with
  | false =>
    rw [c.conversions_eq_nil_iff.mpr hp]
    exact ⟨[], ⟨List.prefix_append _ _, rfl⟩, rfl⟩
  | true =>
    have hne : c.conversions ≠ [] := by
      rw [ne_eq, c.conversions_eq_nil_iff, hp]
      exact Bool.noConfusion
    rcases hrest with rfl | hspace
    · rw [sscanf_nil] at hread
      exact absurd (List.length_eq_zero_iff.mp hread.symm) hne
    · obtain ⟨params, rfl⟩ : ∃ params, rest = ' ' :: params := by
        cases rest with
        | nil => simp at hspace
        | cons ch params => exact ⟨params, by simpa using hspace⟩
      rw [sscanf_space] at hread
      exact ⟨params, rfl, hread⟩

/-- A datagram is in the grammar of one command at most. -/
theorem InGrammar.unique {msg params : List Char} {c c' : Command} (h : InGrammar msg c')
    (hrec : Trx.recognised msg = some (c, params)) : c' = c := by
  obtain ⟨params', hrec', -⟩ := h.recognised
  rw [hrec] at hrec'
  exact (Prod.mk.inj (Option.some.inj hrec')).1.symm

/-- With parameters, what is recognised is in the grammar exactly if these can be read. -/
theorem inGrammar_iff_of_hasParams {msg params : List Char} {c : Command}
    (hrec : recognised msg = some (c, params)) (hp : c.hasParams = true) :
    InGrammar msg c ↔ (sscanf c.conversions params).length = c.conversions.length := by
  constructor
  · intro hg
    obtain ⟨params', hrec', hread⟩ := hg.recognised
    rw [hrec] at hrec'
    obtain ⟨-, rfl⟩ := Prod.mk.inj (Option.some.inj hrec')
    exact hread
  · intro hread
    obtain ⟨command, hreceived, hd⟩ := recognised_eq_some_iff.mp hrec
    have hmatch := matchCmd_of_dispatch hd
    rw [matchCmd_eq_some_iff, if_pos hp] at hmatch
    refine ⟨' ' :: params, ?_, Or.inr rfl, ?_⟩
    · rw [hreceived, hmatch, List.append_assoc]
    · rw [sscanf_space]
      exact hread

/-! ## What is carried out outside of the grammar -/

/-- The matches outside of the grammar that do no harm: NOISELEV while the transceiver is
off, POWERON if the radio refuses it and nothing is changed by the attempt, and the
handover commands if their only parameter is out of range. -/
def Harmless (R : RadioCalls ρ n) (t : Transceiver n Q) (r : ρ) (c : Command)
    (params : List Char) : Prop :=
  match c with
  | .NOISELEV => t.mOn = false
  | .POWERON => t.mOn = false ∧ R.start r = (false, r) ∧
      t.mTransmitDeadlineClock = R.getClock r ∧ t.mLastClockUpdateTime = R.getClock r ∧
      t.mLatencyUpdateTime = R.getClock r
  | .HANDOVER | .NOHANDOVER => ∃ ts, sscanf [.u, .u] params = [ts] ∧ 7 < ts
  | _ => False

section Harm

variable (R : RadioCalls ρ n) (junk : ℕ → ℤ) (t : Transceiver n Q) (r : ρ) (chan : Fin n)
  (params : List Char)

/-- A command has no effect: it is not carried out, changes nothing and uses no variable that
has not been assigned. -/
def NoEffect (c : Command) : Prop :=
  ¬ Done R junk t r chan params c ∧ (handle R junk t r chan c params).trx = t ∧
    (handle R junk t r chan c params).radio = r ∧ usesUnset c params = false

/-- An attempt to start changes nothing if it fails and the clocks are already those of the
radio. -/
theorem poweron_noEffect_iff :
    NoEffect R junk t r chan params .POWERON ↔ Harmless R t r .POWERON params := by
  have hset : usesUnset .POWERON params = false := rfl
  simp only [NoEffect, poweron_done_iff, hset, and_true, Harmless]
  cases hon : t.mOn with
  | true => simp [Transceiver.start, hon]
  | false =>
    rcases hstart : R.start r with ⟨ok, r'⟩
    cases ok with
    | true => simp [Transceiver.start, hon, hstart]
    | false =>
      simp only [Transceiver.start, hon, hstart, handle, Bool.false_eq_true, if_false,
        not_false_eq_true, true_and, Prod.mk.injEq]
      constructor
      · rintro ⟨ht, rfl⟩
        rw [← ht]
        exact ⟨rfl, rfl, rfl, rfl⟩
      · rintro ⟨rfl, h1, h2, h3⟩
        cases t
        simp only at hon h1 h2 h3
        subst hon h1 h2 h3
        exact ⟨rfl, rfl⟩

/-- The handover commands refuse their parameters only if there is a first one. -/
theorem handover_refused_iff {c : Command} (hconv : c.conversions = [.u, .u])
    (hinit : c.initialised = true) (hshort : (sscanf [.u, .u] params).length ≠ 2) :
    (argument junk c params 0 > 7 ∨ argument junk c params 1 > 7) ↔
      ∃ ts, sscanf [.u, .u] params = [ts] ∧ 7 < ts := by
  have hle : (sscanf [.u, .u] params).length ≤ 2 := length_sscanf_le [.u, .u] params
  unfold argument
  rw [hconv, hinit]
  rcases hvals : sscanf [.u, .u] params with _ | ⟨ts, _ | ⟨ss, rest⟩⟩
  · simp
  · simp
  · rw [hvals] at hle hshort
    simp only [List.length_cons] at hle hshort
    omega

/-- What is recognised outside of its grammar has no effect exactly if it is one of the
harmless cases. -/
theorem noEffect_iff {msg : List Char} {c : Command}
    (hrec : recognised msg = some (c, params)) (hout : ¬ InGrammar msg c) :
    NoEffect R junk t r chan params c ↔ Harmless R t r c params := by
  have hshort : c.hasParams = true →
      (sscanf c.conversions params).length ≠ c.conversions.length := by
    intro hp hread
    exact hout ((inGrammar_iff_of_hasParams hrec hp).mpr hread)
  have hunset : c.hasParams = true → c.initialised = false → ¬ usesUnset c params = false := by
    intro hp hinit
    have hle := length_sscanf_le c.conversions params
    have hne := hshort hp
    simp only [usesUnset, hinit, Bool.not_false, Bool.true_and, decide_eq_false_iff_not, not_not]
    omega
  cases c with
  | POWEROFF =>
    exact iff_of_false (fun h => h.1 (Transceiver.stop_mOn R t r)) id
  | POWERON => exact poweron_noEffect_iff R junk t r chan params
  | NOISELEV =>
    simp only [NoEffect, Done, CarriedOut, handle, Harmless]
    cases hon : t.mOn with
    | false => simp [usesUnset, Command.initialised, Command.conversions]
    | true => simp
  | HANDOVER =>
    rw [NoEffect, handover_done_iff, not_not, Harmless,
      ← handover_refused_iff junk params (c := .HANDOVER) rfl rfl (hshort rfl)]
    constructor
    · exact fun h => h.1
    · intro hrefused
      simp only [handle, if_pos hrefused]
      exact ⟨hrefused, trivial, trivial, rfl⟩
  | NOHANDOVER =>
    rw [NoEffect, nohandover_done_iff, not_not, Harmless,
      ← handover_refused_iff junk params (c := .NOHANDOVER) rfl rfl (hshort rfl)]
    constructor
    · exact fun h => h.1
    · intro hrefused
      simp only [handle, if_pos hrefused]
      exact ⟨hrefused, trivial, trivial, rfl⟩
  | _ => exact iff_of_false (fun h => hunset rfl rfl h.2.2.2) id

end Harm

/-- **Exactly the grammar**: a command is carried out only if the datagram is in its grammar,
and a datagram in no grammar changes nothing and uses no variable that has not been
assigned. -/
def ActsOnGrammar (R : RadioCalls ρ n) (junk : ℕ → ℤ) (t : Transceiver n Q) (r : ρ)
    (chan : Fin n) (msg : List Char) : Prop :=
  let out := driveControl R junk t r chan msg
  (∀ c params, recognised msg = some (c, params) →
    CarriedOut R junk t r chan c params out.trx out.radio → InGrammar msg c) ∧
  ((∀ c, ¬ InGrammar msg c) → out.trx = t ∧ out.radio = r ∧ out.unset = false)

/-- **The grammar is all there is, unless a datagram matches a command outside of it**: a
longer word that begins with POWEROFF, POWERON or NOISELEV, or a command with parameters of
which one cannot be read; the harmless cases excepted. -/
theorem acts_on_grammar_iff (R : RadioCalls ρ n) (junk : ℕ → ℤ) (t : Transceiver n Q) (r : ρ)
    (chan : Fin n) (msg : List Char) :
    ActsOnGrammar R junk t r chan msg ↔
      ∀ c params, recognised msg = some (c, params) →
        InGrammar msg c ∨ Harmless R t r c params := by
  unfold ActsOnGrammar
  cases hrec : recognised msg with
  | none =>
    rw [driveControl_of_unrecognised R junk t r chan hrec]
    exact iff_of_true ⟨by simp, fun _ => ⟨rfl, rfl, rfl⟩⟩ (by simp)
  | some p =>
    obtain ⟨c, params⟩ := p
    rw [driveControl_of_recognised R junk t r chan hrec]
    simp only [Option.some.injEq, Prod.mk.injEq]
    constructor
    · rintro ⟨honly, hother⟩ _ _ ⟨rfl, rfl⟩
      by_cases hg : InGrammar msg c
      · exact Or.inl hg
      · have hnone : ∀ c', ¬ InGrammar msg c' := by
          intro c' hg'
          exact hg (hg'.unique hrec ▸ hg')
        obtain ⟨ht, hr, hu⟩ := hother hnone
        exact Or.inr ((noEffect_iff R junk t r chan params hrec hg).mp
          ⟨fun hdone => hg (honly c params ⟨rfl, rfl⟩ hdone), ht, hr, hu⟩)
    · intro hcases
      have hnoEffect : ¬ InGrammar msg c → NoEffect R junk t r chan params c := by
        intro hg
        have hharm := (hcases c params ⟨rfl, rfl⟩).resolve_left hg
        exact (noEffect_iff R junk t r chan params hrec hg).mpr hharm
      constructor
      · rintro _ _ ⟨rfl, rfl⟩ hdone
        by_contra hg
        exact (hnoEffect hg).1 hdone
      · intro hnone
        exact (hnoEffect (hnone c)).2

/-- HANDOVER without numbers is taken for HANDOVER 0 0, RXTUNE without a number tunes to what
its variable happens to hold, and POWEROFFX is taken for POWEROFF. -/
theorem handover_without_numbers :
    (driveControl (obedientRadio 1) (fun _ => 0) (newTrx 1) () 0
      "CMD HANDOVER x".toList).trx.mHandover 0 0 = true ∧
    (driveControl (obedientRadio 1) (fun _ => 935) (newTrx 1) () 0
      "CMD RXTUNE x".toList).trx.mRxFreq = 935000 ∧
    (driveControl (obedientRadio 1) (fun _ => 0) (newTrx 1) () 0
      "CMD POWEROFFX".toList).sent = reply 0 "RSP POWEROFF 0".toList ∧
    ¬ ActsOnGrammar (obedientRadio 1) (fun _ => 0) (newTrx 1) () 0 "CMD HANDOVER x".toList := by
  have hset : (driveControl (obedientRadio 1) (fun _ => 0) (newTrx 1) () 0
      "CMD HANDOVER x".toList).trx.mHandover 0 0 = true := by decide +kernel
  refine ⟨hset, by decide +kernel, by decide +kernel, ?_⟩
  rintro ⟨honly, -⟩
  have hrec : recognised "CMD HANDOVER x".toList = some (.HANDOVER, "x".toList) := by decide
  have hgrammar := honly .HANDOVER "x".toList hrec ⟨0, 0, by decide, by decide, hset⟩
  rw [inGrammar_iff_of_hasParams hrec rfl] at hgrammar
  exact absurd hgrammar (by decide)

end Trx
end OsmoTrx
