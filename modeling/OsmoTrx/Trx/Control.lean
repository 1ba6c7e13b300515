import OsmoTrx.Trx.State
import OsmoTrx.Lib.CText

/-!
# The control interface

`match_cmd` and `driveControl` of `Transceiver.cpp`: a datagram from the control socket of a
channel is read into a buffer of `MAX_PACKET_LENGTH` characters, the first command of the
chain that matches is carried out, and the reply is sent on the same socket.

* `Command` — the commands, in the order of the chain, with what they expect.
* `dispatch` — the chain; `dispatch_of_token` — a command that stands in the buffer as a token
  of its own is the one that matches.
* `argument` — a variable after `sscanf`; one that was not assigned keeps what it held, and
  `junk` is what an uninitialised one holds.
* `driveControl` — what it does to the transceiver and the radio, and what it sends.
* `recognised` — the command that a datagram is taken for; `driveControl_of_recognised` and
  `driveControl_of_unrecognised` are all that `driveControl` does.
-/

namespace OsmoTrx
namespace Trx

open GSM CText

/-! ## Commands -/

def MAX_PACKET_LENGTH : ℕ := 100

/-- The commands of the control interface. -/
inductive Command
  | POWEROFF
  | POWERON
  | HANDOVER
  | NOHANDOVER
  | SETMAXDLY
  | SETMAXDLYNB
  | SETRXGAIN
  | NOISELEV
  | SETPOWER
  | ADJPOWER
  | RXTUNE
  | TXTUNE
  | SETTSC
  | SETSLOT
  | SETBURSTTODISKMASK
  deriving DecidableEq, Repr

namespace Command

/-- The commands in the order in which they are looked for. -/
def all : List Command :=
  [POWEROFF, POWERON, HANDOVER, NOHANDOVER, SETMAXDLY, SETMAXDLYNB, SETRXGAIN, NOISELEV, SETPOWER,
    ADJPOWER, RXTUNE, TXTUNE, SETTSC, SETSLOT, SETBURSTTODISKMASK]

/-- The name of a command. -/
def name : Command → List Char
  | POWEROFF => "POWEROFF".toList
  | POWERON => "POWERON".toList
  | HANDOVER => "HANDOVER".toList
  | NOHANDOVER => "NOHANDOVER".toList
  | SETMAXDLY => "SETMAXDLY".toList
  | SETMAXDLYNB => "SETMAXDLYNB".toList
  | SETRXGAIN => "SETRXGAIN".toList
  | NOISELEV => "NOISELEV".toList
  | SETPOWER => "SETPOWER".toList
  | ADJPOWER => "ADJPOWER".toList
  | RXTUNE => "RXTUNE".toList
  | TXTUNE => "TXTUNE".toList
  | SETTSC => "SETTSC".toList
  | SETSLOT => "SETSLOT".toList
  | SETBURSTTODISKMASK => "_SETBURSTTODISKMASK".toList

/-- Whether `match_cmd` is given a place for the parameters. -/
def hasParams : Command → Bool
  | POWEROFF | POWERON | NOISELEV => false
  | _ => true

/-- The format of the parameters. -/
def conversions : Command → List Conv
  | POWEROFF | POWERON | NOISELEV => []
  | HANDOVER | NOHANDOVER => [.u, .u]
  | SETTSC => [.u]
  | SETSLOT => [.d, .d]
  | _ => [.d]

/-- Whether the variables for the parameters are set to 0 before `sscanf`. -/
def initialised : Command → Bool
  | HANDOVER | NOHANDOVER => true
  | _ => false

theorem mem_all (c : Command) : c ∈ all := by cases c <;> decide

end Command

/-- `match_cmd`: what follows the command in the buffer, if it matches. -/
def matchCmd (buf cmd : List Char) (params : Bool) : Option (List Char) :=
  if !cmd.isPrefixOf buf then none
  else if params then
    if (buf.drop cmd.length).head? ≠ some ' ' then none else some (buf.drop (cmd.length + 1))
  else some []

/-- The chain of commands: the first that matches, with its parameters. -/
def dispatch (command : List Char) : Option (Command × List Char) :=
  Command.all.findSome? fun c => (matchCmd command c.name c.hasParams).map fun params => (c, params)

/-- Variable `k` of a command after `sscanf`. -/
def argument (junk : ℕ → ℤ) (c : Command) (params : List Char) (k : ℕ) : ℤ :=
  ((sscanf c.conversions params)[k]?).getD
    (if c.initialised then 0 else (c.conversions.getD k .d).store (junk k))

/-- Whether a variable is used that has never been assigned. -/
def usesUnset (c : Command) (params : List Char) : Bool :=
  !c.initialised && decide ((sscanf c.conversions params).length < c.conversions.length)

/-! ## Handlers -/

/-- `sprintf(response, "RSP <command> <status> ...")`. -/
def rsp (c : Command) (status : Char) (results : List ℤ) : List Char :=
  "RSP ".toList ++ c.name ++ ' ' :: status :: results.flatMap fun v => ' ' :: dec v

variable {n : ℕ} {V ρ : Type} {Q : BurstQueue V}

/-- `mHandover[ts][ss] = flag`. -/
def Transceiver.setHandover (t : Transceiver n Q) (ts ss : ℤ) (flag : Bool) : Transceiver n Q :=
  { t with mHandover := fun i j =>
      if (i.val : ℤ) = ts ∧ (j.val : ℤ) = ss then flag else t.mHandover i j }

/-- `mStates[chan].mPower = power`. -/
def Transceiver.setPower (t : Transceiver n Q) (chan : Fin n) (power : ℤ) : Transceiver n Q :=
  t.updateState chan { t.mStates chan with mPower := power }

/-- What a handler leaves behind; without a response it has returned from `driveControl`. -/
structure Handled (n : ℕ) (ρ : Type) {V : Type} (Q : BurstQueue V) where
  trx : Transceiver n Q
  radio : ρ
  response : Option (List Char)

/-- The branch of `driveControl` for a command.  A frequency in kHz is converted to Hz; the
sum of ADJPOWER is taken in an `int`. -/
def handle (R : RadioCalls ρ n) (junk : ℕ → ℤ) (t : Transceiver n Q) (r : ρ) (chan : Fin n)
    (c : Command) (params : List Char) : Handled n ρ Q :=
  let arg := argument junk c params
  match c with
  | .POWEROFF =>
    let s := t.stop R r
    ⟨s.1, s.2, rsp .POWEROFF '0' []⟩
  | .POWERON =>
    match t.start R r with
    | (false, t, r) => ⟨t, r, rsp .POWERON '1' []⟩
    | (true, t, r) => ⟨{ t with mHandover := fun _ _ => false }, r, rsp .POWERON '0' []⟩
  | .HANDOVER =>
    let ts := arg 0
    let ss := arg 1
    if ts > 7 ∨ ss > 7 then ⟨t, r, rsp .NOHANDOVER '1' [ts, ss]⟩
    else ⟨t.setHandover ts ss true, r, rsp .HANDOVER '0' [ts, ss]⟩
  | .NOHANDOVER =>
    let ts := arg 0
    let ss := arg 1
    if ts > 7 ∨ ss > 7 then ⟨t, r, rsp .NOHANDOVER '1' [ts, ss]⟩
    else ⟨t.setHandover ts ss false, r, rsp .NOHANDOVER '0' [ts, ss]⟩
  | .SETMAXDLY =>
    let maxDelay := arg 0
    ⟨{ t with mMaxExpectedDelayAB := u32 maxDelay }, r, rsp .SETMAXDLY '0' [maxDelay]⟩
  | .SETMAXDLYNB =>
    let maxDelay := arg 0
    ⟨{ t with mMaxExpectedDelayNB := u32 maxDelay }, r, rsp .SETMAXDLYNB '0' [maxDelay]⟩
  | .SETRXGAIN =>
    let (newGain, r) := R.setRxGain r (arg 0) chan
    ⟨t, r, rsp .SETRXGAIN '0' [newGain]⟩
  | .NOISELEV =>
    if t.mOn then ⟨t, r, rsp .NOISELEV '0' [R.noiseLevel (t.mStates chan).mNoiseLev]⟩
    else ⟨t, r, "RSP NOISELEV 1  0".toList⟩
  | .SETPOWER =>
    let (power, r) := R.setPowerAttenuation r (arg 0) chan
    ⟨t.setPower chan power, r, rsp .SETPOWER '0' [power]⟩
  | .ADJPOWER =>
    let step := arg 0
    let (power, r) := R.setPowerAttenuation r (i32 ((t.mStates chan).mPower + step)) chan
    ⟨t.setPower chan power, r, rsp .ADJPOWER '0' [power]⟩
  | .RXTUNE =>
    let freqKhz := arg 0
    let t := { t with mRxFreq := freqKhz * 1000 }
    match R.tuneRx r t.mRxFreq chan with
    | (false, r) => ⟨t, r, rsp .RXTUNE '1' [freqKhz]⟩
    | (true, r) => ⟨t, r, rsp .RXTUNE '0' [freqKhz]⟩
  | .TXTUNE =>
    let freqKhz := arg 0
    let t := { t with mTxFreq := freqKhz * 1000 }
    match R.tuneTx r t.mTxFreq chan with
    | (false, r) => ⟨t, r, rsp .TXTUNE '1' [freqKhz]⟩
    | (true, r) => ⟨t, r, rsp .TXTUNE '0' [freqKhz]⟩
  | .SETTSC =>
    let tsc := arg 0
    if tsc > 7 then ⟨t, r, rsp .SETTSC '1' [i32 tsc]⟩
    else ⟨{ t with mTSC := tsc }, r, rsp .SETTSC '0' [i32 tsc]⟩
  | .SETSLOT =>
    let timeslot := arg 0
    let corrCode := arg 1
    if h : timeslot < 0 ∨ timeslot > 7 then ⟨t, r, none⟩
    else
      let ts : Fin 8 := ⟨timeslot.toNat, by omega⟩
      ⟨t.updateState chan ((t.mStates chan).setSlot ts corrCode), r,
        rsp .SETSLOT '0' [timeslot, corrCode]⟩
  | .SETBURSTTODISKMASK =>
    let mask := arg 0
    ⟨{ t with mWriteBurstToDiskMask := u32 mask }, r, rsp .SETBURSTTODISKMASK '0' [mask]⟩

section Written

variable (R : RadioCalls ρ n) (junk : ℕ → ℤ) (t : Transceiver n Q) (r : ρ) (chan : Fin n)
  (params : List Char)

/-- What POWERON may write. -/
theorem handle_poweron_trx :
    ∃ deadline last latency force on flags, (handle R junk t r chan .POWERON params).trx =
      { t with
        mTransmitDeadlineClock := deadline
        mLastClockUpdateTime := last
        mLatencyUpdateTime := latency
        mForceClockInterface := force
        mOn := on
        mHandover := flags } := by
  obtain ⟨deadline, last, latency, force, on, heq⟩ := t.start_writes R r
  simp only [handle]
  rcases hstart : t.start R r with ⟨ok, t', r'⟩
  rw [hstart] at heq
  obtain rfl : t' = _ := heq
  cases ok with
  | false => exact ⟨deadline, last, latency, force, on, t.mHandover, rfl⟩
  | true => exact ⟨deadline, last, latency, force, on, fun _ _ => false, rfl⟩

/-- RXTUNE stores its frequency, whatever the radio answers. -/
@[simp] theorem handle_rxtune_trx : (handle R junk t r chan .RXTUNE params).trx =
    { t with mRxFreq := argument junk .RXTUNE params 0 * 1000 } := by
  simp only [handle]
  rcases R.tuneRx r (argument junk .RXTUNE params 0 * 1000) chan with ⟨ok, r'⟩
  cases ok <;> rfl

/-- TXTUNE stores its frequency, whatever the radio answers. -/
@[simp] theorem handle_txtune_trx : (handle R junk t r chan .TXTUNE params).trx =
    { t with mTxFreq := argument junk .TXTUNE params 0 * 1000 } := by
  simp only [handle]
  rcases R.tuneTx r (argument junk .TXTUNE params 0 * 1000) chan with ⟨ok, r'⟩
  cases ok <;> rfl

/-- NOISELEV writes nothing. -/
@[simp] theorem handle_noiselev_trx : (handle R junk t r chan .NOISELEV params).trx = t := by
  simp only [handle]
  split_ifs <;> rfl

end Written

/-! ## Datagrams -/

/-- What a datagram leads to: the state afterwards, what is sent, each on the control socket
of a channel, and whether a variable was used that had never been assigned. -/
structure Outcome (n : ℕ) (ρ : Type) {V : Type} (Q : BurstQueue V) where
  trx : Transceiver n Q
  radio : ρ
  sent : List (Fin n × List Char)
  unset : Bool

/-- The string in the buffer after a datagram has been read into it. -/
def received (msg : List Char) : List Char := cstr (msg.take MAX_PACKET_LENGTH)

/-- The command in a datagram, if it has the signature. -/
def commandOf (msg : List Char) : Option (List Char) :=
  if "CMD ".toList.isPrefixOf (received msg) then some ((received msg).drop 4) else none

/-- `mCtrlSockets[chan]->write(response, strlen(response) + 1)`. -/
def reply (chan : Fin n) (response : List Char) : List (Fin n × List Char) :=
  [(chan, response ++ [Char.ofNat 0])]

/-- `driveControl`. -/
def driveControl (R : RadioCalls ρ n) (junk : ℕ → ℤ) (t : Transceiver n Q) (r : ρ) (chan : Fin n)
    (msg : List Char) : Outcome n ρ Q :=
  if msg.length < 1 then ⟨t, r, [], false⟩
  else
    match commandOf msg with
    | none => ⟨t, r, [], false⟩
    | some command =>
      match dispatch command with
      | none => ⟨t, r, reply chan "RSP ERR 1".toList, false⟩
      | some (c, params) =>
        let h := handle R junk t r chan c params
        match h.response with
        | none => ⟨h.trx, h.radio, [], usesUnset c params⟩
        | some response => ⟨h.trx, h.radio, reply chan response, usesUnset c params⟩

/-! ## The chain of commands -/

/-- The signature is looked for at the start of the datagram. -/
theorem commandOf_isSome_iff (msg : List Char) :
    (commandOf msg).isSome = true ↔ "CMD ".toList <+: msg := by
  have hsig : "CMD ".toList <+: received msg ↔ "CMD ".toList <+: msg := by
    constructor
    · intro h
      exact (h.trans (List.takeWhile_prefix _)).trans (List.take_prefix _ _)
    · rintro ⟨rest, rfl⟩
      exact ⟨cstr (rest.take 96), rfl⟩
  rw [commandOf, ← hsig, ← List.isPrefixOf_iff_prefix]
  split_ifs with h
  · exact iff_of_true rfl h
  · exact iff_of_false Bool.false_ne_true h

/-- What follows the signature is the command. -/
theorem received_of_commandOf {msg command : List Char} (h : commandOf msg = some command) :
    received msg = "CMD ".toList ++ command := by
  unfold commandOf at h
  split_ifs at h with hsig
  obtain ⟨rest, hrest⟩ := List.isPrefixOf_iff_prefix.mp hsig
  rw [← hrest] at h ⊢
  rw [← Option.some.inj h]
  rfl

/-- A buffer with the signature has a command. -/
theorem commandOf_of_received {msg command : List Char}
    (h : received msg = "CMD ".toList ++ command) : commandOf msg = some command := by
  have hsig : "CMD ".toList.isPrefixOf (received msg) = true := by
    rw [h, List.isPrefixOf_iff_prefix]
    exact List.prefix_append _ _
  rw [commandOf, if_pos hsig, h]
  rfl

/-- What a match says about the buffer. -/
theorem matchCmd_eq_some_iff {buf cmd params : List Char} {p : Bool} :
    matchCmd buf cmd p = some params ↔
      if p then buf = cmd ++ ' ' :: params else cmd <+: buf ∧ params = [] := by
  unfold matchCmd
  by_cases hpre : cmd <+: buf
  · obtain ⟨rest, rfl⟩ := hpre
    have hp : cmd.isPrefixOf (cmd ++ rest) = true :=
      List.isPrefixOf_iff_prefix.mpr (List.prefix_append _ _)
    simp only [hp, Bool.not_true, Bool.false_eq_true, if_false, List.drop_left,
      ← List.drop_drop, List.append_cancel_left_eq, List.prefix_append, true_and]
    cases p with
    | false => simp [eq_comm]
    | true =>
      cases rest with
      | nil => simp
      | cons c rest =>
        by_cases hc : c = ' '
        · subst hc
          simp
        · simp [hc]
  · have hp : cmd.isPrefixOf buf = false := by
      rw [← Bool.not_eq_true, List.isPrefixOf_iff_prefix]
      exact hpre
    cases p with
    | false => simp [hp, hpre]
    | true =>
      have hne : buf ≠ cmd ++ ' ' :: params := by
        rintro rfl
        exact hpre (List.prefix_append _ _)
      simp [hp, hne]

namespace Command

/-- The names are different. -/
theorem name_injective : Function.Injective name := by
  have hnodup : (all.map name).Nodup := by decide
  intro c c' h
  exact List.inj_on_of_nodup_map hnodup (mem_all c) (mem_all c') h

theorem space_not_mem_name (c : Command) : ' ' ∉ c.name := by
  cases c <;> decide

/-- No name without parameters starts another name. -/
theorem eq_of_prefix {c c' : Command} (hp : c'.hasParams = false) (h : c'.name <+: c.name) :
    c' = c := by
  have hall : ∀ c' ∈ all, c'.hasParams = false → ∀ c ∈ all, c'.name <+: c.name → c' = c := by
    decide
  exact hall c' (mem_all c') hp c (mem_all c) h

/-- Only the command whose name is the first token matches. -/
theorem eq_of_matchCmd {c c' : Command} {rest params : List Char}
    (hrest : rest = [] ∨ rest.head? = some ' ')
    (h : matchCmd (c.name ++ rest) c'.name c'.hasParams = some params) : c' = c := by
  have htoken := token_append c.space_not_mem_name hrest
  rw [matchCmd_eq_some_iff] at h
  cases hp : c'.hasParams with
  | false =>
    rw [hp, if_neg Bool.false_ne_true] at h
    have hpre := prefix_token c'.space_not_mem_name h.1
    rw [htoken] at hpre
    exact eq_of_prefix hp hpre
  | true =>
    rw [hp, if_pos rfl] at h
    rw [h, token_append c'.space_not_mem_name (Or.inr rfl)] at htoken
    exact name_injective htoken

end Command

/-- The command that is carried out matches. -/
theorem matchCmd_of_dispatch {command params : List Char} {c : Command}
    (h : dispatch command = some (c, params)) :
    matchCmd command c.name c.hasParams = some params := by
  obtain ⟨c', -, hc'⟩ := List.exists_of_findSome?_eq_some h
  obtain ⟨params', hmatch, heq⟩ := Option.map_eq_some_iff.mp hc'
  obtain ⟨rfl, rfl⟩ := Prod.mk.inj heq
  exact hmatch

/-- **A command that stands in the buffer as a token of its own is the one carried out.** -/
theorem dispatch_of_token {c : Command} {rest params : List Char}
    (hrest : rest = [] ∨ rest.head? = some ' ')
    (h : matchCmd (c.name ++ rest) c.name c.hasParams = some params) :
    dispatch (c.name ++ rest) = some (c, params) := by
  cases hd : dispatch (c.name ++ rest) with
  | none =>
    rw [dispatch, List.findSome?_eq_none_iff] at hd
    have hnone := hd c (Command.mem_all c)
    rw [h] at hnone
    cases hnone
  | some p =>
    obtain ⟨c', params'⟩ := p
    have hmatch := matchCmd_of_dispatch hd
    obtain rfl := Command.eq_of_matchCmd hrest hmatch
    rw [h] at hmatch
    rw [Option.some.inj hmatch]

/-! ## Recognised datagrams -/

/-- The command that a datagram is taken for, with its parameters. -/
def recognised (msg : List Char) : Option (Command × List Char) := (commandOf msg).bind dispatch

section DriveControl

variable (R : RadioCalls ρ n) (junk : ℕ → ℤ) (t : Transceiver n Q) (r : ρ) (chan : Fin n)
  {msg params : List Char} {c : Command}

theorem recognised_eq_some_iff : recognised msg = some (c, params) ↔
    ∃ command, received msg = "CMD ".toList ++ command ∧ dispatch command = some (c, params) := by
  rw [recognised, Option.bind_eq_some_iff]
  constructor
  · rintro ⟨command, hcommand, hd⟩
    exact ⟨command, received_of_commandOf hcommand, hd⟩
  · rintro ⟨command, hreceived, hd⟩
    exact ⟨command, commandOf_of_received hreceived, hd⟩

/-- What is recognised has the signature. -/
theorem isSome_of_recognised (h : recognised msg = some (c, params)) :
    (commandOf msg).isSome = true := by
  obtain ⟨command, hcommand, -⟩ := Option.bind_eq_some_iff.mp h
  rw [hcommand]
  rfl

/-- A datagram with the signature is not empty. -/
theorem length_of_isSome (h : (commandOf msg).isSome = true) : ¬ msg.length < 1 := by
  obtain ⟨rest, rfl⟩ := (commandOf_isSome_iff msg).mp h
  simp

/-- A datagram that is not recognised does nothing; with the signature it is answered. -/
theorem driveControl_of_unrecognised (h : recognised msg = none) :
    driveControl R junk t r chan msg =
      ⟨t, r, if (commandOf msg).isSome then reply chan "RSP ERR 1".toList else [], false⟩ := by
  cases hcommand : commandOf msg with
  | none =>
    rw [driveControl, hcommand]
    exact ite_self _
  | some command =>
    have hd : dispatch command = none := by
      rw [recognised, hcommand] at h
      exact h
    rw [driveControl, if_neg (length_of_isSome (by rw [hcommand]; rfl)), hcommand]
    simp only [hd]
    rfl

/-- A recognised datagram is left to the handler of its command. -/
theorem driveControl_of_recognised (h : recognised msg = some (c, params)) :
    driveControl R junk t r chan msg =
      ⟨(handle R junk t r chan c params).trx, (handle R junk t r chan c params).radio,
        (handle R junk t r chan c params).response.elim [] (reply chan),
        usesUnset c params⟩ := by
  obtain ⟨command, hcommand, hd⟩ := Option.bind_eq_some_iff.mp h
  rw [driveControl, if_neg (length_of_isSome (isSome_of_recognised h)), hcommand]
  simp only [hd]
  cases (handle R junk t r chan c params).response with
  | none => rfl
  | some response => rfl

end DriveControl

/-! ## A transceiver and its radio -/

/-- A radio that does what it is told. -/
def obedientRadio (n : ℕ) : RadioCalls Unit n where
  start _ := (true, ())
  stop _ := (true, ())
  getClock _ := ⟨0, 0⟩
  tuneTx _ _ _ := (true, ())
  tuneRx _ _ _ := (true, ())
  setRxGain _ db _ := (db, ())
  setPowerAttenuation _ atten _ := (atten, ())
  noiseLevel _ := 50

/-- A transceiver after `init`. -/
def newTrx (n : ℕ) : Transceiver n (listQueue (pointerCompare (V := Unit))) :=
  Transceiver.init n _ (fun _ _ _ => ()) .FILLER_ZERO 4 ⟨0, 0⟩ ⟨0, 0⟩ false false

end Trx
end OsmoTrx
