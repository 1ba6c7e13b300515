import OsmoTrx.Trx.State
import OsmoTrx.Lib.Run

/-!
# The VTY configuration

The configuration of `trx_vty.h` and the commands of `trx_vty.c` that set it.  libosmovty looks
a line up among the commands of the current node, and then of its parent nodes, and calls the
handler with the arguments only if they have the form that the command is declared with.

* `Cfg`, `vty_trx_ctx_alloc` — the configuration and its initial value.
* `Command` — the commands with their arguments; `Matches` — the declared forms.
* `cfg_trx`, `cfg_bind_ip`, ... — the handlers.
* `execute` — what a line does: `execute_refused` — a refused command changes nothing.
-/

namespace OsmoTrx
namespace Vty

open Trx (FillerType)

/-! ## The configuration -/

def TRX_CHAN_MAX : ℕ := 8

def DEFAULT_TX_SPS : ℕ := 4

def DEFAULT_RX_SPS : ℕ := 1

def DEFAULT_TRX_PORT : ℕ := 5700

def DEFAULT_TRX_IP : String := "127.0.0.1"

/-- `ReferenceType`. -/
inductive ReferenceType
  | REF_INTERNAL
  | REF_EXTERNAL
  | REF_GPS
  deriving DecidableEq, Repr

/-- The code of a reference type. -/
def ReferenceType.code : ReferenceType → ℤ
  | REF_INTERNAL => 0
  | REF_EXTERNAL => 1
  | REF_GPS => 2

/-- `struct trx_chan`; of the back pointer only whether it is set. -/
structure TrxChan where
  trx : Bool
  idx : ℕ
  rx_path : Option String
  tx_path : Option String
  deriving DecidableEq, Repr

/-- The `cfg` of `struct trx_ctx`.  A string is `none` where the pointer is NULL; the clock
reference is the `int` it was set to. -/
structure Cfg where
  bind_addr : Option String
  remote_addr : Option String
  dev_args : Option String
  base_port : ℕ
  tx_sps : ℕ
  rx_sps : ℕ
  rtsc : ℕ
  rtsc_set : Bool
  rach_delay : ℕ
  rach_delay_set : Bool
  clock_ref : ℤ
  filler : FillerType
  multi_arfcn : Bool
  offset : ℚ
  rssi_offset : ℚ
  swap_channels : Bool
  ext_rach : Bool
  egprs : Bool
  sched_rr : ℕ
  num_chans : ℕ
  chans : Fin TRX_CHAN_MAX → TrxChan
  deriving DecidableEq

/-- A channel after `talloc_zero`. -/
def TrxChan.zero : TrxChan := ⟨false, 0, none, none⟩

/-- `vty_trx_ctx_alloc`. -/
def vty_trx_ctx_alloc : Cfg where
  bind_addr := some DEFAULT_TRX_IP
  remote_addr := some DEFAULT_TRX_IP
  dev_args := none
  base_port := DEFAULT_TRX_PORT
  tx_sps := DEFAULT_TX_SPS
  rx_sps := DEFAULT_RX_SPS
  rtsc := 0
  rtsc_set := false
  rach_delay := 0
  rach_delay_set := false
  clock_ref := 0
  filler := .FILLER_ZERO
  multi_arfcn := false
  offset := 0
  rssi_offset := 0
  swap_channels := false
  ext_rach := false
  egprs := false
  sched_rr := 0
  num_chans := 0
  chans _ := TrxChan.zero

/-- The nodes of the VTY.  At the channel node `vty->index` points to a channel. -/
inductive Node
  | CONFIG_NODE
  | TRX_NODE
  | CHAN_NODE (index : Fin TRX_CHAN_MAX)
  deriving DecidableEq, Repr

/-- What the handlers work on: the node of the VTY and the configuration. -/
structure Session where
  node : Node
  cfg : Cfg
  deriving DecidableEq

/-- A VTY at the start of a configuration file. -/
def Session.fresh : Session := ⟨.CONFIG_NODE, vty_trx_ctx_alloc⟩

/-- `trx_vty_go_parent`. -/
def trx_vty_go_parent : Node → Node
  | .TRX_NODE => .CONFIG_NODE
  | .CHAN_NODE _ => .TRX_NODE
  | .CONFIG_NODE => .CONFIG_NODE

/-! ## Commands -/

/-- The commands with their arguments. -/
inductive Command
  | trx
  | bind_ip (addr : String)
  | remote_ip (addr : String)
  | base_port (port : ℕ)
  | dev_args (desc : String)
  | tx_sps (sps : ℕ)
  | rx_sps (sps : ℕ)
  | test_rtsc (tsc : ℕ)
  | test_rach_delay (delay : ℕ)
  | clock_ref (word : String)
  | multi_arfcn (word : String)
  | offset (hz : ℚ)
  | rssi_offset (db : ℚ)
  | swap_channels (word : String)
  | egprs (word : String)
  | ext_rach (word : String)
  | rt_prio (prio : ℕ)
  | filler_dummy
  | chan (idx : ℕ)
  | rx_path (name : String)
  | tx_path (name : String)
  deriving DecidableEq, Repr

/-- An argument is one word. -/
def Token (s : String) : Prop := s ≠ "" ∧ ∀ c ∈ s.toList, c.isWhitespace = false

instance (s : String) : Decidable (Token s) :=
  have : Decidable (∀ c ∈ s.toList, c.isWhitespace = false) := List.decidableBAll _ _
  inferInstanceAs (Decidable (_ ∧ _))

/-- The argument of a command that switches something on or off. -/
def Switch (word : String) : Prop := word = "disable" ∨ word = "enable"

instance (word : String) : Decidable (Switch word) := inferInstanceAs (Decidable (_ ∨ _))

/-- The arguments have the form that the command is declared with. -/
def Command.Matches : Command → Prop
  | .trx | .filler_dummy | .offset _ | .rssi_offset _ => True
  | .bind_ip addr | .remote_ip addr => Token addr
  | .base_port port => 1 ≤ port ∧ port ≤ 65535
  | .dev_args desc => Token desc
  | .tx_sps sps | .rx_sps sps => sps = 1 ∨ sps = 4
  | .test_rtsc tsc => tsc ≤ 7
  | .test_rach_delay delay => delay ≤ 68
  | .clock_ref word => word = "internal" ∨ word = "external" ∨ word = "gpsdo"
  | .multi_arfcn word | .swap_channels word | .egprs word | .ext_rach word => Switch word
  | .rt_prio prio => 1 ≤ prio ∧ prio ≤ 32
  | .chan idx => idx ≤ 100
  | .rx_path name | .tx_path name => Token name

instance (c : Command) : Decidable c.Matches := by
  cases c <;> unfold Command.Matches <;> infer_instance

/-- The node in which `trx_vty_init` installs a command. -/
inductive Level
  | config
  | trx
  | chan
  deriving DecidableEq, Repr

def Command.level : Command → Level
  | .trx => .config
  | .rx_path _ | .tx_path _ => .chan
  | _ => .trx

def Node.level : Node → Level
  | .CONFIG_NODE => .config
  | .TRX_NODE => .trx
  | .CHAN_NODE _ => .chan

/-- The nearest node of a level, from a node upwards. -/
def Node.ascend (node : Node) (level : Level) : Option Node :=
  if node.level = level then some node
  else if (trx_vty_go_parent node).level = level then some (trx_vty_go_parent node)
  else if (trx_vty_go_parent (trx_vty_go_parent node)).level = level then
    some (trx_vty_go_parent (trx_vty_go_parent node))
  else none

/-! ## Handlers -/

/-- The results of a command; the last one if no command of the node matches. -/
inductive CommandResult
  | CMD_SUCCESS
  | CMD_WARNING
  | CMD_ERR_NO_MATCH
  deriving DecidableEq, Repr

open CommandResult

/-- A handler that sets a part of the configuration. -/
def Session.set (s : Session) (cfg : Cfg) : CommandResult × Session :=
  (CMD_SUCCESS, { s with cfg := cfg })

/-- A handler that switches a part of the configuration on or off. -/
def Session.switch (s : Session) (word : String) (put : Bool → Cfg) : CommandResult × Session :=
  if word = "disable" then s.set (put false)
  else if word = "enable" then s.set (put true)
  else (CMD_WARNING, s)

def cfg_trx (s : Session) : CommandResult × Session := (CMD_SUCCESS, { s with node := .TRX_NODE })

def cfg_bind_ip (s : Session) (addr : String) : CommandResult × Session :=
  s.set { s.cfg with bind_addr := some addr }

def cfg_remote_ip (s : Session) (addr : String) : CommandResult × Session :=
  s.set { s.cfg with remote_addr := some addr }

def cfg_base_port (s : Session) (port : ℕ) : CommandResult × Session :=
  s.set { s.cfg with base_port := port }

def cfg_dev_args (s : Session) (desc : String) : CommandResult × Session :=
  s.set { s.cfg with dev_args := some desc }

def cfg_tx_sps (s : Session) (sps : ℕ) : CommandResult × Session :=
  s.set { s.cfg with tx_sps := sps }

def cfg_rx_sps (s : Session) (sps : ℕ) : CommandResult × Session :=
  s.set { s.cfg with rx_sps := sps }

/-- The filler of EDGE support is not overridden. -/
def cfg_test_rtsc (s : Session) (tsc : ℕ) : CommandResult × Session :=
  if s.cfg.rach_delay_set then (CMD_WARNING, s)
  else s.set
    { s.cfg with
      rtsc_set := true
      rtsc := tsc
      filler := if !s.cfg.egprs then .FILLER_NORM_RAND else s.cfg.filler }

def cfg_test_rach_delay (s : Session) (delay : ℕ) : CommandResult × Session :=
  if s.cfg.rtsc_set then (CMD_WARNING, s)
  else if s.cfg.egprs then (CMD_WARNING, s)
  else s.set
    { s.cfg with
      rach_delay_set := true
      rach_delay := delay
      filler := .FILLER_ACCESS_RAND }

def clock_ref_names : List (ℤ × String) :=
  [(ReferenceType.REF_INTERNAL.code, "internal"), (ReferenceType.REF_EXTERNAL.code, "external"),
    (ReferenceType.REF_GPS.code, "gpsdo")]

/-- `get_string_value`; `-EINVAL` if the name is not there. -/
def get_string_value (names : List (ℤ × String)) (word : String) : ℤ :=
  ((names.find? fun n => n.2 = word).map Prod.fst).getD (-22)

/-- `get_value_string`. -/
def get_value_string (names : List (ℤ × String)) (value : ℤ) : String :=
  ((names.find? fun n => n.1 = value).map Prod.snd).getD
    ("unknown 0x" ++ String.ofList (Nat.toDigits 16 (u32 value).toNat))

def cfg_clock_ref (s : Session) (word : String) : CommandResult × Session :=
  s.set { s.cfg with clock_ref := get_string_value clock_ref_names word }

def cfg_multi_arfcn (s : Session) (word : String) : CommandResult × Session :=
  s.switch word fun on => { s.cfg with multi_arfcn := on }

def cfg_offset (s : Session) (hz : ℚ) : CommandResult × Session :=
  s.set { s.cfg with offset := hz }

def cfg_rssi_offset (s : Session) (db : ℚ) : CommandResult × Session :=
  s.set { s.cfg with rssi_offset := db }

def cfg_swap_channels (s : Session) (word : String) : CommandResult × Session :=
  s.switch word fun on => { s.cfg with swap_channels := on }

/-- Enabling EDGE support sets its filler, disabling it leaves the filler alone. -/
def cfg_egprs (s : Session) (word : String) : CommandResult × Session :=
  s.switch word fun on =>
    if on then { s.cfg with egprs := true, filler := .FILLER_EDGE_RAND }
    else { s.cfg with egprs := false }

/-- Any other word is no error here. -/
def cfg_ext_rach (s : Session) (word : String) : CommandResult × Session :=
  let cfg := if word = "disable" then { s.cfg with ext_rach := false } else s.cfg
  let cfg := if word = "enable" then { cfg with ext_rach := true } else cfg
  s.set cfg

def cfg_rt_prio (s : Session) (prio : ℕ) : CommandResult × Session :=
  s.set { s.cfg with sched_rr := prio }

def cfg_filler (s : Session) : CommandResult × Session :=
  s.set { s.cfg with filler := .FILLER_DUMMY }

/-- The channel is created if it is the next one. -/
def cfg_chan (s : Session) (idx : ℕ) : CommandResult × Session :=
  if h : idx ≥ TRX_CHAN_MAX then (CMD_WARNING, s)
  else
    let i : Fin TRX_CHAN_MAX := ⟨idx, not_le.mp h⟩
    if s.cfg.num_chans < idx then (CMD_WARNING, s)
    else if s.cfg.num_chans = idx then
      (CMD_SUCCESS,
        { node := .CHAN_NODE i
          cfg :=
            { s.cfg with
              num_chans := s.cfg.num_chans + 1
              chans := Function.update s.cfg.chans i
                { s.cfg.chans i with trx := true, idx := idx } } })
    else (CMD_SUCCESS, { s with node := .CHAN_NODE i })

/-- Set a part of the channel `vty->index` points to. -/
def Cfg.setChan (cfg : Cfg) (i : Fin TRX_CHAN_MAX) (chan : TrxChan) : Cfg :=
  { cfg with chans := Function.update cfg.chans i chan }

def cfg_chan_rx_path (s : Session) (i : Fin TRX_CHAN_MAX) (name : String) :
    CommandResult × Session :=
  s.set (s.cfg.setChan i { s.cfg.chans i with rx_path := some name })

def cfg_chan_tx_path (s : Session) (i : Fin TRX_CHAN_MAX) (name : String) :
    CommandResult × Session :=
  s.set (s.cfg.setChan i { s.cfg.chans i with tx_path := some name })

/-- The handler of a command, called at the node where it is installed. -/
def handler (s : Session) : Command → CommandResult × Session
  | .trx => cfg_trx s
  | .bind_ip addr => cfg_bind_ip s addr
  | .remote_ip addr => cfg_remote_ip s addr
  | .base_port port => cfg_base_port s port
  | .dev_args desc => cfg_dev_args s desc
  | .tx_sps sps => cfg_tx_sps s sps
  | .rx_sps sps => cfg_rx_sps s sps
  | .test_rtsc tsc => cfg_test_rtsc s tsc
  | .test_rach_delay delay => cfg_test_rach_delay s delay
  | .clock_ref word => cfg_clock_ref s word
  | .multi_arfcn word => cfg_multi_arfcn s word
  | .offset hz => cfg_offset s hz
  | .rssi_offset db => cfg_rssi_offset s db
  | .swap_channels word => cfg_swap_channels s word
  | .egprs word => cfg_egprs s word
  | .ext_rach word => cfg_ext_rach s word
  | .rt_prio prio => cfg_rt_prio s prio
  | .filler_dummy => cfg_filler s
  | .chan idx => cfg_chan s idx
  | .rx_path name =>
    match s.node with
    | .CHAN_NODE i => cfg_chan_rx_path s i name
    | _ => (CMD_ERR_NO_MATCH, s)
  | .tx_path name =>
    match s.node with
    | .CHAN_NODE i => cfg_chan_tx_path s i name
    | _ => (CMD_ERR_NO_MATCH, s)

/-- A line of the VTY; a handler is called at the node where its command was found. -/
def execute (s : Session) (c : Command) : CommandResult × Session :=
  if ¬ c.Matches then (CMD_ERR_NO_MATCH, s)
  else
    match s.node.ascend c.level with
    | none => (CMD_ERR_NO_MATCH, s)
    | some node => handler { s with node := node } c

/-- The session after a line. -/
def step (s : Session) (c : Command) : Session := (execute s c).2

/-! ## What a line does -/

theorem execute_of_matches {s : Session} {c : Command} {node : Node} (hc : c.Matches)
    (hnode : s.node.ascend c.level = some node) :
    execute s c = handler { s with node := node } c := by
  unfold execute
  rw [if_neg (not_not.mpr hc), hnode]

theorem execute_of_ascend_none {s : Session} {c : Command}
    (hnode : s.node.ascend c.level = none) : execute s c = (CMD_ERR_NO_MATCH, s) := by
  unfold execute
  rw [hnode]
  split_ifs <;> rfl

/-- Either a line is refused by libosmovty or it is handled. -/
theorem execute_cases (s : Session) (c : Command) :
    execute s c = (CMD_ERR_NO_MATCH, s) ∨
    ∃ node, c.Matches ∧ s.node.ascend c.level = some node ∧
      execute s c = handler { s with node := node } c := by
  by_cases hc : c.Matches
  · cases hnode : s.node.ascend c.level with
    | none => exact .inl (execute_of_ascend_none hnode)
    | some node => exact .inr ⟨node, hc, rfl, execute_of_matches hc hnode⟩
  · exact .inl (if_pos hc)

theorem switch_refused {s : Session} {word : String} {put : Bool → Cfg}
    (h : (s.switch word put).1 ≠ CMD_SUCCESS) : (s.switch word put).2 = s := by
  unfold Session.switch at h ⊢
  split_ifs with hoff hon
  · rw [if_pos hoff] at h
    exact absurd rfl h
  · rw [if_neg hoff, if_pos hon] at h
    exact absurd rfl h
  · rfl

/-- A handler that reports an error has changed nothing. -/
theorem handler_refused {s : Session} {c : Command} (h : (handler s c).1 ≠ CMD_SUCCESS) :
    (handler s c).2 = s := by
  cases c with
  | test_rtsc tsc =>
    by_cases hset : s.cfg.rach_delay_set
    · simp only [handler, cfg_test_rtsc, if_pos hset]
    · refine absurd ?_ h
      simp only [handler, cfg_test_rtsc, if_neg hset, Session.set]
  | test_rach_delay delay =>
    by_cases hset : s.cfg.rtsc_set
    · simp only [handler, cfg_test_rach_delay, if_pos hset]
    by_cases hegprs : s.cfg.egprs
    · simp only [handler, cfg_test_rach_delay, if_neg hset, if_pos hegprs]
    · refine absurd ?_ h
      simp only [handler, cfg_test_rach_delay, if_neg hset, if_neg hegprs, Session.set]
  | chan idx =>
    simp only [handler, cfg_chan] at h ⊢
    split_ifs at h ⊢ with hmax hnext hnew
    all_goals first | rfl | exact absurd rfl h
  | multi_arfcn word => exact switch_refused h
  | swap_channels word => exact switch_refused h
  | egprs word => exact switch_refused h
  | rx_path name =>
    obtain ⟨node, cfg⟩ := s
    cases node with
    | CHAN_NODE i => exact absurd rfl h
    | _ => rfl
  | tx_path name =>
    obtain ⟨node, cfg⟩ := s
    cases node with
    | CHAN_NODE i => exact absurd rfl h
    | _ => rfl
  | _ => exact absurd rfl h

/-- **A refused command changes nothing** in the configuration. -/
theorem execute_refused {s : Session} {c : Command} (h : (execute s c).1 ≠ CMD_SUCCESS) :
    (execute s c).2.cfg = s.cfg := by
  rcases execute_cases s c with hex | ⟨node, -, -, hex⟩
  · rw [hex]
  · rw [hex] at h ⊢
    rw [handler_refused h]

end Vty
end OsmoTrx
