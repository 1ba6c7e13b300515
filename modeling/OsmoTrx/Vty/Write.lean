import OsmoTrx.Vty.Invariants

/-!
# Writing the configuration

`config_write_trx` of `trx_vty.c` prints the configuration as commands, which are read again at
the next start.  A floating-point number is read back as the number that its text stands for.

* `config_write_trx` — the lines that are printed, as the commands that they are.
* `Writable` — what the arguments of the commands tell about a configuration; `writable_exec`.
* `Reads` — some lines take a session to another, and none of them is refused.
* `reads_config` — reading the lines gives every field back but the filler.
* `roundTrips_iff` — **the configuration is read back as it was exactly if its filler is the one
  that the other options imply.**
-/

namespace OsmoTrx
namespace Vty

open Trx (FillerType)

/-! ## The code -/

/-- A line that is printed under a condition. -/
def lineIf (p : Prop) [Decidable p] (c : Command) : List Command := if p then [c] else []

/-- `on ? "enable" : "disable"`. -/
def switchWord (on : Bool) : String := if on then "enable" else "disable"

/-- The lines of a channel. -/
def writeChan (chan : TrxChan) : List Command :=
  .chan chan.idx :: (chan.rx_path.toList.map .rx_path ++ chan.tx_path.toList.map .tx_path)

/-- `config_write_trx`; `reread` is what a printed floating-point number is read back as. -/
def config_write_trx (reread : ℚ → ℚ) (c : Cfg) : List Command :=
  [.trx] ++ c.bind_addr.toList.map .bind_ip ++ c.remote_addr.toList.map .remote_ip ++
  lineIf (c.base_port ≠ DEFAULT_TRX_PORT) (.base_port c.base_port) ++
  c.dev_args.toList.map .dev_args ++
  lineIf (c.tx_sps ≠ DEFAULT_TX_SPS) (.tx_sps c.tx_sps) ++
  lineIf (c.rx_sps ≠ DEFAULT_RX_SPS) (.rx_sps c.rx_sps) ++
  lineIf (c.rtsc_set = true) (.test_rtsc c.rtsc) ++
  lineIf (c.rach_delay_set = true) (.test_rach_delay c.rach_delay) ++
  lineIf (c.clock_ref ≠ ReferenceType.REF_INTERNAL.code)
    (.clock_ref (get_value_string clock_ref_names c.clock_ref)) ++
  [.multi_arfcn (switchWord c.multi_arfcn)] ++
  lineIf (c.offset ≠ 0) (.offset (reread c.offset)) ++
  lineIf (c.rssi_offset ≠ 0) (.rssi_offset (reread c.rssi_offset)) ++
  [.swap_channels (switchWord c.swap_channels)] ++
  [.egprs (switchWord c.egprs)] ++
  [.ext_rach (switchWord c.ext_rach)] ++
  lineIf (c.sched_rr ≠ 0) (.rt_prio c.sched_rr) ++
  ((List.finRange TRX_CHAN_MAX).take c.num_chans).flatMap fun i => writeChan (c.chans i)

/-- Written and read back into a fresh session, the configuration is what it was, the
floating-point fields left aside, and no line is refused. -/
def RoundTrips (reread : ℚ → ℚ) (c : Cfg) : Prop :=
  Run.Along step (fun s line => (execute s line).1 = .CMD_SUCCESS) Session.fresh
    (config_write_trx reread c) ∧
  { (Run.exec step Session.fresh (config_write_trx reread c)).cfg with
    offset := c.offset, rssi_offset := c.rssi_offset } = c

/-- The filler type that the options stand for. -/
def impliedFiller (c : Cfg) : FillerType :=
  if c.egprs then .FILLER_EDGE_RAND
  else if c.rach_delay_set then .FILLER_ACCESS_RAND
  else if c.rtsc_set then .FILLER_NORM_RAND
  else .FILLER_ZERO

/-! ## Configurations that can be written -/

/-- The fields hold values that a command can set, or their initial values. -/
structure Writable (c : Cfg) : Prop where
  bind_addr : ∃ addr, c.bind_addr = some addr ∧ Token addr
  remote_addr : ∃ addr, c.remote_addr = some addr ∧ Token addr
  dev_args : ∀ desc, c.dev_args = some desc → Token desc
  base_port : 1 ≤ c.base_port ∧ c.base_port ≤ 65535
  tx_sps : c.tx_sps = 1 ∨ c.tx_sps = 4
  rx_sps : c.rx_sps = 1 ∨ c.rx_sps = 4
  rtsc : if c.rtsc_set then c.rtsc ≤ 7 else c.rtsc = 0
  rach_delay : if c.rach_delay_set then c.rach_delay ≤ 68 else c.rach_delay = 0
  clock_ref : c.clock_ref = 0 ∨ c.clock_ref = 1 ∨ c.clock_ref = 2
  sched_rr : c.sched_rr = 0 ∨ 1 ≤ c.sched_rr ∧ c.sched_rr ≤ 32
  rx_path : ∀ i name, (c.chans i).rx_path = some name → Token name
  tx_path : ∀ i name, (c.chans i).tx_path = some name → Token name
  unused : ∀ i : Fin TRX_CHAN_MAX, c.num_chans ≤ i.val → c.chans i = TrxChan.zero

/-- A session whose channel node is that of an existing channel. -/
structure WritableSession (s : Session) : Prop where
  cfg : Writable s.cfg
  node : ∀ i, s.node = .CHAN_NODE i → i.val < s.cfg.num_chans

theorem writable_alloc : Writable vty_trx_ctx_alloc where
  bind_addr := ⟨_, rfl, by decide +kernel⟩
  remote_addr := ⟨_, rfl, by decide +kernel⟩
  dev_args _ h := nomatch h
  base_port := by decide
  tx_sps := by decide
  rx_sps := by decide
  rtsc := rfl
  rach_delay := rfl
  clock_ref := by decide
  sched_rr := by decide
  rx_path _ _ h := nomatch h
  tx_path _ _ h := nomatch h
  unused _ _ := rfl

theorem writableSession_fresh : WritableSession Session.fresh where
  cfg := writable_alloc
  node _ h := nomatch h

/-- The words of the reference clocks. -/
theorem get_string_value_mem {word : String}
    (h : word = "internal" ∨ word = "external" ∨ word = "gpsdo") :
    get_string_value clock_ref_names word = 0 ∨ get_string_value clock_ref_names word = 1 ∨
      get_string_value clock_ref_names word = 2 := by
  rcases h with rfl | rfl | rfl <;> decide

/-- The next channel starts without paths. -/
theorem WritableSession.chan {s : Session} (h : WritableSession s) (idx : ℕ) :
    WritableSession (cfg_chan s idx).2 := by
  unfold cfg_chan
  split_ifs with hmax hnext hnew
  · exact h
  · exact h
  · have hzero := h.cfg.unused ⟨idx, not_le.mp hmax⟩ hnew.le
    have hcell (j : Fin TRX_CHAN_MAX) (chan : TrxChan) (hrx : chan.rx_path = none)
        (htx : chan.tx_path = none) :
        (∀ name, (Function.update s.cfg.chans ⟨idx, not_le.mp hmax⟩ chan j).rx_path = some name →
          Token name) ∧
        (∀ name, (Function.update s.cfg.chans ⟨idx, not_le.mp hmax⟩ chan j).tx_path = some name →
          Token name) := by
      rcases eq_or_ne j ⟨idx, not_le.mp hmax⟩ with rfl | hne
      · simp [hrx, htx]
      · rw [Function.update_of_ne hne]
        exact ⟨h.cfg.rx_path j, h.cfg.tx_path j⟩
    refine ⟨{ h.cfg with rx_path := ?_, tx_path := ?_, unused := ?_ }, ?_⟩
    · exact fun j => (hcell j _ (by rw [hzero]; rfl) (by rw [hzero]; rfl)).1
    · exact fun j => (hcell j _ (by rw [hzero]; rfl) (by rw [hzero]; rfl)).2
    · intro j hj
      simp only at hj ⊢
      rw [Function.update_of_ne]
      · exact h.cfg.unused j (by omega)
      · rintro rfl
        simp only at hj
        omega
    · intro j hj
      obtain rfl := Node.CHAN_NODE.inj hj
      simp only
      omega
  · refine ⟨h.cfg, fun j hj => ?_⟩
    obtain rfl := Node.CHAN_NODE.inj hj
    simp only
    omega

/-- A path of an existing channel. -/
theorem Writable.setChan {c : Cfg} (h : Writable c) {i : Fin TRX_CHAN_MAX} {chan : TrxChan}
    (hi : i.val < c.num_chans) (hrx : ∀ name, chan.rx_path = some name → Token name)
    (htx : ∀ name, chan.tx_path = some name → Token name) : Writable (c.setChan i chan) :=
  { h with
    rx_path := fun j name hj => by
      simp only [Cfg.setChan] at hj
      rcases eq_or_ne j i with rfl | hne
      · rw [Function.update_self] at hj
        exact hrx name hj
      · rw [Function.update_of_ne hne] at hj
        exact h.rx_path j name hj
    tx_path := fun j name hj => by
      simp only [Cfg.setChan] at hj
      rcases eq_or_ne j i with rfl | hne
      · rw [Function.update_self] at hj
        exact htx name hj
      · rw [Function.update_of_ne hne] at hj
        exact h.tx_path j name hj
    unused := fun j hj => by
      simp only [Cfg.setChan] at hj ⊢
      rw [Function.update_of_ne (by rintro rfl; omega)]
      exact h.unused j hj }

/-- **Every command keeps a configuration that can be written.** -/
theorem WritableSession.handler {s : Session} (h : WritableSession s) {c : Command}
    (hc : c.Matches) : WritableSession (Vty.handler s c).2 := by
  cases c with
  | trx => exact ⟨h.cfg, nofun⟩
  | bind_ip addr => exact ⟨{ h.cfg with bind_addr := ⟨addr, rfl, hc⟩ }, h.node⟩
  | remote_ip addr => exact ⟨{ h.cfg with remote_addr := ⟨addr, rfl, hc⟩ }, h.node⟩
  | base_port port => exact ⟨{ h.cfg with base_port := hc }, h.node⟩
  | dev_args desc =>
    refine ⟨{ h.cfg with dev_args := fun d hd => ?_ }, h.node⟩
    obtain rfl := Option.some.inj hd
    exact hc
  | tx_sps sps => exact ⟨{ h.cfg with tx_sps := hc }, h.node⟩
  | rx_sps sps => exact ⟨{ h.cfg with rx_sps := hc }, h.node⟩
  | test_rtsc tsc =>
    simp only [Vty.handler, cfg_test_rtsc]
    by_cases hset : s.cfg.rach_delay_set
    · rwa [if_pos hset]
    · rw [if_neg hset]
      exact ⟨{ h.cfg with rtsc := hc }, h.node⟩
  | test_rach_delay delay =>
    simp only [Vty.handler, cfg_test_rach_delay]
    by_cases hset : s.cfg.rtsc_set
    · rwa [if_pos hset]
    rw [if_neg hset]
    by_cases hegprs : s.cfg.egprs
    · rwa [if_pos hegprs]
    · rw [if_neg hegprs]
      exact ⟨{ h.cfg with rach_delay := hc }, h.node⟩
  | clock_ref word => exact ⟨{ h.cfg with clock_ref := get_string_value_mem hc }, h.node⟩
  | egprs word =>
    simp only [Vty.handler, cfg_egprs]
    rcases switch_cases s word fun on => if on then
        { s.cfg with egprs := true, filler := .FILLER_EDGE_RAND } else { s.cfg with egprs := false }
      with ⟨-, heq⟩ | ⟨-, heq⟩ | ⟨-, heq⟩ <;> rw [heq]
    · exact ⟨{ h.cfg with }, h.node⟩
    · exact ⟨{ h.cfg with }, h.node⟩
    · exact h
  | multi_arfcn word =>
    simp only [Vty.handler, cfg_multi_arfcn, Session.switch]
    split_ifs <;> exact ⟨{ h.cfg with }, h.node⟩
  | swap_channels word =>
    simp only [Vty.handler, cfg_swap_channels, Session.switch]
    split_ifs <;> exact ⟨{ h.cfg with }, h.node⟩
  | ext_rach word =>
    simp only [Vty.handler, cfg_ext_rach]
    split_ifs <;> exact ⟨{ h.cfg with }, h.node⟩
  | rt_prio prio => exact ⟨{ h.cfg with sched_rr := .inr hc }, h.node⟩
  | chan idx => exact h.chan idx
  | rx_path name =>
    obtain ⟨node, cfg⟩ := s
    cases node with
    | CHAN_NODE i =>
      refine ⟨h.cfg.setChan (h.node i rfl) (fun d hd => ?_) (h.cfg.tx_path i), h.node⟩
      obtain rfl := Option.some.inj hd
      exact hc
    | _ => exact h
  | tx_path name =>
    obtain ⟨node, cfg⟩ := s
    cases node with
    | CHAN_NODE i =>
      refine ⟨h.cfg.setChan (h.node i rfl) (h.cfg.rx_path i) fun d hd => ?_, h.node⟩
      obtain rfl := Option.some.inj hd
      exact hc
    | _ => exact h
  | _ => exact ⟨{ h.cfg with }, h.node⟩

/-- Going up from a channel node leads to a node that is none. -/
theorem WritableSession.ascend {s : Session} (h : WritableSession s) {level : Level} {node : Node}
    (hnode : s.node.ascend level = some node) : WritableSession { s with node := node } := by
  refine ⟨h.cfg, fun i hi => h.node i ?_⟩
  simp only at hi
  subst hi
  cases hs : s.node with
  | CONFIG_NODE =>
    rw [hs] at hnode
    cases level <;> exact absurd hnode nofun
  | TRX_NODE =>
    rw [hs] at hnode
    cases level <;> exact absurd hnode nofun
  | CHAN_NODE j =>
    rw [hs] at hnode
    cases level
    · exact absurd hnode nofun
    · exact absurd hnode nofun
    · exact Option.some.inj hnode

theorem WritableSession.step {s : Session} (h : WritableSession s) (c : Command) :
    WritableSession (step s c) := by
  unfold Vty.step
  rcases execute_cases s c with hex | ⟨node, hc, hnode, hex⟩ <;> rw [hex]
  · exact h
  · exact (h.ascend hnode).handler hc

/-- Every configuration that commands can reach can be written. -/
theorem writable_exec (cmds : List Command) :
    Writable (Run.exec step Session.fresh cmds).cfg :=
  (Run.exec_invariant (fun _ c h => h.step c) writableSession_fresh cmds).cfg

/-! ## Reading the lines -/

/-- The lines take a session to another, and none of them is refused. -/
def Reads (s : Session) (lines : List Command) (s' : Session) : Prop :=
  Run.Along step (fun s line => (execute s line).1 = .CMD_SUCCESS) s lines ∧
  Run.exec step s lines = s'

theorem Reads.nil (s : Session) : Reads s [] s := ⟨trivial, rfl⟩

theorem Reads.append {s s' s'' : Session} {lines lines' : List Command} (h : Reads s lines s')
    (h' : Reads s' lines' s'') : Reads s (lines ++ lines') s'' := by
  obtain ⟨hok, rfl⟩ := h
  exact ⟨Run.along_append.mpr ⟨hok, h'.1⟩, (Run.exec_append _ _ _).trans h'.2⟩

theorem Reads.line {s s' : Session} {c : Command} (h : execute s c = (.CMD_SUCCESS, s')) :
    Reads s [c] s' := by
  refine ⟨⟨congrArg Prod.fst h, trivial⟩, ?_⟩
  rw [Run.exec_cons, Run.exec_nil, step, h]

/-- A line that is printed unless it would change nothing. -/
theorem Reads.lineIf {s s' : Session} {p : Prop} [Decidable p] {c : Command}
    (hprinted : p → execute s c = (.CMD_SUCCESS, s')) (hleft : ¬ p → s = s') :
    Reads s (Vty.lineIf p c) s' := by
  unfold Vty.lineIf
  split_ifs with hp
  · exact .line (hprinted hp)
  · rw [hleft hp]
    exact .nil s'

/-- At the TRX node a command of the node is handled there. -/
theorem execute_trx {d : Cfg} {c : Command} (hc : c.Matches) (hlevel : c.level = .trx) :
    execute ⟨.TRX_NODE, d⟩ c = handler ⟨.TRX_NODE, d⟩ c :=
  execute_of_matches hc (by rw [hlevel]; rfl)

theorem switch_switchWord (s : Session) (on : Bool) (put : Bool → Cfg) :
    s.switch (switchWord on) put = s.set (put on) := by
  cases on <;> rfl

theorem switch_matches (on : Bool) : Switch (switchWord on) := by
  cases on
  · exact .inl rfl
  · exact .inr rfl

/-- What becomes of a floating-point field, which is printed if it is not zero. -/
def readBack (reread : ℚ → ℚ) (x : ℚ) : ℚ := if x ≠ 0 then reread x else 0

section Lines

variable {c d : Cfg}

theorem reads_bind_addr (h : Writable c) : Reads ⟨.TRX_NODE, d⟩ (c.bind_addr.toList.map .bind_ip)
    ⟨.TRX_NODE, { d with bind_addr := c.bind_addr }⟩ := by
  obtain ⟨addr, haddr, htoken⟩ := h.bind_addr
  rw [haddr]
  exact .line (execute_trx htoken rfl)

theorem reads_remote_addr (h : Writable c) :
    Reads ⟨.TRX_NODE, d⟩ (c.remote_addr.toList.map .remote_ip)
      ⟨.TRX_NODE, { d with remote_addr := c.remote_addr }⟩ := by
  obtain ⟨addr, haddr, htoken⟩ := h.remote_addr
  rw [haddr]
  exact .line (execute_trx htoken rfl)

theorem reads_dev_args (h : Writable c) (hd : d.dev_args = none) :
    Reads ⟨.TRX_NODE, d⟩ (c.dev_args.toList.map .dev_args)
      ⟨.TRX_NODE, { d with dev_args := c.dev_args }⟩ := by
  cases hargs : c.dev_args with
  | none =>
    have hsame : { d with dev_args := none } = d := by rw [← hd]
    rw [hsame]
    exact .nil _
  | some desc => exact .line (execute_trx (c := .dev_args desc) (h.dev_args desc hargs) rfl)

theorem reads_base_port (h : Writable c) (hd : d.base_port = DEFAULT_TRX_PORT) :
    Reads ⟨.TRX_NODE, d⟩ (lineIf (c.base_port ≠ DEFAULT_TRX_PORT) (.base_port c.base_port))
      ⟨.TRX_NODE, { d with base_port := c.base_port }⟩ :=
  .lineIf (fun _ => execute_trx h.base_port rfl) fun hp => by rw [not_not.mp hp, ← hd]

theorem reads_tx_sps (h : Writable c) (hd : d.tx_sps = DEFAULT_TX_SPS) :
    Reads ⟨.TRX_NODE, d⟩ (lineIf (c.tx_sps ≠ DEFAULT_TX_SPS) (.tx_sps c.tx_sps))
      ⟨.TRX_NODE, { d with tx_sps := c.tx_sps }⟩ :=
  .lineIf (fun _ => execute_trx h.tx_sps rfl) fun hp => by rw [not_not.mp hp, ← hd]

theorem reads_rx_sps (h : Writable c) (hd : d.rx_sps = DEFAULT_RX_SPS) :
    Reads ⟨.TRX_NODE, d⟩ (lineIf (c.rx_sps ≠ DEFAULT_RX_SPS) (.rx_sps c.rx_sps))
      ⟨.TRX_NODE, { d with rx_sps := c.rx_sps }⟩ :=
  .lineIf (fun _ => execute_trx h.rx_sps rfl) fun hp => by rw [not_not.mp hp, ← hd]

theorem reads_sched_rr (h : Writable c) (hd : d.sched_rr = 0) :
    Reads ⟨.TRX_NODE, d⟩ (lineIf (c.sched_rr ≠ 0) (.rt_prio c.sched_rr))
      ⟨.TRX_NODE, { d with sched_rr := c.sched_rr }⟩ :=
  .lineIf (fun hp => execute_trx (h.sched_rr.resolve_left hp) rfl) fun hp => by
    rw [not_not.mp hp, ← hd]

/-- The test mode for normal bursts sets its filler, since EDGE support is not yet read. -/
theorem reads_rtsc (h : Writable c) (hd : d.rtsc_set = false ∧ d.rtsc = 0)
    (hrach : d.rach_delay_set = false) (hegprs : d.egprs = false) :
    Reads ⟨.TRX_NODE, d⟩ (lineIf (c.rtsc_set = true) (.test_rtsc c.rtsc))
      ⟨.TRX_NODE,
        { d with
          rtsc_set := c.rtsc_set
          rtsc := c.rtsc
          filler := if c.rtsc_set then .FILLER_NORM_RAND else d.filler }⟩ := by
  have hrtsc := h.rtsc
  refine .lineIf (fun hset => ?_) fun hset => ?_
  · rw [if_pos hset] at hrtsc
    rw [execute_trx (c := .test_rtsc c.rtsc) hrtsc rfl]
    simp [handler, cfg_test_rtsc, hrach, hegprs, Session.set, hset]
  · rw [if_neg hset] at hrtsc
    rw [Bool.not_eq_true] at hset
    simp only [hset, hrtsc, Bool.false_eq_true, if_false]
    cases d
    obtain ⟨rfl, rfl⟩ := hd
    rfl

/-- The test mode for access bursts excludes the other one. -/
theorem reads_rach_delay (h : Writable c) (hc : Sound c)
    (hd : d.rach_delay_set = false ∧ d.rach_delay = 0) (hrtsc : d.rtsc_set = c.rtsc_set)
    (hegprs : d.egprs = false) :
    Reads ⟨.TRX_NODE, d⟩ (lineIf (c.rach_delay_set = true) (.test_rach_delay c.rach_delay))
      ⟨.TRX_NODE,
        { d with
          rach_delay_set := c.rach_delay_set
          rach_delay := c.rach_delay
          filler := if c.rach_delay_set then .FILLER_ACCESS_RAND else d.filler }⟩ := by
  have hdelay := h.rach_delay
  refine .lineIf (fun hset => ?_) fun hset => ?_
  · have hunset : d.rtsc_set = false := by
      rw [hrtsc]
      exact Bool.eq_false_iff.mpr fun hboth => hc.rtsc_rach ⟨hboth, hset⟩
    rw [if_pos hset] at hdelay
    rw [execute_trx (c := .test_rach_delay c.rach_delay) hdelay rfl]
    simp [handler, cfg_test_rach_delay, hunset, hegprs, Session.set, hset]
  · rw [if_neg hset] at hdelay
    rw [Bool.not_eq_true] at hset
    simp only [hset, hdelay, Bool.false_eq_true, if_false]
    cases d
    obtain ⟨rfl, rfl⟩ := hd
    rfl

/-- The names of the reference clocks are read as the clocks. -/
theorem reads_clock_ref (h : Writable c) (hd : d.clock_ref = 0) :
    Reads ⟨.TRX_NODE, d⟩ (lineIf (c.clock_ref ≠ ReferenceType.REF_INTERNAL.code)
        (.clock_ref (get_value_string clock_ref_names c.clock_ref)))
      ⟨.TRX_NODE, { d with clock_ref := c.clock_ref }⟩ := by
  have hword : (Command.clock_ref (get_value_string clock_ref_names c.clock_ref)).Matches ∧
      get_string_value clock_ref_names (get_value_string clock_ref_names c.clock_ref) =
        c.clock_ref := by
    rcases h.clock_ref with href | href | href <;> rw [href] <;> decide
  refine .lineIf (fun _ => ?_) fun hp => ?_
  · rw [execute_trx hword.1 rfl, handler, cfg_clock_ref, hword.2]
    rfl
  · rw [not_not.mp hp, show ReferenceType.REF_INTERNAL.code = 0 from rfl, ← hd]

theorem reads_multi_arfcn : Reads ⟨.TRX_NODE, d⟩ [.multi_arfcn (switchWord c.multi_arfcn)]
    ⟨.TRX_NODE, { d with multi_arfcn := c.multi_arfcn }⟩ := by
  refine .line ?_
  rw [execute_trx (c := .multi_arfcn _) (switch_matches _) rfl, handler, cfg_multi_arfcn,
    switch_switchWord]
  rfl

theorem reads_swap_channels : Reads ⟨.TRX_NODE, d⟩ [.swap_channels (switchWord c.swap_channels)]
    ⟨.TRX_NODE, { d with swap_channels := c.swap_channels }⟩ := by
  refine .line ?_
  rw [execute_trx (c := .swap_channels _) (switch_matches _) rfl, handler, cfg_swap_channels,
    switch_switchWord]
  rfl

theorem reads_ext_rach : Reads ⟨.TRX_NODE, d⟩ [.ext_rach (switchWord c.ext_rach)]
    ⟨.TRX_NODE, { d with ext_rach := c.ext_rach }⟩ := by
  refine .line ?_
  rw [execute_trx (c := .ext_rach _) (switch_matches _) rfl]
  cases c.ext_rach <;> rfl

/-- EDGE support, read last, has its own filler. -/
theorem reads_egprs : Reads ⟨.TRX_NODE, d⟩ [.egprs (switchWord c.egprs)]
    ⟨.TRX_NODE,
      { d with
        egprs := c.egprs
        filler := if c.egprs then .FILLER_EDGE_RAND else d.filler }⟩ := by
  refine .line ?_
  rw [execute_trx (c := .egprs _) (switch_matches _) rfl, handler, cfg_egprs, switch_switchWord]
  cases c.egprs <;> rfl

theorem reads_offset (reread : ℚ → ℚ) (hd : d.offset = 0) :
    Reads ⟨.TRX_NODE, d⟩ (lineIf (c.offset ≠ 0) (.offset (reread c.offset)))
      ⟨.TRX_NODE, { d with offset := readBack reread c.offset }⟩ := by
  refine .lineIf (fun hp => ?_) fun hp => ?_
  · rw [readBack, if_pos hp]
    exact execute_trx trivial rfl
  · rw [readBack, if_neg hp, ← hd]

theorem reads_rssi_offset (reread : ℚ → ℚ) (hd : d.rssi_offset = 0) :
    Reads ⟨.TRX_NODE, d⟩ (lineIf (c.rssi_offset ≠ 0) (.rssi_offset (reread c.rssi_offset)))
      ⟨.TRX_NODE, { d with rssi_offset := readBack reread c.rssi_offset }⟩ := by
  refine .lineIf (fun hp => ?_) fun hp => ?_
  · rw [readBack, if_pos hp]
    exact execute_trx trivial rfl
  · rw [readBack, if_neg hp, ← hd]

end Lines

/-! ## Reading the channels -/

/-- A path that is printed if it is set, at the node of its channel. -/
theorem reads_path {e : Cfg} {i : Fin TRX_CHAN_MAX} {line : String → Command}
    {value : Option String} (put : Option String → TrxChan) (hunset : put none = e.chans i)
    (hline : ∀ word, value = some word → execute ⟨.CHAN_NODE i, e⟩ (line word) =
      (.CMD_SUCCESS, ⟨.CHAN_NODE i, e.setChan i (put (some word))⟩)) :
    Reads ⟨.CHAN_NODE i, e⟩ (value.toList.map line) ⟨.CHAN_NODE i, e.setChan i (put value)⟩ := by
  cases value with
  | none =>
    have hsame : e.setChan i (put none) = e := by
      rw [hunset, Cfg.setChan, Function.update_eq_self]
    rw [hsame]
    exact .nil _
  | some word => exact .line (hline word rfl)

/-- The lines of the next channel create it and set its paths. -/
theorem reads_chan {c e : Cfg} {node : Node} {i : Fin TRX_CHAN_MAX} (h : Writable c)
    (hidx : (c.chans i).idx = i.val) (htrx : (c.chans i).trx = true)
    (hnode : node ≠ .CONFIG_NODE) (hnum : e.num_chans = i.val)
    (hzero : e.chans i = TrxChan.zero) :
    Reads ⟨node, e⟩ (writeChan (c.chans i))
      ⟨.CHAN_NODE i,
        { e with
          num_chans := i.val + 1
          chans := Function.update e.chans i (c.chans i) }⟩ := by
  set e₁ : Cfg :=
    { e with
      num_chans := i.val + 1
      chans := Function.update e.chans i ⟨true, i.val, none, none⟩ } with he₁
  have hcell : e₁.chans i = ⟨true, i.val, none, none⟩ := Function.update_self _ _ _
  have hcreate : execute ⟨node, e⟩ (.chan (c.chans i).idx) =
      (.CMD_SUCCESS, ⟨.CHAN_NODE i, e₁⟩) := by
    have hmax : ¬ i.val ≥ TRX_CHAN_MAX := not_le.mpr i.isLt
    have hchan : (Command.chan i.val).Matches := (i.isLt.le.trans (by decide) : i.val ≤ 100)
    rw [hidx, execute_of_matches hchan (ascend_trx hnode), handler, cfg_chan, dif_neg hmax,
      if_neg (by simp only [hnum]; exact lt_irrefl _), if_pos (by simp only [hnum])]
    simp only [hnum, hzero, TrxChan.zero, he₁]
  have hrx : Reads ⟨.CHAN_NODE i, e₁⟩ ((c.chans i).rx_path.toList.map .rx_path)
      ⟨.CHAN_NODE i, e₁.setChan i ⟨true, i.val, (c.chans i).rx_path, none⟩⟩ := by
    refine reads_path (fun rx => ⟨true, i.val, rx, none⟩) hcell.symm fun name hname => ?_
    rw [execute_of_matches (c := .rx_path name) (h.rx_path i name hname) (show _ = some _ from rfl)]
    simp only [handler, cfg_chan_rx_path, hcell, Session.set]
  set e₂ := e₁.setChan i ⟨true, i.val, (c.chans i).rx_path, none⟩ with he₂
  have hcell₂ : e₂.chans i = ⟨true, i.val, (c.chans i).rx_path, none⟩ := Function.update_self _ _ _
  have htx : Reads ⟨.CHAN_NODE i, e₂⟩ ((c.chans i).tx_path.toList.map .tx_path)
      ⟨.CHAN_NODE i, e₂.setChan i ⟨true, i.val, (c.chans i).rx_path, (c.chans i).tx_path⟩⟩ := by
    refine reads_path (fun tx => ⟨true, i.val, (c.chans i).rx_path, tx⟩) hcell₂.symm
      fun name hname => ?_
    rw [execute_of_matches (c := .tx_path name) (h.tx_path i name hname) (show _ = some _ from rfl)]
    simp only [handler, cfg_chan_tx_path, hcell₂, Session.set]
  have hchan : (⟨true, i.val, (c.chans i).rx_path, (c.chans i).tx_path⟩ : TrxChan) = c.chans i := by
    rw [← hidx, ← htrx]
  have hreads := (Reads.line hcreate).append (hrx.append htx)
  rw [hchan, he₂, he₁] at hreads
  simp only [Cfg.setChan, Function.update_idem] at hreads
  exact hreads

/-- **The channels are read back one after the other.** -/
theorem reads_chans {c d : Cfg} (h : Writable c) (hc : Sound c) (hd : d.num_chans = 0)
    (hzero : d.chans = fun _ => TrxChan.zero) : ∀ k ≤ c.num_chans, ∃ node, node ≠ .CONFIG_NODE ∧
      Reads ⟨.TRX_NODE, d⟩
        (((List.finRange TRX_CHAN_MAX).take k).flatMap fun i => writeChan (c.chans i))
        ⟨node,
          { d with
            num_chans := k
            chans := fun j => if j.val < k then c.chans j else TrxChan.zero }⟩ := by
  intro k
  induction k with
  | zero =>
    intro _
    refine ⟨.TRX_NODE, nofun, ?_⟩
    have hsame : { d with num_chans := 0, chans := fun _ => TrxChan.zero } = d := by
      rw [← hd, ← hzero]
    simp only [List.take_zero, List.flatMap_nil, Nat.not_lt_zero, if_false, hsame]
    exact .nil _
  | succ k ih =>
    intro hk
    obtain ⟨node, hnode, hreads⟩ := ih (by omega)
    have hmax : k < TRX_CHAN_MAX := by have := hc.chans_le; omega
    obtain ⟨hidx, htrx⟩ := hc.chans ⟨k, hmax⟩ (by simp only; omega)
    refine ⟨.CHAN_NODE ⟨k, hmax⟩, nofun, ?_⟩
    have hnext := reads_chan (e :=
      { d with
        num_chans := k
        chans := fun j => if j.val < k then c.chans j else TrxChan.zero })
      h hidx htrx hnode rfl (if_neg (lt_irrefl k))
    have hchans : Function.update (fun j : Fin TRX_CHAN_MAX =>
        if j.val < k then c.chans j else TrxChan.zero) ⟨k, hmax⟩ (c.chans ⟨k, hmax⟩) =
        fun j => if j.val < k + 1 then c.chans j else TrxChan.zero := by
      funext j
      rcases eq_or_ne j ⟨k, hmax⟩ with rfl | hne
      · rw [Function.update_self, if_pos (Nat.lt_succ_self k)]
      · have hjk : j.val ≠ k := fun heq => hne (Fin.ext heq)
        rw [Function.update_of_ne hne]
        split_ifs <;> first | rfl | omega
    simp only [hchans] at hnext
    rw [List.take_add_one, List.getElem?_eq_getElem (by simpa using hmax), List.getElem_finRange,
      List.flatMap_append]
    refine hreads.append ?_
    simp only [Option.toList_some, List.flatMap_singleton]
    exact hnext

/-- After the other lines, the lines of all channels. -/
theorem Reads.chans {c d : Cfg} {s : Session} {lines : List Command}
    (hreads : Reads s lines ⟨.TRX_NODE, d⟩) (h : Writable c) (hc : Sound c)
    (hd : d.num_chans = 0) (hzero : d.chans = fun _ => TrxChan.zero) :
    ∃ node, Reads s (lines ++ ((List.finRange TRX_CHAN_MAX).take c.num_chans).flatMap fun i =>
      writeChan (c.chans i)) ⟨node, { d with num_chans := c.num_chans, chans := c.chans }⟩ := by
  obtain ⟨node, -, hchans⟩ := reads_chans h hc hd hzero c.num_chans le_rfl
  have hunused : (fun j : Fin TRX_CHAN_MAX => if j.val < c.num_chans then c.chans j else
      TrxChan.zero) = c.chans := by
    funext j
    split_ifs with hj
    · rfl
    · exact (h.unused j (not_lt.mp hj)).symm
  rw [hunused] at hchans
  exact ⟨node, hreads.append hchans⟩

/-! ## The round trip -/

/-- **Reading the printed lines** gives every field back, the floating-point numbers and the
filler left aside; the filler is the one that the options imply. -/
theorem reads_config {c : Cfg} (h : Writable c) (hc : Sound c) (reread : ℚ → ℚ) :
    ∃ node, Reads Session.fresh (config_write_trx reread c)
      ⟨node,
        { c with
          offset := readBack reread c.offset
          rssi_offset := readBack reread c.rssi_offset
          filler := impliedFiller c }⟩ := by
  have htrx : Reads Session.fresh [.trx] ⟨.TRX_NODE, vty_trx_ctx_alloc⟩ := .line rfl
  have haddr := htrx.append (reads_bind_addr h) |>.append (reads_remote_addr h)
  have hport := haddr.append (reads_base_port h rfl) |>.append (reads_dev_args h rfl)
  have hsps := hport.append (reads_tx_sps h rfl) |>.append (reads_rx_sps h rfl)
  have htest := hsps.append (reads_rtsc h ⟨rfl, rfl⟩ rfl rfl)
    |>.append (reads_rach_delay h hc ⟨rfl, rfl⟩ rfl rfl)
  have hclock := htest.append (reads_clock_ref h rfl) |>.append (reads_multi_arfcn (c := c))
  have hoffset := hclock.append (reads_offset (c := c) reread rfl)
    |>.append (reads_rssi_offset (c := c) reread rfl)
  have hegprs := hoffset.append (reads_swap_channels (c := c)) |>.append (reads_egprs (c := c))
  have hprio := hegprs.append (reads_ext_rach (c := c)) |>.append (reads_sched_rr h rfl)
  exact hprio.chans h hc rfl rfl

/-- **The configuration is read back as it was exactly if its filler is the implied one**: for
every configuration that commands can reach. -/
theorem roundTrips_iff (reread : ℚ → ℚ) (cmds : List Command) :
    RoundTrips reread (Run.exec step Session.fresh cmds).cfg ↔
      (Run.exec step Session.fresh cmds).cfg.filler =
        impliedFiller (Run.exec step Session.fresh cmds).cfg := by
  have h := writable_exec cmds
  have hc := sound_exec cmds
  generalize (Run.exec step Session.fresh cmds).cfg = c at h hc
  obtain ⟨node, hreads⟩ := reads_config h hc reread
  unfold RoundTrips
  -- only what the lines do matters from here on
  generalize config_write_trx reread c = lines at hreads ⊢
  obtain ⟨hok, hread⟩ := hreads
  rw [hread]
  constructor
  · rintro ⟨-, heq⟩
    exact (congrArg Cfg.filler heq).symm
  · intro heq
    refine ⟨hok, ?_⟩
    rw [← heq]

/-- A filler that is chosen by its own command is not printed, and lost. -/
theorem filler_unprinted :
    ¬ RoundTrips id (Run.exec step Session.fresh [.trx, .filler_dummy]).cfg := by
  rintro ⟨-, hsame⟩
  exact absurd (congrArg Cfg.filler hsame) (by decide +kernel)

end Vty
end OsmoTrx
