import OsmoTrx.Vty.Invariants

/-!
# Options of the command line

`handle_options` and `trx_validate_config` of `osmo-trx.cpp`.  Each option has a counterpart among
the commands of the VTY, but sets its fields without the checks that the command makes; an argument
is the `int` that `atoi` makes of it, which an `unsigned` field stores modulo `2 ^ 32`.

* `CmdOption`, `handle_option` — the options that set a field.
* `trx_validate_config` — what is checked before the transceiver is made.
* `configure` — a configuration is set by commands and options in any order.
-/

namespace OsmoTrx
namespace Vty

open Trx (FillerType)

/-! ## Options -/

/-- The options that set a field of the configuration. -/
inductive CmdOption
  | a (dev_args : String)
  | i (remote_addr : String)
  | j (bind_addr : String)
  | p (n : ℤ)
  | c (n : ℤ)
  | m
  | x
  | g
  | f
  | o (offset : ℚ)
  | s (n : ℤ)
  | b (n : ℤ)
  | r (n : ℤ)
  | A (n : ℤ)
  | R (rssi_offset : ℚ)
  | S
  | e
  | t (n : ℤ)
  deriving DecidableEq, Repr

/-- An `int` stored in an `unsigned` field. -/
def unsigned (n : ℤ) : ℕ := (u32 n).toNat

/-- The turn of `handle_options` for an option. -/
def handle_option (cfg : Cfg) : CmdOption → Cfg
  | .a dev_args => { cfg with dev_args := some dev_args }
  | .i remote_addr => { cfg with remote_addr := some remote_addr }
  | .j bind_addr => { cfg with bind_addr := some bind_addr }
  | .p n => { cfg with base_port := unsigned n }
  | .c n => { cfg with num_chans := unsigned n }
  | .m => { cfg with multi_arfcn := true }
  | .x => { cfg with clock_ref := ReferenceType.REF_EXTERNAL.code }
  | .g => { cfg with clock_ref := ReferenceType.REF_GPS.code }
  | .f => { cfg with filler := .FILLER_DUMMY }
  | .o offset => { cfg with offset := offset }
  | .s n => { cfg with tx_sps := unsigned n }
  | .b n => { cfg with rx_sps := unsigned n }
  | .r n =>
    { cfg with
      rtsc_set := true
      rtsc := unsigned n
      -- don't override egprs, which sets a different filler
      filler := if !cfg.egprs then .FILLER_NORM_RAND else cfg.filler }
  | .A n =>
    { cfg with
      rach_delay_set := true
      rach_delay := unsigned n
      filler := .FILLER_ACCESS_RAND }
  | .R rssi_offset => { cfg with rssi_offset := rssi_offset }
  | .S => { cfg with swap_channels := true }
  | .e => { cfg with egprs := true }
  | .t n => { cfg with sched_rr := unsigned n }

/-- `trx_validate_config`. -/
def trx_validate_config (cfg : Cfg) : ℤ :=
  if cfg.multi_arfcn ∧ cfg.num_chans > 5 then -1
  else if (cfg.egprs ∨ cfg.multi_arfcn) ∧ (cfg.tx_sps ≠ 4 ∨ cfg.rx_sps ≠ 4) then -1
  else 0

/-- EDGE support and several carriers are accepted at 4 samples a symbol only. -/
theorem tx_sps_of_valid {cfg : Cfg} (h : trx_validate_config cfg = 0)
    (hmode : cfg.egprs = true ∨ cfg.multi_arfcn = true) : cfg.tx_sps = 4 := by
  unfold trx_validate_config at h
  split_ifs at h with hchans hsps
  by_contra hne
  exact hsps ⟨hmode, .inl hne⟩

/-! ## Configuring -/

/-- A line of the VTY or an option of the command line. -/
inductive Setting
  | command (c : Command)
  | option (o : CmdOption)
  deriving DecidableEq, Repr

/-- The session after a setting. -/
def configure (s : Session) : Setting → Session
  | .command c => step s c
  | .option o => { s with cfg := handle_option s.cfg o }

/-- The configuration that some settings leave. -/
def configuration (settings : List Setting) : Cfg := (Run.exec configure Session.fresh settings).cfg

end Vty
end OsmoTrx
