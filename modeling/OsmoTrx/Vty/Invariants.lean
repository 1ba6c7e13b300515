import OsmoTrx.Vty.Config

/-!
# Invariants of the VTY configuration

Which combinations of options the commands of `trx_vty.c` can reach.  The test modes exclude each
other, the test mode for access bursts and EDGE support exclude each other as well, and the
filler type belongs to a mode that is set.

* `Sound` — what no command can break; `sound_exec`.
* `Consistent` — all that the options promise.
* `Keeps` — the condition on a command: EDGE support is not enabled in the test mode for access
  bursts, and not disabled while its filler is in use.
* `consistent_iff` — **a run stays consistent exactly if all of its commands meet it.**
-/

namespace OsmoTrx
namespace Vty

open Trx (FillerType)

/-! ## What no command can break -/

/-- The test modes exclude each other, their fillers belong to them, and the channels are
numbered. -/
structure Sound (c : Cfg) : Prop where
  rtsc_rach : ¬ (c.rtsc_set = true ∧ c.rach_delay_set = true)
  norm : c.filler = .FILLER_NORM_RAND → c.rtsc_set = true
  access : c.filler = .FILLER_ACCESS_RAND → c.rach_delay_set = true
  chans_le : c.num_chans ≤ TRX_CHAN_MAX
  chans : ∀ i : Fin TRX_CHAN_MAX, i.val < c.num_chans →
    (c.chans i).idx = i.val ∧ (c.chans i).trx = true

theorem sound_alloc : Sound vty_trx_ctx_alloc where
  rtsc_rach h := absurd h.1 (by decide)
  norm h := absurd h (by decide)
  access h := absurd h (by decide)
  chans_le := Nat.zero_le _
  chans i hi := absurd hi (Nat.not_lt_zero _)

/-- A handler for a switch leaves the session alone or puts one of the two values. -/
theorem switch_cases (s : Session) (word : String) (put : Bool → Cfg) :
    (word = "disable" ∧ s.switch word put = s.set (put false)) ∨
    (word = "enable" ∧ s.switch word put = s.set (put true)) ∨
    (word ≠ "disable" ∧ word ≠ "enable") ∧ s.switch word put = (.CMD_WARNING, s) := by
  unfold Session.switch
  by_cases hoff : word = "disable"
  · exact .inl ⟨hoff, if_pos hoff⟩
  by_cases hon : word = "enable"
  · exact .inr (.inl ⟨hon, by rw [if_neg hoff, if_pos hon]⟩)
  · exact .inr (.inr ⟨⟨hoff, hon⟩, by rw [if_neg hoff, if_neg hon]⟩)

/-- What a switch sets is sound if both values are. -/
theorem Sound.switch {s : Session} (h : Sound s.cfg) (word : String) {put : Bool → Cfg}
    (hput : ∀ on, Sound (put on)) : Sound (s.switch word put).2.cfg := by
  rcases switch_cases s word put with ⟨-, heq⟩ | ⟨-, heq⟩ | ⟨-, heq⟩ <;> rw [heq]
  · exact hput false
  · exact hput true
  · exact h

/-- The numbers and back pointers of the channels do not depend on their paths. -/
theorem Sound.setChan {c : Cfg} (h : Sound c) (i : Fin TRX_CHAN_MAX) {chan : TrxChan}
    (htrx : chan.trx = (c.chans i).trx) (hidx : chan.idx = (c.chans i).idx) :
    Sound (c.setChan i chan) :=
  { rtsc_rach := h.rtsc_rach
    norm := h.norm
    access := h.access
    chans_le := h.chans_le
    chans := fun j hj => by
      have hj' := h.chans j hj
      simp only [Cfg.setChan]
      rcases eq_or_ne j i with rfl | hne
      · rwa [Function.update_self, htrx, hidx]
      · rwa [Function.update_of_ne hne] }

/-- Creating the next channel numbers it. -/
theorem Sound.chan {s : Session} (h : Sound s.cfg) (idx : ℕ) : Sound (cfg_chan s idx).2.cfg := by
  unfold cfg_chan
  split_ifs with hmax hnext hnew
  · exact h
  · exact h
  · refine ⟨h.rtsc_rach, h.norm, h.access, ?_, ?_⟩
    · rw [hnew]
      exact not_le.mp hmax
    · intro j hj
      simp only at hj ⊢
      by_cases hji : j.val = idx
      · obtain rfl : j = ⟨idx, not_le.mp hmax⟩ := Fin.ext hji
        rw [Function.update_self]
        exact ⟨rfl, rfl⟩
      · rw [Function.update_of_ne fun hne => hji (congrArg Fin.val hne)]
        exact h.chans j (by omega)
  · exact h

/-- **No command breaks soundness.** -/
theorem Sound.handler {s : Session} (h : Sound s.cfg) (c : Command) :
    Sound (Vty.handler s c).2.cfg := by
  cases c with
  | test_rtsc tsc =>
    simp only [Vty.handler, cfg_test_rtsc]
    by_cases hset : s.cfg.rach_delay_set
    · rwa [if_pos hset]
    · rw [if_neg hset]
      refine ⟨fun hboth => hset hboth.2, fun _ => rfl, ?_, h.chans_le, h.chans⟩
      simp only [Session.set]
      split_ifs
      · exact False.elim
      · exact h.access
  | test_rach_delay delay =>
    simp only [Vty.handler, cfg_test_rach_delay]
    by_cases hset : s.cfg.rtsc_set
    · rwa [if_pos hset]
    rw [if_neg hset]
    by_cases hegprs : s.cfg.egprs
    · rwa [if_pos hegprs]
    · rw [if_neg hegprs]
      refine ⟨fun hboth => hset hboth.1, fun heq => ?_, fun _ => rfl, h.chans_le, h.chans⟩
      exact absurd heq (show FillerType.FILLER_ACCESS_RAND ≠ .FILLER_NORM_RAND by decide)
  | filler_dummy =>
    refine ⟨h.rtsc_rach, fun heq => ?_, fun heq => ?_, h.chans_le, h.chans⟩
    · exact absurd heq (show FillerType.FILLER_DUMMY ≠ .FILLER_NORM_RAND by decide)
    · exact absurd heq (show FillerType.FILLER_DUMMY ≠ .FILLER_ACCESS_RAND by decide)
  | egprs word =>
    refine h.switch word fun on => ?_
    cases on with
    | false => exact ⟨h.rtsc_rach, h.norm, h.access, h.chans_le, h.chans⟩
    | true =>
      refine ⟨h.rtsc_rach, fun heq => ?_, fun heq => ?_, h.chans_le, h.chans⟩
      · exact absurd heq (show FillerType.FILLER_EDGE_RAND ≠ .FILLER_NORM_RAND by decide)
      · exact absurd heq (show FillerType.FILLER_EDGE_RAND ≠ .FILLER_ACCESS_RAND by decide)
  | multi_arfcn word =>
    exact h.switch word fun _ => ⟨h.rtsc_rach, h.norm, h.access, h.chans_le, h.chans⟩
  | swap_channels word =>
    exact h.switch word fun _ => ⟨h.rtsc_rach, h.norm, h.access, h.chans_le, h.chans⟩
  | ext_rach word =>
    simp only [Vty.handler, cfg_ext_rach, Session.set]
    split_ifs <;> exact ⟨h.rtsc_rach, h.norm, h.access, h.chans_le, h.chans⟩
  | chan idx => exact h.chan idx
  | rx_path name =>
    obtain ⟨node, cfg⟩ := s
    cases node with
    | CHAN_NODE i => exact h.setChan i rfl rfl
    | _ => exact h
  | tx_path name =>
    obtain ⟨node, cfg⟩ := s
    cases node with
    | CHAN_NODE i => exact h.setChan i rfl rfl
    | _ => exact h
  | _ => exact ⟨h.rtsc_rach, h.norm, h.access, h.chans_le, h.chans⟩

theorem Sound.step {s : Session} (h : Sound s.cfg) (c : Command) : Sound (step s c).cfg := by
  unfold Vty.step
  rcases execute_cases s c with hex | ⟨node, -, -, hex⟩ <;> rw [hex]
  · exact h
  · exact Sound.handler (s := { s with node := node }) h c

/-- Every configuration that commands can reach is sound. -/
theorem sound_exec (cmds : List Command) : Sound (Run.exec step Session.fresh cmds).cfg :=
  Run.exec_invariant (I := fun s : Session => Sound s.cfg) (fun _ c h => h.step c) sound_alloc cmds

/-! ## What the options promise -/

/-- The configuration makes sense: besides, the test mode for access bursts and EDGE support
exclude each other, and the filler of EDGE support belongs to it. -/
structure Consistent (c : Cfg) : Prop extends Sound c where
  rach_egprs : ¬ (c.rach_delay_set = true ∧ c.egprs = true)
  edge : c.filler = .FILLER_EDGE_RAND → c.egprs = true

/-- The condition on a command: at a node where `egprs` is a command, it is not enabled in the
test mode for access bursts, nor disabled while the filler is that of EDGE support. -/
def Keeps (s : Session) (c : Command) : Prop :=
  s.node ≠ .CONFIG_NODE →
    (c = .egprs "enable" → s.cfg.rach_delay_set = false) ∧
    (c = .egprs "disable" → s.cfg.filler ≠ .FILLER_EDGE_RAND)

instance (s : Session) (c : Command) : Decidable (Keeps s c) :=
  inferInstanceAs (Decidable (_ → _))

/-- A command leaves a consistent configuration, and if it is refused the configuration there
was. -/
def StaysConsistent (s : Session) (c : Command) : Prop :=
  Consistent (step s c).cfg ∧ ((execute s c).1 ≠ .CMD_SUCCESS → (step s c).cfg = s.cfg)

theorem consistent_alloc : Consistent vty_trx_ctx_alloc where
  toSound := sound_alloc
  rach_egprs h := absurd h.1 (by decide)
  edge h := absurd h (by decide)

/-- `egprs` is a command of every node below the configuration node. -/
theorem ascend_trx {node : Node} (h : node ≠ .CONFIG_NODE) :
    node.ascend .trx = some .TRX_NODE := by
  cases node with
  | CONFIG_NODE => exact absurd rfl h
  | TRX_NODE => rfl
  | CHAN_NODE i => rfl

/-- The handlers that touch neither mode nor filler. -/
theorem Consistent.of_modes {c d : Cfg} (h : Consistent c) (hd : Sound d)
    (hrach : d.rach_delay_set = c.rach_delay_set) (hegprs : d.egprs = c.egprs)
    (hfiller : d.filler = c.filler) : Consistent d :=
  ⟨hd, by rw [hrach, hegprs]; exact h.rach_egprs, by rw [hfiller, hegprs]; exact h.edge⟩

/-- A handler keeps the configuration consistent unless it is that of `egprs`. -/
theorem Consistent.handler {s : Session} (h : Consistent s.cfg) {c : Command}
    (hc : ∀ word, c ≠ .egprs word) : Consistent (Vty.handler s c).2.cfg := by
  have hsound := h.toSound.handler c
  cases c with
  | egprs word => exact absurd rfl (hc word)
  | test_rtsc tsc =>
    refine ⟨hsound, ?_, ?_⟩ <;> simp only [Vty.handler, cfg_test_rtsc]
    · split_ifs <;> exact h.rach_egprs
    · by_cases hset : s.cfg.rach_delay_set
      · rw [if_pos hset]
        exact h.edge
      · rw [if_neg hset]
        simp only [Session.set]
        split_ifs
        · exact False.elim
        · exact h.edge
  | test_rach_delay delay =>
    refine ⟨hsound, ?_, ?_⟩ <;> simp only [Vty.handler, cfg_test_rach_delay]
    · split_ifs with hset hegprs
      · exact h.rach_egprs
      · exact h.rach_egprs
      · exact fun hboth => hegprs hboth.2
    · split_ifs with hset hegprs
      · exact h.edge
      · exact h.edge
      · intro heq
        exact absurd heq (show FillerType.FILLER_ACCESS_RAND ≠ .FILLER_EDGE_RAND by decide)
  | filler_dummy =>
    refine ⟨hsound, h.rach_egprs, fun heq => ?_⟩
    exact absurd heq (show FillerType.FILLER_DUMMY ≠ .FILLER_EDGE_RAND by decide)
  | multi_arfcn word =>
    rcases switch_cases s word fun on => { s.cfg with multi_arfcn := on } with
      ⟨-, heq⟩ | ⟨-, heq⟩ | ⟨-, heq⟩ <;>
    exact h.of_modes hsound (by simp only [Vty.handler, cfg_multi_arfcn, heq, Session.set])
      (by simp only [Vty.handler, cfg_multi_arfcn, heq, Session.set])
      (by simp only [Vty.handler, cfg_multi_arfcn, heq, Session.set])
  | swap_channels word =>
    rcases switch_cases s word fun on => { s.cfg with swap_channels := on } with
      ⟨-, heq⟩ | ⟨-, heq⟩ | ⟨-, heq⟩ <;>
    exact h.of_modes hsound (by simp only [Vty.handler, cfg_swap_channels, heq, Session.set])
      (by simp only [Vty.handler, cfg_swap_channels, heq, Session.set])
      (by simp only [Vty.handler, cfg_swap_channels, heq, Session.set])
  | ext_rach word =>
    refine h.of_modes hsound ?_ ?_ ?_ <;>
    simp only [Vty.handler, cfg_ext_rach, Session.set] <;>
    split_ifs <;> rfl
  | chan idx =>
    refine h.of_modes hsound ?_ ?_ ?_ <;>
    simp only [Vty.handler, cfg_chan] <;>
    split_ifs <;> rfl
  | rx_path name =>
    obtain ⟨node, cfg⟩ := s
    cases node <;> exact h.of_modes hsound rfl rfl rfl
  | tx_path name =>
    obtain ⟨node, cfg⟩ := s
    cases node <;> exact h.of_modes hsound rfl rfl rfl
  | _ => exact h.of_modes hsound rfl rfl rfl

/-- **When `egprs` keeps the configuration consistent.** -/
theorem Consistent.egprs_iff {s : Session} (h : Consistent s.cfg) (word : String) :
    Consistent (cfg_egprs s word).2.cfg ↔
      (word = "enable" → s.cfg.rach_delay_set = false) ∧
      (word = "disable" → s.cfg.filler ≠ .FILLER_EDGE_RAND) := by
  have hsound := h.toSound.handler (.egprs word)
  simp only [Vty.handler] at hsound
  unfold cfg_egprs at hsound ⊢
  rcases switch_cases s word fun on => if on then
      { s.cfg with egprs := true, filler := .FILLER_EDGE_RAND } else { s.cfg with egprs := false }
    with ⟨rfl, heq⟩ | ⟨rfl, heq⟩ | ⟨hother, heq⟩
  · rw [heq] at hsound ⊢
    constructor
    · intro hd
      exact ⟨fun hword => absurd hword (by decide), fun _ hfiller =>
        Bool.false_ne_true (hd.edge hfiller)⟩
    · intro hkeep
      exact ⟨hsound, fun hboth => Bool.false_ne_true hboth.2,
        fun hfiller => absurd hfiller (hkeep.2 rfl)⟩
  · rw [heq] at hsound ⊢
    constructor
    · intro hd
      refine ⟨fun _ => ?_, fun hword => absurd hword (by decide)⟩
      exact Bool.eq_false_iff.mpr fun hrach => hd.rach_egprs ⟨hrach, rfl⟩
    · intro hkeep
      exact ⟨hsound, fun hboth => absurd ((hkeep.1 rfl).symm.trans hboth.1) Bool.false_ne_true,
        fun _ => rfl⟩
  · -- any other word is refused
    rw [heq]
    exact iff_of_true h ⟨fun hword => absurd hword hother.2, fun hword => absurd hword hother.1⟩

/-- **One command.** -/
theorem Consistent.step_iff {s : Session} (h : Consistent s.cfg) (c : Command) :
    StaysConsistent s c ↔ Keeps s c := by
  have hrefused : (execute s c).1 ≠ .CMD_SUCCESS → (step s c).cfg = s.cfg := execute_refused
  rw [StaysConsistent, and_iff_left hrefused, step, Keeps]
  by_cases hegprs : ∃ word, c = .egprs word
  · obtain ⟨word, rfl⟩ := hegprs
    by_cases hnode : s.node = .CONFIG_NODE
    · -- at the configuration node there is no such command
      have hascend : s.node.ascend (Command.egprs word).level = none := by rw [hnode]; rfl
      rw [execute_of_ascend_none hascend]
      exact iff_of_true h fun hne => absurd hnode hne
    · simp only [ne_eq, hnode, not_false_eq_true, forall_true_left, Command.egprs.injEq]
      by_cases hword : Switch word
      · rw [execute_of_matches (c := .egprs word) hword (ascend_trx hnode)]
        exact Consistent.egprs_iff (s := { s with node := .TRX_NODE }) h word
      · have hex : execute s (.egprs word) = (.CMD_ERR_NO_MATCH, s) := if_pos hword
        rw [hex]
        exact iff_of_true h ⟨fun heq => absurd (.inr heq) hword, fun heq => absurd (.inl heq) hword⟩
  · have hother : ∀ word, c ≠ .egprs word := fun word heq => hegprs ⟨word, heq⟩
    refine iff_of_true ?_ fun _ => ⟨fun heq => absurd heq (hother _), fun heq =>
      absurd heq (hother _)⟩
    rcases execute_cases s c with hex | ⟨node, -, -, hex⟩ <;> rw [hex]
    · exact h
    · exact Consistent.handler (s := { s with node := node }) h hother

/-- **A run stays consistent exactly if all of its commands meet the condition**: EDGE support is
not enabled in the test mode for access bursts, and not disabled while its filler is in use. -/
theorem consistent_iff (cmds : List Command) :
    Run.Along step StaysConsistent Session.fresh cmds ↔ Run.Along step Keeps Session.fresh cmds :=
  Run.along_iff_of_invariant (I := fun s : Session => Consistent s.cfg) (fun _ _ _ hstay => hstay.1)
    (fun _ c h => h.step_iff c) consistent_alloc cmds

/-- The test mode for access bursts with EDGE support, and the filler of EDGE support without
it. -/
theorem egprs_unchecked :
    ¬ Consistent (Run.exec step Session.fresh
      [.trx, .test_rach_delay 5, .egprs "enable"]).cfg ∧
    ¬ Consistent (Run.exec step Session.fresh
      [.trx, .egprs "enable", .egprs "disable"]).cfg :=
  ⟨fun h => h.rach_egprs (by decide), fun h => absurd (h.edge (by decide)) (by decide)⟩

end Vty
end OsmoTrx
