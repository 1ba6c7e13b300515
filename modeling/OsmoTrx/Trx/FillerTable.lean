import OsmoTrx.Radio.Interface
import OsmoTrx.Trx.SigProcLib
import OsmoTrx.Vty.Options
import OsmoTrx.Vty.Write

/-!
# From the configuration to the filler table

`TransceiverState::init` fills the table with bursts that are generated as the configuration says;
a generator that is given what it does not support returns NULL, which `init` dereferences.

* `generateFiller`, `TransceiverState.initTable` — the code; `initTable_eq_init` — where it succeeds
  it is `TransceiverState.init` with the bursts generated.
* `Fills` — the table is full of bursts that are as long as their slots.
* `fills_iff` — **which configurations fill the table**, of those that are accepted.
* `fillable_commands_iff` — which of those do that the VTY alone can reach.
-/

namespace OsmoTrx
namespace Trx

open Dsp SigProcLib
open Radio (allSome allSome_eq_some allSome_apply)
open Vty (Cfg Setting configuration trx_validate_config)

variable {R : Type} [CommRing R]

/-! ## The code -/

/-- The switch over the filler type; arguments are converted to `int`. -/
def generateFiller (s : SigProcLib R) (rand : ℕ → ℕ) (filler : FillerType) (sps rtsc rach_delay : ℕ)
    (n : Fin 8) : Option (Option (SignalVector R)) :=
  match filler with
  | .FILLER_DUMMY => s.generateDummyBurst sps n
  | .FILLER_NORM_RAND => s.genRandNormalBurst rand (i32 rtsc) sps n
  | .FILLER_EDGE_RAND => s.generateEdgeBurst rand (i32 rtsc)
  | .FILLER_ACCESS_RAND => s.genRandAccessBurst rand (i32 rach_delay) sps n
  | .FILLER_ZERO => generateEmptyBurst sps n

/-- The turn of `init` for a cell: a burst is generated and, if it is not NULL, scaled. -/
def fillCell (s : SigProcLib R) (rand : ℕ → ℕ) (filler : FillerType) (sps : ℕ) (scale : R)
    (rtsc rach_delay : ℕ) (n : Fin 8) : Option (SignalVector R) := do
  let burst ← generateFiller s rand filler sps rtsc rach_delay n
  let burst ← burst
  some (scaleVector burst (scale, 0))

/-- `init`: its result, which is always false, and the state; `rand` are the random numbers drawn
for a cell. -/
def TransceiverState.initTable (t : TransceiverState (SignalVector R)) (s : SigProcLib R)
    (rand : Fin 102 → Fin 8 → ℕ → ℕ) (filler : FillerType) (sps : ℕ) (scale : R)
    (rtsc rach_delay : ℕ) : Option (Bool × TransceiverState (SignalVector R)) :=
  if sps ≠ 1 ∧ sps ≠ 4 then some (false, t)
  else
    (allSome fun n => allSome fun i =>
      fillCell s (rand i n) filler sps scale rtsc rach_delay n).map fun bursts =>
        (false,
          { t with
            fillerTable := fun i n => some (bursts n i)
            chanType := if filler = .FILLER_NORM_RAND ∨ filler = .FILLER_EDGE_RAND then
              fun _ => ChannelCombination.I.code else t.chanType })

/-- Where no burst is NULL, `init` is the `init` that is given its bursts. -/
theorem initTable_eq_init {t : TransceiverState (SignalVector R)} {s : SigProcLib R}
    {rand : Fin 102 → Fin 8 → ℕ → ℕ} {filler : FillerType} {sps : ℕ} {scale : R}
    {rtsc rach_delay : ℕ} {bursts : Fin 102 → Fin 8 → SignalVector R}
    (h : ∀ i n, fillCell s (rand i n) filler sps scale rtsc rach_delay n = some (bursts i n)) :
    t.initTable s rand filler sps scale rtsc rach_delay =
      some (false, t.init (fun _ => bursts) filler sps) := by
  have hall : (allSome fun n => allSome fun i =>
      fillCell s (rand i n) filler sps scale rtsc rach_delay n) =
      some fun n i => bursts i n :=
    allSome_eq_some fun n => allSome_eq_some fun i => h i n
  unfold TransceiverState.initTable TransceiverState.init
  rw [hall]
  split_ifs <;> rfl

/-! ## Filling the table -/

/-- Every cell of the table holds a burst of the length of its slot. -/
def FullTable (t : TransceiverState (SignalVector R)) (sps : ℕ) : Prop :=
  ∀ i n, ∃ v, t.fillerTable i n = some v ∧ v.size = slotLen sps (n.val : ℤ)

/-- `init` with a configuration fills the table, and dereferences no null burst on the way. -/
def Fills (s : SigProcLib R) (rand : Fin 102 → Fin 8 → ℕ → ℕ) (scale : R) (cfg : Cfg) : Prop :=
  ∃ ok t, TransceiverState.new.initTable s rand cfg.filler cfg.tx_sps scale cfg.rtsc
    cfg.rach_delay = some (ok, t) ∧ FullTable t cfg.tx_sps

/-- What the generator of a filler supports: a training sequence that exists, 4 samples a symbol
for EDGE bursts, and a delay that leaves the access burst, with its padding at 4 samples a symbol,
inside its slot. -/
def Supported (filler : FillerType) (sps rtsc rach_delay : ℕ) : Prop :=
  match filler with
  | .FILLER_DUMMY | .FILLER_ZERO => True
  | .FILLER_NORM_RAND => 0 ≤ i32 rtsc ∧ i32 rtsc ≤ 7
  | .FILLER_EDGE_RAND => (0 ≤ i32 rtsc ∧ i32 rtsc ≤ 7) ∧ sps = 4
  | .FILLER_ACCESS_RAND =>
    -88 ≤ i32 rach_delay ∧ i32 rach_delay ≤ 68 ∧
      (sps = 4 → -86 ≤ i32 rach_delay ∧ i32 rach_delay ≤ 67)

/-- The number of samples a symbol is one or four, which is known already with EDGE support or
several carriers, and the filler is supported. -/
def Fillable (cfg : Cfg) : Prop :=
  (cfg.egprs = true ∨ cfg.multi_arfcn = true ∨ cfg.tx_sps = 1 ∨ cfg.tx_sps = 4) ∧
    Supported cfg.filler cfg.tx_sps cfg.rtsc cfg.rach_delay

instance (filler : FillerType) (sps rtsc rach_delay : ℕ) :
    Decidable (Supported filler sps rtsc rach_delay) := by
  unfold Supported
  cases filler <;> infer_instance

instance (cfg : Cfg) : Decidable (Fillable cfg) := inferInstanceAs (Decidable (_ ∧ _))

theorem fillCell_eq_some_iff {s : SigProcLib R} {rand : ℕ → ℕ} {filler : FillerType} {sps : ℕ}
    {scale : R} {rtsc rach_delay : ℕ} {n : Fin 8} {v : SignalVector R} :
    fillCell s rand filler sps scale rtsc rach_delay n = some v ↔
      ∃ burst, generateFiller s rand filler sps rtsc rach_delay n = some (some burst) ∧
        v = scaleVector burst (scale, 0) := by
  unfold fillCell
  rcases generateFiller s rand filler sps rtsc rach_delay n with _ | _ | burst <;>
    simp [eq_comm]

/-- The table is full if every generator makes a burst of the length of the slot. -/
theorem fills_iff_makes (s : SigProcLib R) (rand : Fin 102 → Fin 8 → ℕ → ℕ) (scale : R)
    (cfg : Cfg) :
    Fills s rand scale cfg ↔ (cfg.tx_sps = 1 ∨ cfg.tx_sps = 4) ∧ ∀ i n,
      Makes (generateFiller s (rand i n) cfg.filler cfg.tx_sps cfg.rtsc cfg.rach_delay n)
        (slotLen cfg.tx_sps (n.val : ℤ)) := by
  constructor
  · rintro ⟨ok, t, hinit, hfull⟩
    unfold TransceiverState.initTable at hinit
    by_cases hsps : cfg.tx_sps ≠ 1 ∧ cfg.tx_sps ≠ 4
    · -- the table of a new state is empty
      rw [if_pos hsps] at hinit
      cases hinit
      obtain ⟨v, hv, -⟩ := hfull 0 0
      cases hv
    · rw [if_neg hsps] at hinit
      obtain ⟨bursts, hbursts, heq⟩ := Option.map_eq_some_iff.mp hinit
      cases heq
      refine ⟨by omega, fun i n => ?_⟩
      obtain ⟨burst, hburst, hscaled⟩ :=
        fillCell_eq_some_iff.mp (allSome_apply (allSome_apply hbursts n) i)
      obtain ⟨v, hv, hsize⟩ := hfull i n
      obtain rfl := Option.some.inj hv
      rw [hscaled, scaleVector_size] at hsize
      exact ⟨burst, hburst, hsize⟩
  · rintro ⟨hsps, hmakes⟩
    choose bursts hbursts hsize using hmakes
    refine ⟨_, _, initTable_eq_init fun i n =>
      fillCell_eq_some_iff.mpr ⟨bursts i n, hbursts i n, rfl⟩, fun i n => ?_⟩
    rw [TransceiverState.init, if_neg (by omega)]
    exact ⟨_, rfl, hsize i n⟩

variable (f : FloatValues R) (cpu : ConvolveCpuContext R)

/-- **Each generator** fills a slot exactly if it supports its arguments. -/
theorem generateFiller_makes_iff (rand : ℕ → ℕ) (filler : FillerType) {sps : ℕ}
    (hsps : sps = 1 ∨ sps = 4) (rtsc rach_delay : ℕ) (n : Fin 8) :
    Makes (generateFiller (sigProcLibSetup f cpu) rand filler sps rtsc rach_delay n)
      (slotLen sps (n.val : ℤ)) ↔ Supported filler sps rtsc rach_delay := by
  have hn : 0 ≤ (n.val : ℤ) ∧ (n.val : ℤ) ≤ 7 := by omega
  cases filler with
  | FILLER_DUMMY => exact iff_of_true (generateDummyBurst_makes f cpu hsps hn) trivial
  | FILLER_ZERO => exact iff_of_true (generateEmptyBurst_makes hsps hn) trivial
  | FILLER_NORM_RAND => exact genRandNormalBurst_iff f cpu rand hsps hn _
  | FILLER_EDGE_RAND => exact generateEdgeBurst_iff f cpu rand hsps _
  | FILLER_ACCESS_RAND => exact genRandAccessBurst_iff f cpu rand hsps hn _

/-- The same for the table, whatever the configuration. -/
theorem fills_iff_supported (rand : Fin 102 → Fin 8 → ℕ → ℕ) (scale : R) (cfg : Cfg) :
    Fills (sigProcLibSetup f cpu) rand scale cfg ↔ (cfg.tx_sps = 1 ∨ cfg.tx_sps = 4) ∧
      Supported cfg.filler cfg.tx_sps cfg.rtsc cfg.rach_delay := by
  rw [fills_iff_makes]
  refine and_congr_right fun hsps => ⟨fun h => ?_, fun h i n => ?_⟩
  · exact (generateFiller_makes_iff f cpu (rand 0 0) cfg.filler hsps _ _ 0).mp (h 0 0)
  · exact (generateFiller_makes_iff f cpu (rand i n) cfg.filler hsps _ _ n).mpr h

/-- **Which configurations fill the table.**  Of those that commands and options can reach in any
order and that are accepted, exactly the fillable ones. -/
theorem fills_iff (rand : Fin 102 → Fin 8 → ℕ → ℕ) (scale : R) (settings : List Setting)
    (h : trx_validate_config (configuration settings) = 0) :
    Fills (sigProcLibSetup f cpu) rand scale (configuration settings) ↔
      Fillable (configuration settings) := by
  rw [fills_iff_supported, Fillable]
  refine and_congr_left fun _ => ⟨fun hsps => .inr (.inr hsps), ?_⟩
  rintro (hegprs | hmulti | hsps)
  · exact .inr (Vty.tx_sps_of_valid h (.inl hegprs))
  · exact .inr (Vty.tx_sps_of_valid h (.inr hmulti))
  · exact hsps

/-- The commands of the VTY keep their arguments in range: what is left is the EDGE filler without
EDGE support, and the longest delay. -/
theorem fillable_commands_iff (cmds : List Vty.Command) :
    let cfg := (Run.exec Vty.step Vty.Session.fresh cmds).cfg
    Fillable cfg ↔ (cfg.filler = .FILLER_EDGE_RAND → cfg.tx_sps = 4) ∧
      (cfg.filler = .FILLER_ACCESS_RAND → cfg.tx_sps = 4 → cfg.rach_delay ≤ 67) := by
  intro cfg
  have h : Vty.Writable cfg := Vty.writable_exec cmds
  have hrtsc : cfg.rtsc ≤ 7 := by
    have := h.rtsc
    split_ifs at this <;> omega
  have hdelay : cfg.rach_delay ≤ 68 := by
    have := h.rach_delay
    split_ifs at this <;> omega
  have hrtsc' : i32 cfg.rtsc = cfg.rtsc := i32_eq_self (by omega) (by omega)
  have hdelay' : i32 cfg.rach_delay = cfg.rach_delay := i32_eq_self (by omega) (by omega)
  rw [Fillable, and_iff_right (.inr (.inr h.tx_sps))]
  unfold Supported
  cases hfiller : cfg.filler with
  | FILLER_DUMMY | FILLER_ZERO => simp
  | FILLER_NORM_RAND =>
    simp only [hrtsc', reduceCtorEq, false_implies, and_true, iff_true]
    omega
  | FILLER_EDGE_RAND =>
    simp only [hrtsc', reduceCtorEq, false_implies, and_true, forall_const]
    omega
  | FILLER_ACCESS_RAND =>
    simp only [hdelay', reduceCtorEq, false_implies, true_and, forall_const]
    omega

/-- Random bursts with the last training sequence, at one sample a symbol. -/
def lastTsc : List Setting :=
  [.command .trx, .command (.tx_sps 1), .option (.r 7)]

theorem fills_iff_lastTsc :
    Fills (sigProcLibSetup noValues (convolveInit true)) (fun _ _ _ => 0) 1
      (configuration lastTsc) :=
  (fills_iff noValues (convolveInit true) (fun _ _ _ => 0) 1 lastTsc rfl).mpr (by decide)

/-- A training sequence that does not exist. -/
def badTsc : List Setting := [.option (.r 9)]

/-- The EDGE filler is left when EDGE support is disabled. -/
def leftEdge : List Setting :=
  [.command .trx, .command (.egprs "enable"), .command (.egprs "disable"), .command (.tx_sps 1)]

/-- The longest delay, at 4 samples a symbol. -/
def longestDelay : List Setting := [.command .trx, .command (.test_rach_delay 68)]

/-- Accepted configurations that do not fill the table. -/
theorem accepted_unfilled :
    (trx_validate_config (configuration badTsc) = 0 ∧
      ¬ Fills (sigProcLibSetup noValues (convolveInit true)) (fun _ _ _ => 0) 1
        (configuration badTsc)) ∧
    (trx_validate_config (configuration leftEdge) = 0 ∧
      ¬ Fills (sigProcLibSetup noValues (convolveInit true)) (fun _ _ _ => 0) 1
        (configuration leftEdge)) ∧
    (trx_validate_config (configuration longestDelay) = 0 ∧
      ¬ Fills (sigProcLibSetup noValues (convolveInit true)) (fun _ _ _ => 0) 1
        (configuration longestDelay)) := by
  simp only [fills_iff_supported]
  exact ⟨⟨rfl, by decide⟩, ⟨rfl, by decide⟩, ⟨rfl, by decide⟩⟩

end Trx
end OsmoTrx
