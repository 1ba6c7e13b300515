import OsmoTrx.Lib.Orbit
import OsmoTrx.Lib.Run
import OsmoTrx.Lib.ShiftRegister

/-!
# Pseudo-random bit sequences

The generator of `PRBS.h`, a receiver that follows it, and the loop of `PRBSTest.cpp` that runs it
until it is back in its first state.

* `processBit_eq`, `generateBit_eq` — the two operations are those of a Galois shift register.
* `setState_lt` — a state that is set fits into the register.
* `exec_process_eq_iff` — a receiver that has taken in `k` bits is in the state of the transmitter
  if and only if the two states agreed above their lowest `k` bits.
* `synchronises` — **a receiver follows** a transmitter once it has taken in as many bits as the
  registers have.
* `untilFinished_eq`, `untilFinished_eq_none` — the loop ends after the period of the first state,
  or never; `testPrbs_eq` — the test compares that period with the one it expects.
* `generation_ends` — **the loop does end** if the top coefficient is set; `not_finished` — without
  it, it does not end from a state with the top bit set.
-/

namespace OsmoTrx
namespace CommonLibs

open ShiftRegister

/-- `class PRBS`. -/
structure PRBS where
  mCoeff : BitVec 64
  mStartState : BitVec 64
  mState : BitVec 64
  mLen : ℕ
  deriving DecidableEq, Repr

namespace PRBS

/-! ## The generator -/

/-- The constructor; `none` if its assertion fails. -/
def new (wLen : ℕ) (wCoeff : BitVec 64) (wState : BitVec 64 := 0x01) : Option PRBS :=
  if wLen ≤ 64 then some ⟨wCoeff, wState, wState, wLen⟩ else none

def PRBS9 (wState : BitVec 64 := 0x01) : Option PRBS := new 9 0x0110 wState

def PRBS15 (wState : BitVec 64 := 0x01) : Option PRBS := new 15 0x6000 wState

def PRBS64 (wState : BitVec 64 := 0x01) : Option PRBS := new 64 0xD800000000000000 wState

/-- Update the generator state by one bit. -/
def processBit (p : PRBS) (inBit : BitVec 32) : PRBS :=
  let mState := p.mState >>> 1
  { p with mState := if inBit ≠ 0 then mState ^^^ p.mCoeff else mState }

/-- Calculate one bit of a PRBS. -/
def generateBit (p : PRBS) : BitVec 32 × PRBS :=
  let result := (p.mState &&& 0x01).setWidth 32
  (result, p.processBit result)

def isFinished (p : PRBS) : Bool := p.mStartState == p.mState

/-- The mask of the state.  Unless the register has 64 bits it is computed as an `int`; `none` if
that overflows. -/
def mask (p : PRBS) : Option (BitVec 64) :=
  if p.mLen = 64 then some 0xFFFFFFFFFFFFFFFF
  else if p.mLen < 31 then some (BitVec.ofNat 64 (2 ^ p.mLen - 1))
  else none

/-- `state(state)`. -/
def setState (p : PRBS) (state : BitVec 64) : Option PRBS :=
  p.mask.map fun mask => { p with mState := state &&& mask }

variable {p tx rx : PRBS} {n : ℕ} {wCoeff wState : BitVec 64}

theorem processBit_eq (p : PRBS) (inBit : BitVec 32) :
    p.processBit inBit = { p with mState := step p.mCoeff (decide (inBit ≠ 0)) p.mState } := by
  simp only [processBit, step, decide_eq_true_eq]
  split_ifs with hbit
  · rfl
  · have hzero : p.mState >>> 1 ^^^ (0 : BitVec 64) = p.mState >>> 1 := BitVec.xor_zero
    rw [hzero]

/-- The bit that is generated is the low bit of the state. -/
theorem generateBit_fst_ne_zero (p : PRBS) :
    decide (p.generateBit.1 ≠ 0) = p.mState.getLsbD 0 := by
  have hlow : p.mState &&& 0x01 = BitVec.setWidth 64 (BitVec.ofBool (p.mState.getLsbD 0)) :=
    BitVec.and_one_eq_setWidth_ofBool_getLsbD
  have hbit : p.generateBit.1 = (p.mState &&& 0x01).setWidth 32 := rfl
  rw [hbit, hlow]
  cases p.mState.getLsbD 0 <;> decide

theorem generateBit_snd (p : PRBS) : p.generateBit.2 = p.processBit p.generateBit.1 := rfl

theorem generateBit_eq (p : PRBS) :
    p.generateBit.2 = { p with mState := update p.mCoeff p.mState } := by
  rw [generateBit_snd, processBit_eq, generateBit_fst_ne_zero, update]

/-- A state that is set has no more bits than the register. -/
theorem setState_lt {p' : PRBS} {state : BitVec 64} (h : p.setState state = some p') :
    p'.mState.toNat < 2 ^ p.mLen := by
  simp only [setState, mask] at h
  split_ifs at h with h64 h31
  · rw [h64]
    exact p'.mState.isLt
  · obtain rfl := Option.some.inj h
    have hfits : 2 ^ p.mLen - 1 < 2 ^ p.mLen := Nat.sub_lt (by positivity) Nat.one_pos
    rw [BitVec.toNat_and, BitVec.toNat_ofNat]
    calc state.toNat &&& (2 ^ p.mLen - 1) % 2 ^ 64
        ≤ (2 ^ p.mLen - 1) % 2 ^ 64 := Nat.and_le_right
      _ ≤ 2 ^ p.mLen - 1 := Nat.mod_le _ _
      _ < 2 ^ p.mLen := hfits
  · simp at h

/-! ## Following a transmitter -/

/-- A transmitter and a receiver. -/
structure Link where
  tx : PRBS
  rx : PRBS

/-- What the receiver does when the transmitter has generated a bit: it takes the bit in, or
generates its own. -/
inductive Turn
  | process
  | generate

def Link.step (link : Link) : Turn → Link
  | .process =>
    let (bit, tx) := link.tx.generateBit
    ⟨tx, link.rx.processBit bit⟩
  | .generate => ⟨link.tx.generateBit.2, link.rx.generateBit.2⟩

/-- While the receiver takes bits in, both registers take the same bits. -/
theorem exec_process (k : ℕ) (tx rx : PRBS) :
    ∃ bits : List Bool, bits.length = k ∧
      Run.exec Link.step ⟨tx, rx⟩ (List.replicate k .process) =
        ⟨{ tx with mState := steps tx.mCoeff bits tx.mState },
          { rx with mState := steps rx.mCoeff bits rx.mState }⟩ := by
  induction k generalizing tx rx with
  | zero => exact ⟨[], rfl, rfl⟩
  | succ k ih =>
    obtain ⟨bits, hlen, hrun⟩ := ih tx.generateBit.2 (rx.processBit tx.generateBit.1)
    refine ⟨decide (tx.generateBit.1 ≠ 0) :: bits, by rw [List.length_cons, hlen], ?_⟩
    have hturn : Link.step ⟨tx, rx⟩ .process =
        ⟨tx.generateBit.2, rx.processBit tx.generateBit.1⟩ := rfl
    rw [List.replicate_succ, Run.exec_cons, hturn, hrun, generateBit_snd]
    simp only [processBit_eq, steps_cons]

/-- **The receiver has the state of the transmitter** after `k` bits if and only if the states
agreed above their lowest `k` bits. -/
theorem exec_process_eq_iff (hcoeff : rx.mCoeff = tx.mCoeff) (k : ℕ) :
    (Run.exec Link.step ⟨tx, rx⟩ (List.replicate k .process)).rx.mState =
        (Run.exec Link.step ⟨tx, rx⟩ (List.replicate k .process)).tx.mState ↔
      rx.mState >>> k = tx.mState >>> k := by
  obtain ⟨bits, rfl, hrun⟩ := exec_process k tx rx
  rw [hrun]
  simp only [hcoeff]
  exact steps_eq_iff bits

/-- The registers agree. -/
structure Synced (link : Link) : Prop where
  coeff : link.rx.mCoeff = link.tx.mCoeff
  state : link.rx.mState = link.tx.mState

theorem Synced.bit {link : Link} (h : Synced link) :
    link.rx.generateBit.1 = link.tx.generateBit.1 := by
  simp only [generateBit, h.state]

/-- Whatever the receiver does, they agree afterwards. -/
theorem Synced.step {link : Link} (h : Synced link) (turn : Turn) : Synced (link.step turn) := by
  cases turn with
  | process =>
    have hrx : (link.step .process).rx = link.rx.processBit link.tx.generateBit.1 := rfl
    have htx : (link.step .process).tx = link.tx.processBit link.tx.generateBit.1 := rfl
    constructor
    · rw [hrx, htx, processBit_eq, processBit_eq]
      exact h.coeff
    · rw [hrx, htx, processBit_eq, processBit_eq, h.coeff, h.state]
  | generate =>
    have hrx : (link.step .generate).rx = link.rx.generateBit.2 := rfl
    have htx : (link.step .generate).tx = link.tx.generateBit.2 := rfl
    constructor
    · rw [hrx, htx, generateBit_eq, generateBit_eq]
      exact h.coeff
    · rw [hrx, htx, generateBit_eq, generateBit_eq, h.coeff, h.state]

theorem exec_coeff (link : Link) (turns : List Turn) :
    (Run.exec Link.step link turns).rx.mCoeff = link.rx.mCoeff ∧
      (Run.exec Link.step link turns).tx.mCoeff = link.tx.mCoeff := by
  induction turns generalizing link with
  | nil => exact ⟨rfl, rfl⟩
  | cons turn turns ih =>
    rw [Run.exec_cons, (ih _).1, (ih _).2]
    cases turn <;> exact ⟨rfl, rfl⟩

/-- **A receiver follows a transmitter** of the same coefficients, whatever their states of `n` bits
are, once it has taken in `n` bits: from then on both states are the same and the next bit of
either is the next bit of the other, whether the receiver takes in further bits or not. -/
theorem synchronises (hcoeff : rx.mCoeff = tx.mCoeff) (htx : tx.mState.toNat < 2 ^ n)
    (hrx : rx.mState.toNat < 2 ^ n) (turns : List Turn) :
    let link := Run.exec Link.step ⟨tx, rx⟩ (List.replicate n .process ++ turns)
    link.rx.mState = link.tx.mState ∧ link.rx.generateBit.1 = link.tx.generateBit.1 := by
  have hagree : rx.mState >>> n = tx.mState >>> n := by
    rw [ushiftRight_eq_zero htx, ushiftRight_eq_zero hrx]
  have hsynced : Synced (Run.exec Link.step ⟨tx, rx⟩ (List.replicate n .process)) := by
    obtain ⟨hrxc, htxc⟩ := exec_coeff ⟨tx, rx⟩ (List.replicate n .process)
    exact ⟨hrxc.trans (hcoeff.trans htxc.symm), (exec_process_eq_iff hcoeff n).mpr hagree⟩
  have hlater := Run.exec_invariant (I := Synced) (fun _ turn h => h.step turn) hsynced turns
  rw [Run.exec_append]
  exact ⟨hlater.state, hlater.bit⟩

theorem synchronises_PRBS9 :
    let link := Run.exec Link.step ⟨⟨0x0110, 1, 1, 9⟩, ⟨0x0110, 1, 0x1FF, 9⟩⟩
      (List.replicate 9 .process ++ [.generate, .process])
    link.rx.mState = link.tx.mState ∧ link.rx.generateBit.1 = link.tx.generateBit.1 :=
  synchronises (n := 9) rfl (by decide) (by decide) [.generate, .process]

/-! ## Running until the first state -/

/-- What `testPrbs` has printed, and its counter. -/
structure Generation where
  prbs : PRBS
  printed : List (BitVec 32)
  period : BitVec 64
  deriving DecidableEq, Repr

/-- The body of the loop. -/
def Generation.turn (g : Generation) : Generation :=
  let (bit, prbs) := g.prbs.generateBit
  ⟨prbs, g.printed ++ [bit], g.period + 1⟩

/-- The loop of `testPrbs`, for `fuel` turns at most. -/
def untilFinished (fuel : ℕ) (prbs : PRBS) : Option Generation :=
  Orbit.doUntil Generation.turn (fun g => g.prbs.isFinished) fuel ⟨prbs, [], 0⟩

/-- `testPrbs`: whether its assertion holds; `none` if `fuel` turns do not suffice. -/
def testPrbs (fuel : ℕ) (prbs : PRBS) (expectedPeriod : BitVec 64) : Option Bool :=
  (untilFinished fuel prbs).map fun g => decide (g.period = expectedPeriod)

/-- The coefficients of a register of `n` bits that are fit for generating: they lie in the
register, and the top one is set. -/
structure Feedback (n : ℕ) (wCoeff : BitVec 64) : Prop where
  pos : 1 ≤ n
  le : n ≤ 64
  lt : wCoeff.toNat < 2 ^ n
  top : wCoeff.getLsbD (n - 1) = true

/-- Those of the header are. -/
theorem feedback_standard :
    Feedback 9 0x0110 ∧ Feedback 15 0x6000 ∧ Feedback 64 0xD800000000000000 := by
  refine ⟨?_, ?_, ?_⟩ <;> constructor <;> decide

/-- After `j` turns. -/
theorem iterate_turn (p : PRBS) (j : ℕ) :
    ∃ printed : List (BitVec 32), printed.length = j ∧
      Generation.turn^[j] ⟨p, [], 0⟩ =
        ⟨{ p with mState := (update p.mCoeff)^[j] p.mState }, printed, BitVec.ofNat 64 j⟩ := by
  induction j with
  | zero => exact ⟨[], rfl, rfl⟩
  | succ j ih =>
    obtain ⟨printed, hlen, hrun⟩ := ih
    rw [Function.iterate_succ_apply', hrun, Function.iterate_succ_apply']
    set q : PRBS := { p with mState := (update p.mCoeff)^[j] p.mState } with hq
    have hturn : Generation.turn ⟨q, printed, BitVec.ofNat 64 j⟩ =
        ⟨q.generateBit.2, printed ++ [q.generateBit.1], BitVec.ofNat 64 j + 1⟩ := rfl
    refine ⟨printed ++ [q.generateBit.1], by rw [List.length_append, hlen]; rfl, ?_⟩
    rw [hturn, generateBit_eq, BitVec.ofNat_add]
    rfl

/-- The loop waits for the state to come back. -/
theorem isFinished_iterate (hstart : p.mStartState = p.mState) (j : ℕ) :
    (Generation.turn^[j] ⟨p, [], 0⟩).prbs.isFinished = true ↔
      (update p.mCoeff)^[j] p.mState = p.mState := by
  obtain ⟨printed, -, hrun⟩ := iterate_turn p j
  rw [hrun, isFinished, beq_iff_eq, hstart]
  exact eq_comm

/-- **The loop ends** after the period of the first state. -/
theorem untilFinished_eq {fuel : ℕ} (hstart : p.mStartState = p.mState)
    (hpos : 0 < Function.minimalPeriod (update p.mCoeff) p.mState)
    (hfuel : Function.minimalPeriod (update p.mCoeff) p.mState ≤ fuel) :
    ∃ printed : List (BitVec 32),
      printed.length = Function.minimalPeriod (update p.mCoeff) p.mState ∧
        untilFinished fuel p = some ⟨p, printed,
          BitVec.ofNat 64 (Function.minimalPeriod (update p.mCoeff) p.mState)⟩ := by
  obtain ⟨printed, hlen, hrun⟩ :=
    iterate_turn p (Function.minimalPeriod (update p.mCoeff) p.mState)
  refine ⟨printed, hlen, ?_⟩
  rw [untilFinished, Orbit.doUntil_return (isFinished_iterate hstart) hpos hfuel, hrun,
    Function.iterate_minimalPeriod]

/-- **It never ends** if that state does not come back. -/
theorem untilFinished_eq_none (hstart : p.mStartState = p.mState)
    (hback : p.mState ∉ Function.periodicPts (update p.mCoeff)) (fuel : ℕ) :
    untilFinished fuel p = none :=
  Orbit.doUntil_no_return (isFinished_iterate hstart) hback fuel

theorem new_eq (hn : n ≤ 64) (wCoeff wState : BitVec 64) :
    new n wCoeff wState = some ⟨wCoeff, wState, wState, n⟩ := if_pos hn

/-- **`testPrbs` compares** the period of the first state with the one it expects. -/
theorem testPrbs_eq (hfb : Feedback n wCoeff) (hstate : wState.toNat < 2 ^ n) {fuel : ℕ}
    (hfuel : 2 ^ n - 1 ≤ fuel) (expectedPeriod : BitVec 64) :
    testPrbs fuel ⟨wCoeff, wState, wState, n⟩ expectedPeriod =
      some (decide (BitVec.ofNat 64 (Function.minimalPeriod (update wCoeff) wState) =
        expectedPeriod)) := by
  have hpos := period_pos hfb.pos hfb.lt hfb.top hstate
  have hle := period_le hfb.pos hfb.lt hfb.top hstate
  obtain ⟨printed, -, hrun⟩ :=
    untilFinished_eq (p := ⟨wCoeff, wState, wState, n⟩) rfl hpos (hle.trans hfuel)
  rw [testPrbs, hrun]
  rfl

/-- The first run of `PRBSTest.cpp`. -/
example : ((PRBS9 0x01).bind fun prbs => testPrbs 511 prbs 511) = some true := by decide +kernel

/-- **Generating until the first state ends.**  With coefficients whose top one is set, the update
is a permutation of the states, and the generator is back after at most `2 ^ n - 1` bits. -/
theorem generation_ends (hfb : Feedback n wCoeff) (hstate : wState.toNat < 2 ^ n) :
    Set.BijOn (fun mState => (generateBit ⟨wCoeff, wState, mState, n⟩).2.mState)
        {s | s.toNat < 2 ^ n} {s | s.toNat < 2 ^ n} ∧
      ∃ prbs k, new n wCoeff wState = some prbs ∧ 0 < k ∧ k ≤ 2 ^ n - 1 ∧ (wState = 0 → k = 1) ∧
        ∀ fuel, k ≤ fuel → ∃ g, untilFinished fuel prbs = some g ∧ g.prbs = prbs ∧
          g.printed.length = k ∧ g.period.toNat = k := by
  have hpos := period_pos hfb.pos hfb.lt hfb.top hstate
  have hle := period_le hfb.pos hfb.lt hfb.top hstate
  constructor
  · simp only [generateBit_eq]
    exact (bijOn_update_iff hfb.pos hfb.le hfb.lt).mpr hfb.top
  · refine ⟨⟨wCoeff, wState, wState, n⟩, Function.minimalPeriod (update wCoeff) wState,
      new_eq hfb.le wCoeff wState, hpos, hle, ?_, ?_⟩
    · rintro rfl
      exact period_zero wCoeff
    · intro fuel hfuel
      obtain ⟨printed, hlen, hrun⟩ :=
        untilFinished_eq (p := ⟨wCoeff, wState, wState, n⟩) rfl hpos hfuel
      refine ⟨_, hrun, rfl, hlen, ?_⟩
      -- the counter has 64 bits, and the period is below `2 ^ 64`
      have hpow : 2 ^ n ≤ 2 ^ 64 := Nat.pow_le_pow_right (by norm_num) hfb.le
      have hlt : Function.minimalPeriod (update wCoeff) wState < 2 ^ 64 := by omega
      rw [BitVec.toNat_ofNat]
      exact Nat.mod_eq_of_lt hlt

theorem generation_ends_PRBS9 :
    Set.BijOn (fun mState => (generateBit ⟨0x0110, 0x01, mState, 9⟩).2.mState)
        {s | s.toNat < 2 ^ 9} {s | s.toNat < 2 ^ 9} ∧
      ∃ prbs k, new 9 0x0110 0x01 = some prbs ∧ 0 < k ∧ k ≤ 2 ^ 9 - 1 ∧
        ((0x01 : BitVec 64) = 0 → k = 1) ∧
        ∀ fuel, k ≤ fuel → ∃ g, untilFinished fuel prbs = some g ∧ g.prbs = prbs ∧
          g.printed.length = k ∧ g.period.toNat = k :=
  generation_ends feedback_standard.1 (by decide)

/-- Without the top coefficient it does not end, from a state with the top bit set. -/
theorem not_finished (hn : 1 ≤ n) (hcoeff : wCoeff.toNat < 2 ^ n)
    (htop : wCoeff.getLsbD (n - 1) = false) (hstate : wState.toNat < 2 ^ n)
    (hset : wState.getLsbD (n - 1) = true) (fuel : ℕ) :
    untilFinished fuel ⟨wCoeff, wState, wState, n⟩ = none :=
  untilFinished_eq_none rfl (notMem_periodicPts hn hcoeff htop hstate hset) fuel

end PRBS
end CommonLibs
end OsmoTrx
