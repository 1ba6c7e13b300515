import Mathlib.Data.BitVec
import OsmoTrx.Lib.Orbit

/-!
# Galois shift registers

A register of at most `w` bits that shifts towards its low end, and adds its coefficients modulo 2
whenever the bit that comes in is set.

* `steps_xor_steps` — the difference of two registers that take the same bits **just shifts out**:
  the feedback alters many bits, but the same ones in both.
* `steps_eq_iff` — so they agree as soon as, and only when, the difference is gone.
* `update` — the register on its own, where the bit that comes in is the one that is shifted out.
* `update_lt`, `getLsbD_update_top` — it keeps to its `n` bits, and its top bit tells which bit was
  shifted out.
* `bijOn_update_iff` — **it is a permutation** of its states if and only if the top coefficient is
  set.
* `period_pos`, `period_le` — then **each state comes back**, after at most `2 ^ n - 1` bits.
* `notMem_periodicPts` — otherwise a state with the top bit set never does.
-/

namespace OsmoTrx
namespace ShiftRegister

variable {w : ℕ} {c s r : BitVec w} {n : ℕ}

/-! ## Registers that take the same bits -/

/-- One bit comes in. -/
def step (c : BitVec w) (b : Bool) (s : BitVec w) : BitVec w :=
  (s >>> 1) ^^^ (if b then c else 0)

/-- Several bits, one after the other. -/
def steps (c : BitVec w) (bits : List Bool) (s : BitVec w) : BitVec w :=
  bits.foldl (fun s b => step c b s) s

@[simp] theorem steps_nil (c s : BitVec w) : steps c [] s = s := rfl

@[simp] theorem steps_cons (c s : BitVec w) (b : Bool) (bits : List Bool) :
    steps c (b :: bits) s = steps c bits (step c b s) := rfl

/-- The coefficients cancel. -/
theorem step_xor_step (c s r : BitVec w) (b : Bool) :
    step c b s ^^^ step c b r = (s ^^^ r) >>> 1 := by
  have hcancel (x y z : BitVec w) : (x ^^^ z) ^^^ (y ^^^ z) = x ^^^ y := by
    rw [BitVec.xor_comm y z, ← BitVec.xor_assoc, BitVec.xor_assoc x z z, BitVec.xor_self,
      BitVec.xor_zero]
  rw [step, step, hcancel, BitVec.ushiftRight_xor_distrib]

/-- **The difference shifts out.** -/
theorem steps_xor_steps (c : BitVec w) (bits : List Bool) (s r : BitVec w) :
    steps c bits s ^^^ steps c bits r = (s ^^^ r) >>> bits.length := by
  induction bits generalizing s r with
  | nil => simp
  | cons b bits ih =>
    rw [steps_cons, steps_cons, ih, step_xor_step, ← BitVec.shiftRight_add, List.length_cons,
      Nat.add_comm]

/-- Two registers agree after some bits if and only if they agree above as many. -/
theorem steps_eq_iff (bits : List Bool) :
    steps c bits s = steps c bits r ↔ s >>> bits.length = r >>> bits.length := by
  rw [← BitVec.xor_eq_zero_iff, steps_xor_steps, BitVec.ushiftRight_xor_distrib,
    BitVec.xor_eq_zero_iff]

theorem ushiftRight_eq_zero (hs : s.toNat < 2 ^ n) : s >>> n = 0 := by
  apply BitVec.eq_of_toNat_eq
  rw [BitVec.toNat_ushiftRight, Nat.shiftRight_eq_div_pow, Nat.div_eq_of_lt hs]
  simp

/-! ## A register on its own -/

/-- The bit that is shifted out comes in again. -/
def update (c s : BitVec w) : BitVec w := step c (s.getLsbD 0) s

@[simp] theorem update_zero (c : BitVec w) : update c 0 = 0 := by
  simp [update, step]

theorem update_lt (hc : c.toNat < 2 ^ n) (hs : s.toNat < 2 ^ n) :
    (update c s).toNat < 2 ^ n := by
  rw [update, step, BitVec.toNat_xor]
  apply Nat.xor_lt_two_pow
  · rw [BitVec.toNat_ushiftRight]
    exact lt_of_le_of_lt (Nat.shiftRight_le _ _) hs
  · split_ifs
    · exact hc
    · simp

/-- **The top bit tells which bit was shifted out**, if the top coefficient is set; it is never set
otherwise. -/
theorem getLsbD_update_top (hn : 1 ≤ n) (c : BitVec w) (hs : s.toNat < 2 ^ n) :
    (update c s).getLsbD (n - 1) = (s.getLsbD 0 && c.getLsbD (n - 1)) := by
  have htop : s.getLsbD (1 + (n - 1)) = false := by
    rw [Nat.add_sub_cancel' hn]
    exact Nat.testBit_lt_two_pow hs
  rw [update, step, BitVec.getLsbD_xor, BitVec.getLsbD_ushiftRight, htop, Bool.false_xor]
  cases s.getLsbD 0 <;> simp

/-- A register is known from its low bit and the others. -/
theorem eq_of_ushiftRight_one (hshift : s >>> 1 = r >>> 1) (hlow : s.getLsbD 0 = r.getLsbD 0) :
    s = r := by
  apply BitVec.eq_of_getLsbD_eq
  intro i _
  cases i with
  | zero => exact hlow
  | succ i =>
    have hbit := congrArg (fun x => x.getLsbD i) hshift
    simpa [BitVec.getLsbD_ushiftRight, Nat.add_comm 1 i] using hbit

/-- The states of `n` bits. -/
def states (w n : ℕ) : Set (BitVec w) := {s | s.toNat < 2 ^ n}

@[simp] theorem mem_states : s ∈ states w n ↔ s.toNat < 2 ^ n := Iff.rfl

theorem mapsTo_toNat (w n : ℕ) : Set.MapsTo BitVec.toNat (states w n) (Set.Iio (2 ^ n)) :=
  fun _ hs => hs

theorem finite_states (w n : ℕ) : (states w n).Finite :=
  Set.Finite.of_injOn (mapsTo_toNat w n) BitVec.toNat_injective.injOn (Set.finite_Iio _)

theorem mapsTo_update (hc : c.toNat < 2 ^ n) : Set.MapsTo (update c) (states w n) (states w n) := by
  intro s hs
  exact update_lt hc hs

theorem injOn_update (hn : 1 ≤ n) (htop : c.getLsbD (n - 1) = true) :
    Set.InjOn (update c) (states w n) := by
  intro s hs r hr heq
  have hlow : s.getLsbD 0 = r.getLsbD 0 := by
    have hbit := congrArg (fun x => x.getLsbD (n - 1)) heq
    simpa [getLsbD_update_top hn c hs, getLsbD_update_top hn c hr, htop] using hbit
  have hstep : steps c [s.getLsbD 0] s = steps c [s.getLsbD 0] r := by
    rw [update, update, ← hlow] at heq
    exact heq
  exact eq_of_ushiftRight_one ((steps_eq_iff _).mp hstep) hlow

/-- **The register is a permutation** of its states if and only if the top coefficient is set. -/
theorem bijOn_update_iff (hn : 1 ≤ n) (hw : n ≤ w) (hc : c.toNat < 2 ^ n) :
    Set.BijOn (update c) (states w n) (states w n) ↔ c.getLsbD (n - 1) = true := by
  constructor
  · intro hbij
    -- the state with the top bit only has to come from somewhere
    have hmem : BitVec.twoPow w (n - 1) ∈ states w n := by
      rw [mem_states, BitVec.toNat_twoPow]
      exact lt_of_le_of_lt (Nat.mod_le _ _) (Nat.pow_lt_pow_right (by norm_num) (by omega))
    obtain ⟨s, hs, hupdate⟩ := hbij.surjOn hmem
    have hbit := getLsbD_update_top hn c hs
    rw [hupdate, BitVec.getLsbD_twoPow] at hbit
    have hin : n - 1 < w := by omega
    simp only [hin, decide_true, Bool.true_and] at hbit
    exact (Bool.and_eq_true_iff.mp hbit.symm).2
  · intro htop
    exact ((finite_states w n).injOn_iff_bijOn_of_mapsTo (mapsTo_update hc)).mp
      (injOn_update hn htop)

/-! ## States that come back -/

/-- A register in a state that is not zero does not get to zero. -/
theorem mapsTo_update_ne_zero (hn : 1 ≤ n) (hc : c.toNat < 2 ^ n)
    (htop : c.getLsbD (n - 1) = true) :
    Set.MapsTo (update c) (states w n \ {0}) (states w n \ {0}) := by
  rintro s ⟨hs, hne⟩
  refine ⟨update_lt hc hs, fun hzero => hne ?_⟩
  have hin : (0 : BitVec w) ∈ states w n := by simp
  exact injOn_update hn htop hs hin (by rw [update_zero]; exact hzero)

theorem ncard_states_le (w n : ℕ) : (states w n).ncard ≤ 2 ^ n := by
  have hle := Set.ncard_le_ncard_of_injOn _ (mapsTo_toNat w n) BitVec.toNat_injective.injOn
    (Set.finite_Iio _)
  rwa [Set.ncard_Iio_nat] at hle

/-- There is one state less without zero. -/
theorem ncard_states_ne_zero_le (w n : ℕ) : (states w n \ {0}).ncard ≤ 2 ^ n - 1 := by
  have hzero : (0 : BitVec w) ∈ states w n := by simp
  have hle := ncard_states_le w n
  rw [Set.ncard_sdiff_singleton_of_mem hzero]
  exact Nat.sub_le_sub_right hle 1

theorem period_pos (hn : 1 ≤ n) (hc : c.toNat < 2 ^ n) (htop : c.getLsbD (n - 1) = true)
    (hs : s.toNat < 2 ^ n) : 0 < Function.minimalPeriod (update c) s :=
  Orbit.minimalPeriod_pos_of_injOn (finite_states w n) (mapsTo_update hc) (injOn_update hn htop) hs

@[simp] theorem period_zero (c : BitVec w) : Function.minimalPeriod (update c) 0 = 1 :=
  Function.minimalPeriod_eq_one_iff_isFixedPt.mpr (update_zero c)

/-- **Each state comes back** after at most as many bits as there are states other than zero. -/
theorem period_le (hn : 1 ≤ n) (hc : c.toNat < 2 ^ n) (htop : c.getLsbD (n - 1) = true)
    (hs : s.toNat < 2 ^ n) : Function.minimalPeriod (update c) s ≤ 2 ^ n - 1 := by
  by_cases hzero : s = 0
  · have htwo : 2 ^ 1 ≤ 2 ^ n := Nat.pow_le_pow_right (by norm_num) hn
    rw [hzero, period_zero]
    omega
  · have hfin : (states w n \ {0}).Finite := (finite_states w n).sdiff
    have hmem : s ∈ states w n \ {0} := ⟨hs, hzero⟩
    exact (Orbit.minimalPeriod_le_ncard hfin (mapsTo_update_ne_zero hn hc htop) hmem).trans
      (ncard_states_ne_zero_le w n)

/-- Without the top coefficient the top bit is never set again. -/
theorem notMem_periodicPts (hn : 1 ≤ n) (hc : c.toNat < 2 ^ n) (htop : c.getLsbD (n - 1) = false)
    (hs : s.toNat < 2 ^ n) (hset : s.getLsbD (n - 1) = true) :
    s ∉ Function.periodicPts (update c) := by
  rintro ⟨k, hk, hback⟩
  obtain ⟨k, rfl⟩ : ∃ k', k = k' + 1 := ⟨k - 1, by omega⟩
  rw [Function.IsPeriodicPt, Function.IsFixedPt, Function.iterate_succ_apply'] at hback
  have hbit := getLsbD_update_top hn c ((mapsTo_update hc).iterate k hs)
  rw [hback, hset, htop, Bool.and_false] at hbit
  exact absurd hbit (by decide)

end ShiftRegister
end OsmoTrx
