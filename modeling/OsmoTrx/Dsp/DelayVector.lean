import OsmoTrx.Dsp.SignalVector
import OsmoTrx.Lib.Rounding

/-!
# Delaying a vector

`delayVector` of `sigProcLib.cpp`: a fractional delay by convolution with one of the delay filters,
and an integer one by moving the samples in place, upwards or downwards, with two iterators.
Samples are read and written through iterators that may stand anywhere; `none` is a behaviour that
C++ leaves undefined, among them every access outside the vector.

* `moveSamples_spec` — both directions: every sample is read before it is overwritten, and what
  has no sample to take becomes zero.
* `delayVector_integer` — **an integer delay** is defined just if it is an `int` whose negative is
  one and the length is an `unsigned`, and then it shifts the vector.
-/

namespace OsmoTrx
namespace Dsp

variable {R : Type*}

namespace SignalVector

/-- `*itr`, for an iterator `k` samples after the first. -/
def readItr (x : SignalVector R) (k : ℤ) : Option (R × R) :=
  if 0 ≤ k ∧ k < x.size then some (x.sample k) else none

/-- `*itr = s`. -/
def writeItr (x : SignalVector R) (k : ℤ) (s : R × R) : Option (SignalVector R) :=
  if 0 ≤ k ∧ k < x.size then some { x with data := Loop.storePair x.data (2 * k) s } else none

/-- The copy constructor, which keeps the head room but not its contents. -/
def copy [Zero R] (x : SignalVector R) : Option (SignalVector R) := x.extend x.start 0

/-- `Vector::clone`: the samples of the other vector without its head room.  `none`: the counter of
`copyTo` is `unsigned`. -/
def clone [Zero R] (out other : SignalVector R) : Option (SignalVector R) :=
  if other.size < 2 ^ 32 then
    some { out with
      data := fun j => if 0 ≤ j ∧ j < 2 * (other.size : ℤ) then other.data j else 0
      size := other.size
      start := 0 }
  else none

theorem sample_withRoom_of_lt [Zero R] (x : SignalVector R) (start tail : ℕ) {k : ℤ} (h0 : 0 ≤ k)
    (h : k < x.size) : (x.withRoom start tail).sample k = x.sample k := by
  have hfst : 0 ≤ 2 * k ∧ 2 * k < 2 * (x.size : ℤ) := by omega
  have hsnd : 0 ≤ 2 * k + 1 ∧ 2 * k + 1 < 2 * (x.size : ℤ) := by omega
  simp only [sample, Loop.loadPair, withRoom, if_pos hfst, if_pos hsnd]

/-- A copy that ends is the vector with its head room cleared. -/
theorem copy_eq_some [Zero R] {x : SignalVector R} (h : x.size < 2 ^ 32) :
    x.copy = some (x.withRoom x.start 0) := if_pos h

theorem clone_eq_some [Zero R] (out : SignalVector R) {other : SignalVector R}
    (h : other.size < 2 ^ 32) :
    ∃ y, out.clone other = some y ∧ y.size = other.size ∧ y.start = 0 ∧
      ∀ k : ℤ, 0 ≤ k → k < other.size → y.sample k = other.sample k := by
  refine ⟨_, if_pos h, rfl, rfl, fun k h0 hk => ?_⟩
  have hfst : 0 ≤ 2 * k ∧ 2 * k < 2 * (other.size : ℤ) := by omega
  have hsnd : 0 ≤ 2 * k + 1 ∧ 2 * k + 1 < 2 * (other.size : ℤ) := by omega
  simp only [sample, Loop.loadPair, if_pos hfst, if_pos hsnd]

end SignalVector

open SignalVector

/-! ## The integer shift -/

/-- The vector and the two iterators of a shift. -/
structure Shift (R : Type*) where
  shift : SignalVector R
  wBurstItr : ℤ
  shiftedItr : ℤ

/-- The test of the loops: `itr < end()` on the way up, `itr >= begin()` on the way down. -/
def running (up : Bool) (x : SignalVector R) (itr : ℤ) : Bool :=
  if up then itr < x.size else 0 ≤ itr

/-- `itr++` on the way up, `itr--` on the way down. -/
def advance (up : Bool) (itr : ℤ) : ℤ := if up then itr + 1 else itr - 1

/-- `*wBurstItr++ = *shiftedItr++`. -/
def moveTurn (up : Bool) (s : Shift R) : Option (Shift R) := do
  let v ← s.shift.readItr s.shiftedItr
  let shift ← s.shift.writeItr s.wBurstItr v
  some ⟨shift, advance up s.wBurstItr, advance up s.shiftedItr⟩

/-- `*wBurstItr++ = 0.0`. -/
def zeroTurn [Zero R] (up : Bool) (s : Shift R) : Option (Shift R) := do
  let shift ← s.shift.writeItr s.wBurstItr (0, 0)
  some { s with shift := shift, wBurstItr := advance up s.wBurstItr }

/-- The two loops of either direction.  Each writes every sample once at most. -/
def moveSamples [Zero R] (up : Bool) (s : Shift R) : Option (SignalVector R) := do
  let s ← Loop.whileM (fun s => running up s.shift s.shiftedItr) (moveTurn up) s.shift.size s
  let s ← Loop.whileM (fun s => running up s.shift s.wBurstItr) (zeroTurn up) s.shift.size s
  some s.shift

/-- The integer sample shift.  The negation of the most negative `int` is undefined. -/
def shiftWhole [Zero R] (shift : SignalVector R) (whole : ℤ) : Option (SignalVector R) :=
  if whole < 0 then
    if -whole < 2 ^ 31 then moveSamples true ⟨shift, 0, -whole⟩ else none
  else moveSamples false ⟨shift, shift.size - 1, shift.size - 1 - whole⟩

/-! ## `delayVector` -/

def DELAYFILTS : ℕ := 64

/-- `int whole = floor(delay)`, undefined where the result is not an `int`. -/
def floorInt (delay : ℚ) : Option ℤ :=
  if -2 ^ 31 ≤ ⌊delay⌋ ∧ ⌊delay⌋ < 2 ^ 31 then some ⌊delay⌋ else none

/-- `delayVector`.  The outer `none` is undefined behaviour, or a copy that never ends, the inner one
`NULL`; the vector is the new one, or the caller's with its new contents.  The `double` nearest to `1e-2` separates the same
numbers of single precision as a hundredth does. -/
def delayVector [CommRing R] (c : ConvolveCpuContext R) (mem : ℤ → R)
    (delayFilters : ℕ → SignalVector R) (inp : SignalVector R) (out : Option (SignalVector R))
    (delay : ℚ) : Option (Option (SignalVector R)) :=
  match floorInt delay with
  | none => none
  | some whole => do
    let frac := roundFloat (delay - roundFloat whole)
    let index := ⌊frac * DELAYFILTS⌋
    let shift? ←
      if |frac| > 1 / 100 then
        if 0 ≤ index ∧ index < DELAYFILTS ∧ inp.size < 2 ^ 32 then
          some (convolve c mem inp (delayFilters index.toNat) none .NO_DELAY 0 0)
        else none
      else inp.copy.map some
    match shift? with
    | none => some none
    | some shift =>
      let shift ← shiftWhole shift whole
      (out.elim (some shift) fun out => out.clone shift).map some

/-! ## What the loops do -/

/-- The sample that a delay by `d` puts in place `i`. -/
def delayed [Zero R] (x : SignalVector R) (d i : ℤ) : R × R :=
  if 0 ≤ i - d ∧ i - d < x.size then x.sample (i - d) else (0, 0)

/-- The places that an iterator has left behind. -/
def Passed (up : Bool) (itr i : ℤ) : Prop := if up then i < itr else itr < i

/-- How far an iterator has to go. -/
def distance (up : Bool) (x : SignalVector R) (itr : ℤ) : ℕ :=
  if up then (x.size - itr).toNat else (itr + 1).toNat

theorem sample_storePair (x : SignalVector R) (k i : ℤ) (s : R × R) :
    ({ x with data := Loop.storePair x.data (2 * k) s } : SignalVector R).sample i =
      if i = k then s else x.sample i := Loop.loadPair_storePair_mul x.data k i s

/-- While samples are moved: those behind the writing iterator are delayed, the others are still
those of `x`, and so is the one that is read next. -/
structure Moving (up : Bool) (x : SignalVector R) (d : ℤ) (s : Shift R) : Prop where
  size : s.shift.size = x.size
  start : s.shift.start = x.start
  apart : s.shiftedItr = s.wBurstItr - d
  within : if up then 0 ≤ s.wBurstItr else s.wBurstItr < x.size
  moved : ∀ i : ℤ, 0 ≤ i → i < x.size → Passed up s.wBurstItr i →
    0 ≤ i - d ∧ i - d < x.size ∧ s.shift.sample i = x.sample (i - d)
  rest : ∀ i : ℤ, 0 ≤ i → i < x.size → ¬ Passed up s.wBurstItr i → s.shift.sample i = x.sample i

theorem Moving.step {up : Bool} {x : SignalVector R} {d : ℤ} {s : Shift R}
    (hdir : if up then d ≤ 0 else 0 ≤ d) (h : Moving up x d s)
    (hrun : running up s.shift s.shiftedItr = true) :
    ∃ s', moveTurn up s = some s' ∧ Moving up x d s' ∧
      distance up s'.shift s'.shiftedItr < distance up s.shift s.shiftedItr := by
  obtain ⟨hsize, hstart, hapart, hwithin, hmoved, hrest⟩ := h
  have hin : 0 ≤ s.shiftedItr ∧ s.shiftedItr < s.shift.size ∧ 0 ≤ s.wBurstItr ∧
      s.wBurstItr < s.shift.size ∧ ¬ Passed up s.wBurstItr s.shiftedItr := by
    cases up <;> simp only [running, Passed, if_true, Bool.false_eq_true, if_false,
      decide_eq_true_eq] at * <;> omega
  obtain ⟨hr0, hr1, hw0, hw1, hahead⟩ := hin
  have hread : s.shift.sample s.shiftedItr = x.sample s.shiftedItr :=
    hrest _ hr0 (by omega) hahead
  have hturn : moveTurn up s = some
      ⟨{ s.shift with
        data := Loop.storePair s.shift.data (2 * s.wBurstItr) (s.shift.sample s.shiftedItr) },
        advance up s.wBurstItr, advance up s.shiftedItr⟩ := by
    simp [moveTurn, readItr, writeItr, hr0, hr1, hw0, hw1]
  refine ⟨_, hturn, ⟨hsize, hstart, ?_, ?_, ?_, ?_⟩, ?_⟩
  · cases up <;> simp only [advance, if_true, Bool.false_eq_true, if_false] <;> omega
  · cases up <;> simp only [advance, if_true, Bool.false_eq_true, if_false] at * <;> omega
  · intro i hi0 hi1 hpassed
    rw [sample_storePair]
    by_cases hiw : i = s.wBurstItr
    · rw [if_pos hiw, hread, hiw, ← hapart]
      exact ⟨hr0, by omega, rfl⟩
    · rw [if_neg hiw]
      refine hmoved i hi0 hi1 ?_
      cases up <;> simp only [Passed, advance, if_true, Bool.false_eq_true, if_false] at * <;> omega
  · intro i hi0 hi1 hpassed
    have hne : i ≠ s.wBurstItr ∧ ¬ Passed up s.wBurstItr i := by
      cases up <;> simp only [Passed, advance, if_true, Bool.false_eq_true, if_false] at * <;> omega
    rw [sample_storePair, if_neg hne.1]
    exact hrest i hi0 hi1 hne.2
  · cases up <;>
      simp only [distance, advance, if_true, Bool.false_eq_true, if_false] at * <;> omega

/-- While samples are cleared: those behind the iterator are final, the others will be zero. -/
structure Clearing [Zero R] (up : Bool) (x : SignalVector R) (d : ℤ) (s : Shift R) : Prop where
  size : s.shift.size = x.size
  start : s.shift.start = x.start
  within : if up then 0 ≤ s.wBurstItr else s.wBurstItr < x.size
  done : ∀ i : ℤ, 0 ≤ i → i < x.size → Passed up s.wBurstItr i → s.shift.sample i = delayed x d i
  zero : ∀ i : ℤ, 0 ≤ i → i < x.size → ¬ Passed up s.wBurstItr i → delayed x d i = (0, 0)

/-- When there is nothing more to move, what is left has no sample to take. -/
theorem Moving.clearing [Zero R] {up : Bool} {x : SignalVector R} {d : ℤ} {s : Shift R}
    (h : Moving up x d s) (hrun : running up s.shift s.shiftedItr = false) :
    Clearing up x d s where
  size := h.size
  start := h.start
  within := h.within
  done i hi0 hi1 hpassed := by
    obtain ⟨h0, h1, hsample⟩ := h.moved i hi0 hi1 hpassed
    rw [delayed, if_pos ⟨h0, h1⟩, hsample]
  zero i hi0 hi1 hpassed := by
    obtain ⟨hsize, -, hapart, -, -, -⟩ := h
    rw [delayed, if_neg]
    cases up <;> simp only [running, Passed, if_true, Bool.false_eq_true, if_false,
      decide_eq_false_iff_not] at * <;> omega

theorem Clearing.step [Zero R] {up : Bool} {x : SignalVector R} {d : ℤ} {s : Shift R}
    (h : Clearing up x d s) (hrun : running up s.shift s.wBurstItr = true) :
    ∃ s', zeroTurn up s = some s' ∧ Clearing up x d s' ∧
      distance up s'.shift s'.wBurstItr < distance up s.shift s.wBurstItr := by
  obtain ⟨hsize, hstart, hwithin, hdone, hzero⟩ := h
  have hin : 0 ≤ s.wBurstItr ∧ s.wBurstItr < s.shift.size := by
    cases up <;> simp only [running, if_true, Bool.false_eq_true, if_false,
      decide_eq_true_eq] at * <;> omega
  have hturn : zeroTurn up s = some
      { s with
        shift := { s.shift with data := Loop.storePair s.shift.data (2 * s.wBurstItr) (0, 0) }
        wBurstItr := advance up s.wBurstItr } := by
    simp [zeroTurn, writeItr, hin]
  refine ⟨_, hturn, ⟨hsize, hstart, ?_, ?_, ?_⟩, ?_⟩
  · cases up <;> simp only [advance, if_true, Bool.false_eq_true, if_false] at * <;> omega
  · intro i hi0 hi1 hpassed
    rw [sample_storePair]
    by_cases hiw : i = s.wBurstItr
    · rw [if_pos hiw, hiw, hzero _ hin.1 (by omega)]
      cases up <;> simp [Passed]
    · rw [if_neg hiw]
      refine hdone i hi0 hi1 ?_
      cases up <;> simp only [Passed, advance, if_true, Bool.false_eq_true, if_false] at * <;> omega
  · intro i hi0 hi1 hpassed
    refine hzero i hi0 hi1 ?_
    cases up <;> simp only [Passed, advance, if_true, Bool.false_eq_true, if_false] at * <;> omega
  · cases up <;>
      simp only [distance, advance, if_true, Bool.false_eq_true, if_false] at * <;> omega

/-- **Both directions move and clear the samples** without leaving the vector. -/
theorem moveSamples_spec [Zero R] (up : Bool) (x : SignalVector R) {d : ℤ}
    (hdir : if up then d ≤ 0 else 0 ≤ d) {first : ℤ}
    (hfirst : first = if up then 0 else (x.size : ℤ) - 1) :
    ∃ y, moveSamples up ⟨x, first, first - d⟩ = some y ∧ y.size = x.size ∧ y.start = x.start ∧
      ∀ i : ℤ, 0 ≤ i → i < x.size → y.sample i = delayed x d i := by
  have hstart : Moving up x d ⟨x, first, first - d⟩ := by
    refine ⟨rfl, rfl, rfl, ?_, ?_, fun _ _ _ _ => rfl⟩
    · cases up <;> simp only [if_true, Bool.false_eq_true, if_false] at * <;> omega
    · intro i hi0 hi1 hpassed
      exfalso
      cases up <;> simp only [Passed, if_true, Bool.false_eq_true, if_false] at * <;> omega
  have hfuel : distance up x (first - d) ≤ x.size := by
    cases up <;> simp only [distance, if_true, Bool.false_eq_true, if_false] at * <;> omega
  obtain ⟨s, hloop, hmoving, hend⟩ := Loop.whileM_spec (Moving up x d)
    (fun s => distance up s.shift s.shiftedItr) (fun s hs hrun => hs.step hdir hrun) hstart hfuel
  have hfuel' : distance up s.shift s.wBurstItr ≤ s.shift.size := by
    have hwithin := hmoving.within
    rw [hmoving.size]
    cases up <;> simp only [distance, if_true, Bool.false_eq_true, if_false] at * <;>
      have := hmoving.size <;> omega
  obtain ⟨t, hloop', hclearing, hend'⟩ := Loop.whileM_spec (Clearing up x d)
    (fun s => distance up s.shift s.wBurstItr) (fun s hs hrun => hs.step hrun)
    (hmoving.clearing hend) hfuel'
  refine ⟨t.shift, ?_, hclearing.size, hclearing.start, fun i hi0 hi1 => ?_⟩
  · simp only [moveSamples, hloop, Option.bind_eq_bind, Option.bind_some, hloop']
  · refine hclearing.done i hi0 hi1 ?_
    have hsize := hclearing.size
    cases up <;> simp only [running, Passed, if_true, Bool.false_eq_true, if_false,
      decide_eq_false_iff_not] at * <;> omega

theorem shiftWhole_spec [Zero R] (x : SignalVector R) {d : ℤ} (hd : -2 ^ 31 < d) :
    ∃ y, shiftWhole x d = some y ∧ y.size = x.size ∧ y.start = x.start ∧
      ∀ i : ℤ, 0 ≤ i → i < x.size → y.sample i = delayed x d i := by
  unfold shiftWhole
  by_cases hneg : d < 0
  · rw [if_pos hneg, if_pos (by omega)]
    have := moveSamples_spec true x (d := d) (by simpa using hneg.le) rfl
    simpa using this
  · rw [if_neg hneg]
    exact moveSamples_spec false x (by simpa using not_lt.mp hneg) rfl

/-! ## Real vectors -/

/-- A loop whose turns leave a vector real or complex does so. -/
theorem whileM_real {cond : Shift R → Bool} {body : Shift R → Option (Shift R)}
    (hbody : ∀ s s', body s = some s' → s'.shift.real = s.shift.real) (fuel : ℕ) (s s' : Shift R)
    (h : Loop.whileM cond body fuel s = some s') : s'.shift.real = s.shift.real := by
  induction fuel generalizing s with
  | zero =>
    rw [Loop.whileM] at h
    split_ifs at h
    rw [← Option.some_inj.mp h]
  | succ fuel ih =>
    rw [Loop.whileM] at h
    split_ifs at h
    · obtain ⟨s₁, hs₁, hrest⟩ := Option.bind_eq_some_iff.mp h
      exact (ih s₁ hrest).trans (hbody s s₁ hs₁)
    · rw [← Option.some_inj.mp h]

theorem writeItr_real {x y : SignalVector R} {k : ℤ} {v : R × R} (h : x.writeItr k v = some y) :
    y.real = x.real := by
  unfold SignalVector.writeItr at h
  split_ifs at h
  rw [← Option.some_inj.mp h]

theorem moveSamples_real [Zero R] {up : Bool} {s : Shift R} {y : SignalVector R}
    (h : moveSamples up s = some y) : y.real = s.shift.real := by
  obtain ⟨s₁, hmove, hrest⟩ := Option.bind_eq_some_iff.mp h
  obtain ⟨s₂, hzero, hy⟩ := Option.bind_eq_some_iff.mp hrest
  have hmoved : s₁.shift.real = s.shift.real := by
    refine whileM_real (fun s s' hturn => ?_) _ _ _ hmove
    obtain ⟨v, -, hturn⟩ := Option.bind_eq_some_iff.mp hturn
    obtain ⟨z, hwrite, hturn⟩ := Option.bind_eq_some_iff.mp hturn
    rw [← Option.some_inj.mp hturn]
    exact writeItr_real hwrite
  have hzeroed : s₂.shift.real = s₁.shift.real := by
    refine whileM_real (fun s s' hturn => ?_) _ _ _ hzero
    obtain ⟨z, hwrite, hturn⟩ := Option.bind_eq_some_iff.mp hturn
    rw [← Option.some_inj.mp hturn]
    exact writeItr_real hwrite
  rw [← Option.some_inj.mp hy, hzeroed, hmoved]

/-- The shift of a real vector is real, and that of a complex one is not. -/
theorem shiftWhole_real [Zero R] {x y : SignalVector R} {d : ℤ} (h : shiftWhole x d = some y) :
    y.real = x.real := by
  unfold shiftWhole at h
  split_ifs at h
  · exact moveSamples_real h
  · exact moveSamples_real h

/-- The vector an integer delay gives: `out` changes its size with it, and loses its head room. -/
structure IsDelayed [Zero R] (x : SignalVector R) (out : Option (SignalVector R)) (d : ℤ)
    (y : SignalVector R) : Prop where
  size : y.size = x.size
  start : y.start = out.elim x.start fun _ => 0
  sample : ∀ i : ℤ, 0 ≤ i → i < x.size → y.sample i = delayed x d i

/-- **An integer delay** shifts the vector and fills it up with zeros, whatever the delay, the
length, the head room and the output; it needs no more than that the delay and its negative are
of type `int` and the length of type `unsigned`. -/
theorem delayVector_integer [CommRing R] (c : ConvolveCpuContext R) (mem : ℤ → R)
    (delayFilters : ℕ → SignalVector R) (x : SignalVector R) (out : Option (SignalVector R))
    (d : ℤ) (hd : IsFloat d) :
    (|d| < 2 ^ 31 ∧ x.size < 2 ^ 32 →
      ∃ y, delayVector c mem delayFilters x out d = some (some y) ∧ IsDelayed x out d y) ∧
    (¬ (|d| < 2 ^ 31 ∧ x.size < 2 ^ 32) → delayVector c mem delayFilters x out d = none) := by
  have hfrac : roundFloat ((d : ℚ) - roundFloat d) = 0 := by rw [hd.1, sub_self, roundFloat_zero]
  have hsmall : ¬ |(0 : ℚ)| > 1 / 100 := by norm_num
  constructor
  · rintro ⟨hlt, hcopies⟩
    obtain ⟨hlo, hhi⟩ := abs_lt.mp hlt
    have hfloor : floorInt d = some d := by
      rw [floorInt, Int.floor_intCast, if_pos (by omega)]
    have hcopy := copy_eq_some hcopies
    obtain ⟨y, hy, hsize, hstart, hsample⟩ := shiftWhole_spec (x.withRoom x.start 0) hlo
    have hsize : y.size = x.size := hsize
    have hdelayed : ∀ i : ℤ, 0 ≤ i → i < x.size → y.sample i = delayed x d i := by
      intro i h0 h1
      rw [hsample i h0 h1]
      unfold delayed
      rw [show (x.withRoom x.start 0).size = x.size from rfl]
      split_ifs with h
      · exact sample_withRoom_of_lt x _ _ h.1 h.2
      · rfl
    cases out with
    | none =>
      refine ⟨y, ?_, hsize, hstart, hdelayed⟩
      simp only [delayVector, hfloor, hfrac, if_neg hsmall, hcopy, Option.bind_eq_bind,
        Option.bind_some, Option.map_some, hy, Option.elim_none]
    | some out =>
      have hcloned : y.size < 2 ^ 32 := hsize ▸ hcopies
      obtain ⟨z, hz, hzsize, hzstart, hzsample⟩ := clone_eq_some out hcloned
      refine ⟨z, ?_, hzsize.trans hsize, hzstart, fun i h0 h1 => ?_⟩
      · simp only [delayVector, hfloor, hfrac, if_neg hsmall, hcopy, Option.bind_eq_bind,
          Option.bind_some, Option.map_some, hy, Option.elim_some, hz]
      · rw [hzsample i h0 (hsize ▸ h1), hdelayed i h0 h1]
  · intro hge
    unfold delayVector
    by_cases hint : -2 ^ 31 ≤ d ∧ d < 2 ^ 31
    · have hfloor : floorInt d = some d := by rw [floorInt, Int.floor_intCast, if_pos hint]
      by_cases hcopies : x.size < 2 ^ 32
      · -- only the most negative `int` is left
        have hmin : d = -2 ^ 31 := by
          rw [abs_lt] at hge
          omega
        have hshift : shiftWhole (x.withRoom x.start 0) d = none := by
          rw [shiftWhole, if_pos (by omega), if_neg (by omega)]
        simp only [hfloor, hfrac, if_neg hsmall, copy_eq_some hcopies, Option.bind_eq_bind,
          Option.bind_some, Option.map_some, hshift, Option.bind_none]
      · have hcopy : x.copy = none := if_neg hcopies
        simp only [hfloor, hfrac, if_neg hsmall, hcopy, Option.bind_eq_bind, Option.map_none,
          Option.bind_none]
    · rw [floorInt, Int.floor_intCast, if_neg hint]

/-- Five samples with head room, two places forward. -/
theorem delayVector_integer_five :
    ∃ y, delayVector (convolveInit false) (fun _ => 0) (fun _ => SignalVector.new 20)
        (⟨fun j => j, 5, 2, false, false⟩ : SignalVector ℤ) none ((-2 : ℤ) : ℚ) = some (some y) ∧
      IsDelayed ⟨fun j => j, 5, 2, false, false⟩ none (-2) y :=
  (delayVector_integer (convolveInit false) (fun _ => 0) (fun _ => SignalVector.new 20)
    (⟨fun j => j, 5, 2, false, false⟩ : SignalVector ℤ) none (-2) (by decide +kernel)).1 (by decide)

/-- A delay of `2 ^ 31` samples is a whole number of single precision, and no `int`. -/
theorem delayVector_beyond_int :
    IsFloat ((2 ^ 31 : ℤ) : ℚ) ∧
      (delayVector (convolveInit false) (fun _ => 0) (fun _ => SignalVector.new 20)
        (SignalVector.new 5 : SignalVector ℤ) none ((2 ^ 31 : ℤ) : ℚ)).isNone = true := by
  constructor
  · decide +kernel
  · have hfloor : floorInt ((2 ^ 31 : ℤ) : ℚ) = none := by
      rw [floorInt, Int.floor_intCast]
      rfl
    rw [delayVector, hfloor]
    rfl

end Dsp
end OsmoTrx
