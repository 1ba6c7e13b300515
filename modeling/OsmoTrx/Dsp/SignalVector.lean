import OsmoTrx.Dsp.Resampler

/-!
# Signal vectors

`signalVector` of `signalVector.cpp` and the functions of `sigProcLib.cpp` on whole vectors, over a
commutative ring in place of `float`.  A vector is the floats around its first sample, some of
which lie in its head room.

* `write`, `writeSymbols` — assignments through an iterator; `none` outside the vector.
* `updateHistory` — the end of the vector moves into the head room; `updateHistory_spec`.
* `convolve` — all four spans, with the `size_t` of the wrapper and the `int`s of the kernels.
* `FitsInt` — the sizes that both hold; `convolve_startOnly` — a vector that starts with its filter.
-/

namespace OsmoTrx
namespace Dsp

variable {R : Type*}

/-! ## Complex numbers -/

/-- The product of two complex numbers. -/
def cmul [CommRing R] (a b : R × R) : R × R := (a.1 * b.1 - a.2 * b.2, a.1 * b.2 + a.2 * b.1)

/-! ## Vectors -/

/-- `signalVector`: sample `t` is the pair at `2 * t`, from `-start` up to `size`. -/
structure SignalVector (R : Type*) where
  data : ℤ → R
  size : ℕ
  start : ℕ
  real : Bool
  aligned : Bool

namespace SignalVector

/-- A vector with head room, all samples being zero. -/
def withHead [Zero R] (size start : ℕ) : SignalVector R := ⟨fun _ => 0, size, start, false, false⟩

/-- A vector without head room. -/
def new [Zero R] (size : ℕ) : SignalVector R := withHead size 0

/-- The samples of a vector behind `start` samples of head room, with `tail` more at their end. -/
def withRoom [Zero R] (x : SignalVector R) (start tail : ℕ) : SignalVector R where
  data j := if 0 ≤ j ∧ j < 2 * (x.size : ℤ) then x.data j else 0
  size := x.size + tail
  start := start
  real := x.real
  aligned := false

/-- A copy with head and tail room.  `none`: the counter of `copyTo` is `unsigned`, and the copy of
`2 ^ 32` samples never ends. -/
def extend [Zero R] (x : SignalVector R) (start tail : ℕ) : Option (SignalVector R) :=
  if x.size < 2 ^ 32 then some (x.withRoom start tail) else none

/-- The sample at an index. -/
def sample (x : SignalVector R) (k : ℤ) : R × R := Loop.loadPair x.data (2 * k)

/-- `*itr` for an iterator at sample `k`. -/
def read (x : SignalVector R) (k : ℕ) : Option (R × R) :=
  if k < x.size then some (x.sample k) else none

/-- `*itr = s` for an iterator at sample `k`. -/
def write (x : SignalVector R) (k : ℕ) (s : R × R) : Option (SignalVector R) :=
  if k < x.size then some { x with data := Loop.storePair x.data (2 * k) s } else none

/-- `*itr = s; itr += sps` for some symbols: the vector and the iterator afterwards. -/
def writeSymbols (sps : ℕ) :
    List (R × R) → SignalVector R → ℕ → Option (SignalVector R × ℕ)
  | [], x, itr => some (x, itr)
  | s :: ss, x, itr => do
    let x ← x.write itr s
    writeSymbols sps ss x (itr + sps)

/-- `updateHistory`; `mData` is `start` samples in front of `mStart`. -/
def updateHistory (x : SignalVector R) : SignalVector R :=
  let num := x.start
  { x with
    data := Loop.upTo num (fun i data =>
      Loop.storePair data (2 * ((i : ℤ) - num))
        (Loop.loadPair data (2 * ((x.size : ℤ) - num + i)))) x.data }

end SignalVector

open SignalVector

variable [CommRing R]

/-- `scaleVector`; of a real vector only the real parts count. -/
def scaleVector (x : SignalVector R) (scale : R × R) : SignalVector R :=
  { x with
    data := Loop.upTo x.size (fun k data =>
      let s := Loop.loadPair data (2 * k)
      Loop.storePair data (2 * k) (if x.real then (s.1 * scale.1, s.1 * scale.2)
        else cmul s scale)) x.data }

/-! ## Convolution -/

/-- `ConvType`. -/
inductive ConvType
  | START_ONLY
  | NO_DELAY
  | CUSTOM
  | UNDEFINED
  deriving DecidableEq, Repr

/-- What `convolve` derives from the span: the head and the tail that the input needs, where the
output starts and how long it is, and whether the input has to be copied for it. -/
structure Span where
  head : ℕ
  tail : ℕ
  start : ℕ
  len : ℕ
  append : Bool
  deriving DecidableEq, Repr

/-- The switch over the span, for a filter that has a tap. -/
def Span.of (x h : SignalVector R) (start len : ℕ) : ConvType → Option Span
  | .START_ONLY => some ⟨h.size - 1, 0, 0, x.size, x.start < h.size - 1⟩
  | .NO_DELAY => some ⟨h.size / 2, h.size / 2, h.size / 2, x.size, true⟩
  | .CUSTOM => some
      { head := if start < h.size - 1 then h.size - start else 0
        tail := if add64 start len > x.size then add64 start len - x.size else 0
        start := start
        len := len
        append := start < h.size - 1 || add64 start len > x.size }
  | .UNDEFINED => none

/-- The four convolutions: by a real or a complex filter, aligned for SSE or not. -/
def kernel (c : ConvolveCpuContext R) (real aligned : Bool) (x : ℤ → R) (xLen : ℤ) (h : ℤ → R)
    (hLen : ℤ) (y : ℤ → R) (yLen start len : ℤ) : ℤ × (ℤ → R) :=
  match real, aligned with
  | true, true => convolveReal c x xLen h hLen y yLen start len
  | false, true => convolveComplex c x xLen h hLen y yLen start len
  | true, false => baseConvolveReal x xLen h hLen y yLen start len
  | false, false => baseConvolveComplex x xLen h hLen y yLen start len

/-- `convolve` of two vectors, the sizes becoming `int`s for the kernels; `none` is NULL, or a copy
of the input that never ends.  The memory of a new output has the contents `mem`. -/
def convolve (c : ConvolveCpuContext R) (mem : ℤ → R) (x h : SignalVector R)
    (y : Option (SignalVector R)) (spanType : ConvType) (start len : ℕ) :
    Option (SignalVector R) :=
  match Span.of x h start len spanType with
  | none => none
  | some span =>
    if y.elim false fun y => decide (span.len > y.size) then none
    else
      let y := y.getD ⟨mem, span.len, 0, false, false⟩
      match if span.append then x.extend span.head span.tail else some x with
      | none => none
      | some x =>
        let r := kernel c h.real h.aligned x.data (i32 x.size) h.data (i32 h.size) y.data
          (i32 y.size) (i32 span.start) (i32 span.len)
        if r.1 < 0 then none else some { y with data := r.2 }

/-- Sizes with which the wrapper and the kernels compute the same: the samples in reach are few
enough for the kernels to index their floats by an `int`, and a given output has an `int` size. -/
structure FitsInt (x h : SignalVector R) (y : Option (SignalVector R)) (spanType : ConvType)
    (start len : ℕ) : Prop where
  input : x.size + h.size ≤ 2 ^ 30
  output : ∀ z, y = some z → z.size < 2 ^ 31
  window : spanType = .CUSTOM → start + len + h.size ≤ 2 ^ 30

omit [CommRing R] in
/-- Into a new vector, over a span that the sizes give. -/
theorem FitsInt.fresh {x h : SignalVector R} {spanType : ConvType} {start len : ℕ}
    (hinput : x.size + h.size ≤ 2 ^ 30) (htype : spanType ≠ .CUSTOM) :
    FitsInt x h none spanType start len where
  input := hinput
  output z hz := (Option.some_ne_none z hz.symm).elim
  window h := absurd h htype

/-! ## Shapes -/

namespace SignalVector

omit [CommRing R]

/-- Two vectors of one size with the same head room. -/
def SameShape (x y : SignalVector R) : Prop := x.size = y.size ∧ x.start = y.start

theorem SameShape.trans {x y z : SignalVector R} (h : SameShape x y) (h' : SameShape y z) :
    SameShape x z :=
  ⟨h.1.trans h'.1, h.2.trans h'.2⟩

theorem write_eq_some_iff {x y : SignalVector R} {k : ℕ} {s : R × R} :
    x.write k s = some y ↔
      k < x.size ∧ y = { x with data := Loop.storePair x.data (2 * k) s } := by
  unfold write
  split_ifs with hk
  · simp [hk, eq_comm]
  · simp [hk]

theorem write_sameShape {x y : SignalVector R} {k : ℕ} {s : R × R} (h : x.write k s = some y) :
    y.SameShape x := by
  obtain ⟨-, rfl⟩ := write_eq_some_iff.mp h
  exact ⟨rfl, rfl⟩

theorem write_isSome_iff {x : SignalVector R} {k : ℕ} {s : R × R} :
    (x.write k s).isSome = true ↔ k < x.size := by
  unfold write
  split_ifs with hk <;> simp [hk]

/-- Symbols that fit are written, and the iterator moves on. -/
theorem writeSymbols_of_fits (sps : ℕ) (symbols : List (R × R)) :
    ∀ (x : SignalVector R) (itr : ℕ),
      (symbols ≠ [] → itr + sps * (symbols.length - 1) < x.size) →
      ∃ y, writeSymbols sps symbols x itr = some (y, itr + sps * symbols.length) ∧
        y.SameShape x := by
  induction symbols with
  | nil =>
    intro x itr _
    exact ⟨x, by simp [writeSymbols], rfl, rfl⟩
  | cons s symbols ih =>
    intro x itr hfits
    have hlast := hfits (List.cons_ne_nil _ _)
    rw [List.length_cons, Nat.add_sub_cancel] at hlast
    obtain ⟨y, hwrite⟩ := Option.isSome_iff_exists.mp
      (write_isSome_iff (s := s).mpr ((Nat.le_add_right _ _).trans_lt hlast))
    have hshape := write_sameShape hwrite
    have hrest : symbols ≠ [] → itr + sps + sps * (symbols.length - 1) < y.size := by
      intro hne
      have hlen : 1 ≤ symbols.length := List.length_pos_iff.mpr hne
      rw [hshape.1, Nat.add_assoc, Nat.mul_sub_one]
      have hmul : sps ≤ sps * symbols.length := Nat.le_mul_of_pos_right _ hlen
      omega
    obtain ⟨z, hz, hshape'⟩ := ih y (itr + sps) hrest
    refine ⟨z, ?_, hshape'.trans hshape⟩
    rw [writeSymbols, hwrite]
    simp only [Option.bind_eq_bind, Option.bind_some, hz, List.length_cons, Option.some.injEq,
      Prod.mk.injEq, true_and]
    ring

/-- **`updateHistory`** moves the end of the vector into the head room, and leaves the vector
alone. -/
theorem updateHistory_spec (x : SignalVector R) :
    (∀ m < x.start, x.updateHistory.sample (m - x.start) = x.sample (x.size - x.start + m)) ∧
      ∀ t : ℤ, 0 ≤ t → x.updateHistory.sample t = x.sample t := by
  have hloop : (∀ m < x.start, x.updateHistory.sample (m - x.start) =
      x.sample (x.size - x.start + m)) ∧
      ∀ t : ℤ, (x.start : ℤ) - x.start ≤ t → x.updateHistory.sample t = x.sample t := by
    refine Loop.upTo_induction (P := fun i data =>
      (∀ m < i, Loop.loadPair data (2 * ((m : ℤ) - x.start)) =
        x.sample (x.size - x.start + m)) ∧
      ∀ t : ℤ, (i : ℤ) - x.start ≤ t → Loop.loadPair data (2 * t) = x.sample t) ?_ ?_
    · exact ⟨fun m hm => absurd hm (Nat.not_lt_zero m), fun _ _ => rfl⟩
    · rintro i hi data ⟨hdone, hrest⟩
      refine ⟨fun m hm => ?_, fun t ht => ?_⟩
      · rw [Loop.loadPair_storePair_mul]
        split_ifs with heq
        · rw [hrest _ (by omega), show m = i by omega]
        · exact hdone m (by omega)
      · rw [Loop.loadPair_storePair_mul, if_neg (by omega)]
        exact hrest t (by omega)
  exact ⟨hloop.1, fun t ht => hloop.2 t (by omega)⟩

end SignalVector

@[simp] theorem scaleVector_size (x : SignalVector R) (scale : R × R) :
    (scaleVector x scale).size = x.size := rfl

/-- Any of the four kernels accepts what the bounds check accepts. -/
theorem kernel_fst (c : ConvolveCpuContext R) (real aligned : Bool) (x : ℤ → R) {xLen : ℤ}
    (h : ℤ → R) {hLen : ℤ} (y : ℤ → R) {yLen start len : ℤ}
    (hbounds : boundsCheck xLen hLen yLen start len = 0) :
    (kernel c real aligned x xLen h hLen y yLen start len).1 = len := by
  have hpass : ¬ boundsCheck xLen hLen yLen start len < 0 := by
    rw [hbounds]
    exact lt_irrefl 0
  cases real <;> cases aligned <;>
    simp only [kernel, convolveReal, convolveComplex, baseConvolveReal, baseConvolveComplex,
      baseConvolveRealLoop, baseConvolveComplexLoop, if_neg hpass]

omit [CommRing R] in
theorem FitsInt.custom {x h : SignalVector R} {y : Option (SignalVector R)} {start len : ℕ}
    (hfits : FitsInt x h y .CUSTOM start len) : add64 start len = start + len := by
  have := hfits.window rfl
  exact add64_eq (by omega)

theorem extend_eq_some {x : SignalVector R} (h : x.size ≤ 2 ^ 30) (start tail : ℕ) :
    x.extend start tail = some (x.withRoom start tail) := if_pos (by omega)

/-- **A vector that starts with its filter**: the output is as long as the input, if that is not
shorter than the filter. -/
theorem convolve_startOnly (c : ConvolveCpuContext R) (mem : ℤ → R) {x h : SignalVector R}
    (hpos : 0 < h.size) (hle : h.size ≤ x.size) (hint : x.size ≤ 2 ^ 30) :
    ∃ y, convolve c mem x h none .START_ONLY 0 0 = some y ∧ y.size = x.size := by
  obtain ⟨padded, hpadded, hsize⟩ : ∃ padded,
      (if decide (x.start < h.size - 1) = true then x.extend (h.size - 1) 0 else some x) =
        some padded ∧ padded.size = x.size := by
    split_ifs
    · exact ⟨_, extend_eq_some hint _ _, rfl⟩
    · exact ⟨x, rfl, rfl⟩
  have hx : i32 x.size = x.size := i32_natCast (by omega)
  have hh : i32 h.size = h.size := i32_natCast (by omega)
  have hbounds : boundsCheck x.size h.size x.size (i32 (0 : ℕ)) x.size = 0 := by
    rw [i32_natCast (by decide), boundsCheck, if_neg (by omega), if_neg (by omega)]
  unfold convolve
  simp only [Span.of, Option.elim_none, Bool.false_eq_true, if_false, Option.getD_none, hpadded,
    hsize, hx, hh]
  rw [if_neg]
  · exact ⟨_, rfl, rfl⟩
  · rw [kernel_fst c h.real h.aligned _ _ _ hbounds]
    exact not_lt.mpr (Int.natCast_nonneg _)

end Dsp
end OsmoTrx
