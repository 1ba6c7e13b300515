import OsmoTrx.Lib.Blocks
import OsmoTrx.Dsp.DelayVector
import OsmoTrx.Dsp.SpanConvolve

/-!
# Signal vectors and their memory

`signalVector` of `signalVector.cpp` over `Vector.h`, with the memory that its pointers go to: the
constructors that copy, the assignment and `segment`.  `size_t` counts the cells of memory that
exists, so its range plays no part; `none` is an access outside of live memory, a failed assertion
or a loop that does not end.

* `resize_spec` — new memory in place of the old one.
* `extendConstruct_spec`, `assign_spec`, `assign_self` — what the copies hold.
* `Holds.extend`, `Holds.copy` — these are the copies that the signal processing computes with.
* `value_semantics_iff` — **when a vector behaves like a value**: copies of fewer than 2³² samples
  do; assignment leaves the flags out, and a segment is taken from the head room on and owns the
  memory of its vector.
-/

namespace OsmoTrx
namespace Dsp
namespace VectorMemory

/-! ## The code -/

/-- `Symmetry`. -/
inductive Symmetry
  | NONE
  | ABSSYM
  deriving DecidableEq, Repr

/-- `signalVector`: its block, and where the samples start and end by their distance from it.  An
allocation function is given by what is in the memory that it returns for a size. -/
structure SignalVectorMem (C : Type*) where
  mData : Option ℕ
  mStart : ℕ
  mEnd : ℕ
  mAllocFunc : Option (ℕ → ℕ → C)
  mFreeFunc : Bool
  real : Bool
  aligned : Bool
  symmetry : Symmetry

namespace SignalVectorMem

variable {C : Type*}

def size (v : SignalVectorMem C) : ℕ := v.mEnd - v.mStart

def getStart (v : SignalVectorMem C) : ℕ := v.mStart

/-- `Vector(0)`. -/
def empty : SignalVectorMem C := ⟨none, 0, 0, none, false, false, false, .NONE⟩

/-- `(*this)[index]`. -/
def read (v : SignalVectorMem C) (m : Blocks C) (index : ℕ) : Option C :=
  if v.mStart + index < v.mEnd then m.load v.mData (v.mStart + index) else none

/-- What is in new memory: the default constructor of the elements is called for `new T[]`. -/
def newCells [Zero C] (v : SignalVectorMem C) (newSize : ℕ) : List C :=
  match v.mAllocFunc with
  | none => List.replicate newSize 0
  | some allocFunc => (List.range newSize).map (allocFunc newSize)

def resize [Zero C] (v : SignalVectorMem C) (newSize : ℕ) (m : Blocks C) :
    Option (SignalVectorMem C × Blocks C) := do
  let m ← m.free v.mFreeFunc v.mData
  if newSize = 0 then some ({ v with mData := none, mStart := 0, mEnd := 0 }, m)
  else
    let (mData, m) := m.alloc v.mAllocFunc.isSome (v.newCells newSize)
    some ({ v with mData := some mData, mStart := 0, mEnd := newSize }, m)

/-- `~Vector`. -/
def destroy [Zero C] (v : SignalVectorMem C) (m : Blocks C) : Option (Blocks C) :=
  (v.resize 0 m).map Prod.snd

def copyToSegment (v other : SignalVectorMem C) (start span : ℕ) (m : Blocks C) :
    Option (Blocks C) :=
  if other.mStart + start + span ≤ other.mEnd ∧ v.mStart + span ≤ v.mEnd then
    m.copy span v.mData v.mStart other.mData (other.mStart + start)
  else none

def copyTo (v other : SignalVectorMem C) (m : Blocks C) : Option (Blocks C) :=
  v.copyToSegment other 0 v.size m

/-- The copy constructor. -/
def copyConstruct [Zero C] (vector : SignalVectorMem C) (m : Blocks C) :
    Option (SignalVectorMem C × Blocks C) := do
  let (v, m) ← empty.resize (vector.size + vector.getStart) m
  let v := { v with mStart := vector.getStart }
  let m ← vector.copyTo v m
  some ({ v with symmetry := vector.symmetry, real := vector.real }, m)

/-- The constructor with head and tail room. -/
def extendConstruct [Zero C] (vector : SignalVectorMem C) (start tail : ℕ) (m : Blocks C) :
    Option (SignalVectorMem C × Blocks C) := do
  let (v, m) ← empty.resize (start + vector.size + tail) m
  let v := { v with mStart := start }
  let m ← vector.copyTo v m
  some ({ v with symmetry := vector.symmetry, real := vector.real }, m)

/-- `operator=`; `self` if the vector that is assigned is this one. -/
def assign [Zero C] (v vector : SignalVectorMem C) (self : Bool) (m : Blocks C) :
    Option (SignalVectorMem C × Blocks C) := do
  let (v, m) ← v.resize (vector.size + vector.getStart) m
  let vector := if self then v else vector
  let m ← m.copy v.size vector.mData 0 v.mData 0
  some ({ v with mStart := vector.getStart }, m)

/-- `segment`. -/
def segment (v : SignalVectorMem C) (start span : ℕ) : SignalVectorMem C :=
  ⟨v.mData, start, start + span, none, false, false, false, .NONE⟩

/-! ## Owned memory -/

/-- The vector lies in a live block that its function for freeing belongs to, or is empty. -/
structure Owned (v : SignalVectorMem C) (m : Blocks C) : Prop where
  le : v.mStart ≤ v.mEnd
  live : ∀ b, v.mData = some b → b ∈ m.heap.live ∧ m.kind b = v.mFreeFunc
  load : ∀ o < v.mEnd, (m.load v.mData o).isSome

variable {v w vector : SignalVectorMem C} {m m' : Blocks C}

theorem Owned.read (h : v.Owned m) {i : ℕ} (hi : i < v.size) :
    ∃ c, v.read m i = some c ∧ m.load v.mData (v.mStart + i) = some c := by
  have hlt : v.mStart + i < v.mEnd := by
    rw [size] at hi
    omega
  obtain ⟨c, hc⟩ := Option.isSome_iff_exists.mp (h.load _ hlt)
  exact ⟨c, by rw [SignalVectorMem.read, if_pos hlt, hc], hc⟩

theorem Owned.mEnd_eq (h : v.Owned m) : v.size + v.getStart = v.mEnd :=
  Nat.sub_add_cancel h.le

theorem owned_empty (m : Blocks C) : empty.Owned m :=
  ⟨le_rfl, fun _ hb => absurd hb (Option.some_ne_none _).symm,
    fun o ho => absurd ho (Nat.not_lt_zero o)⟩

theorem Owned.lt (h : v.Owned m) (b : ℕ) (hb : v.mData = some b) : b < m.heap.next :=
  m.heap.live_lt b (h.live b hb).1

/-- A vector that is not empty has a block. -/
theorem Owned.mData_ne (h : v.Owned m) (hpos : 0 < v.mEnd) : v.mData ≠ none := by
  intro hnull
  have hload := h.load 0 hpos
  rw [hnull] at hload
  exact Bool.false_ne_true hload

section Copies

variable [Zero C]

theorem length_newCells (v : SignalVectorMem C) (newSize : ℕ) :
    (v.newCells newSize).length = newSize := by
  unfold newCells
  cases v.mAllocFunc with
  | none => exact List.length_replicate
  | some allocFunc => rw [List.length_map, List.length_range]

theorem newCells_isSome (v : SignalVectorMem C) {newSize k : ℕ} (hk : k < newSize) :
    (v.newCells newSize)[k]?.isSome := by
  rw [List.getElem?_eq_getElem (by rwa [length_newCells])]
  rfl

/-- **New memory** in place of the old one. -/
theorem resize_spec (h : v.Owned m) (newSize : ℕ) :
    ∃ p m', v.resize newSize m = some ({ v with mData := p, mStart := 0, mEnd := newSize }, m') ∧
      (∀ o, m'.load p o = (v.newCells newSize)[o]?) ∧
      ∀ q, (∀ b, q = some b → b < m.heap.next) →
        (q = p → q = none) ∧ ∀ o, m'.load q o = if q = v.mData then none else m.load q o := by
  obtain ⟨m₁, hfree, hnext, hfreed, hothers⟩ := Blocks.load_free h.live
  have hold : ∀ q o, m₁.load q o = if q = v.mData then none else m.load q o := by
    intro q o
    split_ifs with hq
    · rw [hq, hfreed]
    · exact hothers q hq o
  rw [resize, hfree, Option.bind_eq_bind, Option.bind_some]
  by_cases hzero : newSize = 0
  · refine ⟨none, m₁, by rw [if_pos hzero, hzero], fun o => ?_, fun q _ => ⟨id, hold q⟩⟩
    rw [Blocks.load_null, List.getElem?_eq_none (by rw [length_newCells]; omega)]
  · obtain ⟨hnew, hearlier⟩ :=
      Blocks.load_alloc (m := m₁) v.mAllocFunc.isSome (v.newCells newSize)
    refine ⟨_, _, if_neg hzero, hnew, fun q hq => ?_⟩
    obtain ⟨hne, hload⟩ := hearlier q fun b hb => hnext ▸ hq b hb
    exact ⟨fun heq => absurd heq hne, fun o => (hload o).trans (hold q o)⟩

/-- **The copy with head and tail room.** -/
theorem extendConstruct_spec (h : vector.Owned m) (hsize : vector.size < 2 ^ 32)
    (start tail : ℕ) :
    ∃ w m', vector.extendConstruct start tail m = some (w, m') ∧ w.mStart = start ∧
      w.mEnd = start + vector.size + tail ∧ w.real = vector.real ∧
      w.symmetry = vector.symmetry ∧
      (∀ i < vector.size,
        m'.load w.mData (start + i) = m.load vector.mData (vector.mStart + i)) ∧
      w.aligned = false ∧ ∀ o < w.mEnd, ¬ (start ≤ o ∧ o < start + vector.size) →
        m'.load w.mData o = some 0 := by
  obtain ⟨p, m₁, hresize, hnew, hframe⟩ :=
    resize_spec (owned_empty m) (start + vector.size + tail)
  obtain ⟨hne, hframe⟩ := hframe vector.mData h.lt
  have hload : ∀ o, m₁.load vector.mData o = m.load vector.mData o := by
    intro o
    rw [hframe]
    split_ifs with hnull
    · rw [hnull]
      rfl
    · rfl
  have hend := h.mEnd_eq
  rw [getStart] at hend
  have hsrc : ∀ k < vector.size, (m₁.load vector.mData (vector.mStart + k)).isSome := by
    intro k hk
    rw [hload]
    exact h.load _ (by omega)
  have hdst : ∀ k < vector.size, (m₁.load p (start + 0 + k)).isSome := by
    intro k hk
    rw [hnew]
    exact newCells_isSome _ (by omega)
  obtain ⟨m', hcopy, -, hcopied, hroom⟩ := Blocks.copy_spec hsize hsrc hdst fun hpos heq =>
    absurd (hne heq) (h.mData_ne (by omega))
  refine ⟨⟨p, start, start + vector.size + tail, none, false, vector.real, false, vector.symmetry⟩,
    m', ?_, rfl, rfl, rfl, rfl, fun i hi => ?_, rfl, fun o ho hout => ?_⟩
  · have hfits : start + 0 + vector.size ≤ start + vector.size + tail ∧
        vector.mStart + vector.size ≤ vector.mEnd := by omega
    simp only [extendConstruct, hresize, Option.bind_eq_bind, Option.bind_some, copyTo,
      copyToSegment, if_pos hfits, hcopy]
    rfl
  · rw [← hload, ← hcopied i hi]
    rfl
  · rw [hroom p o fun _ => hout, hnew]
    exact (List.getElem?_replicate ..).trans (if_pos ho)

theorem copyConstruct_eq (vector : SignalVectorMem C) (m : Blocks C) :
    vector.copyConstruct m = vector.extendConstruct vector.getStart 0 m := by
  rw [copyConstruct, extendConstruct, Nat.add_zero, Nat.add_comm]

/-- From 2³² samples on the copying does not end. -/
theorem extendConstruct_none (hsize : 2 ^ 32 ≤ vector.size) (start tail : ℕ) :
    vector.extendConstruct start tail m = none := by
  obtain ⟨p, m₁, hresize, -⟩ := resize_spec (owned_empty m) (start + vector.size + tail)
  simp only [extendConstruct, hresize, Option.bind_eq_bind, Option.bind_some, copyTo, copyToSegment,
    Blocks.copy_none hsize, ite_self, Option.bind_none]

/-- **Assignment** to a vector with another block copies the block of the vector. -/
theorem assign_spec (hv : v.Owned m) (h : vector.Owned m)
    (hother : vector.mData = v.mData → vector.mEnd = 0) (hend : vector.mEnd < 2 ^ 32) :
    ∃ w m', v.assign vector false m = some (w, m') ∧ w.mStart = vector.mStart ∧
      w.mEnd = vector.mEnd ∧ w.real = v.real ∧ w.symmetry = v.symmetry ∧
      ∀ o < vector.mEnd, m'.load w.mData o = m.load vector.mData o := by
  obtain ⟨p, m₁, hresize, hnew, hframe⟩ := resize_spec hv vector.mEnd
  have hload : ∀ o < vector.mEnd, m₁.load vector.mData o = m.load vector.mData o := by
    intro o ho
    rw [(hframe vector.mData h.lt).2, if_neg fun heq => by have hzero := hother heq; omega]
  have hsrc : ∀ k < vector.mEnd, (m₁.load vector.mData (0 + k)).isSome := by
    intro k hk
    rw [Nat.zero_add, hload k hk]
    exact h.load k hk
  have hdst : ∀ k < vector.mEnd, (m₁.load p (0 + k)).isSome := by
    intro k hk
    rw [hnew]
    exact newCells_isSome _ (by omega)
  obtain ⟨m', hcopy, -, hcopied, -⟩ := Blocks.copy_spec hend hsrc hdst fun _ _ => rfl
  refine ⟨{ v with mData := p, mStart := vector.mStart, mEnd := vector.mEnd }, m', ?_, rfl, rfl,
    rfl, rfl, fun o ho => ?_⟩
  · rw [assign, h.mEnd_eq, hresize]
    simp only [Option.bind_eq_bind, Option.bind_some, Bool.false_eq_true, if_false, size,
      Nat.sub_zero, hcopy]
    rfl
  · have hcell := hcopied o ho
    rw [Nat.zero_add] at hcell
    rw [← hload o ho, ← hcell]

/-- Assignment to a vector with the same block frees the samples first. -/
theorem assign_shared (hv : v.Owned m) (h : vector.Owned m) (hshared : vector.mData = v.mData)
    (hpos : 0 < vector.mEnd) : v.assign vector false m = none := by
  obtain ⟨p, m₁, hresize, -, hframe⟩ := resize_spec hv vector.mEnd
  have hgone : m₁.load vector.mData 0 = none := by
    rw [(hframe vector.mData h.lt).2, if_pos hshared]
  rw [assign, h.mEnd_eq, hresize]
  simp only [Option.bind_eq_bind, Option.bind_some, Bool.false_eq_true, if_false, size,
    Nat.sub_zero, Blocks.copy_fails hpos hgone, Option.bind_none]

/-- **Assignment to itself** leaves what is in new memory, without head room. -/
theorem assign_self (h : v.Owned m) (hend : v.mEnd < 2 ^ 32) :
    ∃ w m', v.assign v true m = some (w, m') ∧ w.mStart = 0 ∧ w.mEnd = v.mEnd ∧
      w.real = v.real ∧ w.symmetry = v.symmetry ∧
      ∀ o < v.mEnd, m'.load w.mData o = (v.newCells v.mEnd)[o]? := by
  obtain ⟨p, m₁, hresize, hnew, -⟩ := resize_spec h v.mEnd
  have hcells : ∀ k < v.mEnd, (m₁.load p (0 + k)).isSome := by
    intro k hk
    rw [hnew]
    exact newCells_isSome _ (by omega)
  obtain ⟨m', hcopy, -, hcopied, -⟩ := Blocks.copy_spec hend hcells hcells (fun _ _ => rfl)
  refine ⟨{ v with mData := p, mStart := 0 }, m', ?_, rfl, rfl, rfl, rfl, fun o ho => ?_⟩
  · rw [assign, h.mEnd_eq, hresize]
    simp only [Option.bind_eq_bind, Option.bind_some, if_true, size, Nat.sub_zero, hcopy]
    rfl
  · have hcell := hcopied o ho
    rw [Nat.zero_add] at hcell
    rw [← hnew, ← hcell]

theorem assign_none (hv : v.Owned m) (h : vector.Owned m) (hend : 2 ^ 32 ≤ vector.mEnd)
    (self : Bool) : v.assign vector self m = none := by
  obtain ⟨p, m₁, hresize, -⟩ := resize_spec hv vector.mEnd
  rw [assign, h.mEnd_eq, hresize]
  simp only [Option.bind_eq_bind, Option.bind_some, size, Nat.sub_zero, Blocks.copy_none hend,
    Option.bind_none]

/-! ## Values -/

/-- A vector is like another one was. -/
structure Agrees (v : SignalVectorMem C) (m : Blocks C) (w : SignalVectorMem C) (m' : Blocks C) :
    Prop where
  size : w.size = v.size
  start : w.getStart = v.getStart
  samples : ∀ i < v.size, ∃ c, v.read m i = some c ∧ w.read m' i = some c
  real : w.real = v.real
  symmetry : w.symmetry = v.symmetry

/-- A copy agrees with the vector. -/
def CopyAgrees (v : SignalVectorMem C) (m : Blocks C) : Prop :=
  ∃ w m', v.copyConstruct m = some (w, m') ∧ v.Agrees m w m'

/-- The vector has been assigned to `t`, which agrees with it then. -/
def AssignAgrees (t v : SignalVectorMem C) (self : Bool) (m : Blocks C) : Prop :=
  ∃ w m', t.assign v self m = some (w, m') ∧ v.Agrees m w m'

/-- A copy has the samples of the vector between the room in front of them and behind. -/
def Surrounds (v : SignalVectorMem C) (start tail : ℕ) (m : Blocks C) : Prop :=
  ∃ w m', v.extendConstruct start tail m = some (w, m') ∧ w.getStart = start ∧
    w.size = v.size + tail ∧
    (∀ i < v.size, ∃ c, v.read m i = some c ∧ w.read m' i = some c) ∧ w.real = v.real ∧
    w.symmetry = v.symmetry

/-- The samples of a segment are those of the vector. -/
def SegmentReads (v : SignalVectorMem C) (m : Blocks C) : Prop :=
  ∀ start span, start + span ≤ v.size → ∀ i < span,
    ∃ c, v.read m (start + i) = some c ∧ (v.segment start span).read m i = some c

/-- The vector has its memory when a segment has been destroyed. -/
def SegmentLeaves (v : SignalVectorMem C) (start span : ℕ) (m : Blocks C) : Prop :=
  ∃ m', (v.segment start span).destroy m = some m' ∧ ∀ b, v.mData = some b → b ∈ m'.heap.live

theorem surrounds_iff (h : v.Owned m) (start tail : ℕ) :
    v.Surrounds start tail m ↔ v.size < 2 ^ 32 := by
  constructor
  · rintro ⟨w, m', hw, -⟩
    by_contra hsize
    rw [extendConstruct_none (by omega)] at hw
    exact absurd hw.symm (Option.some_ne_none _)
  · intro hsize
    obtain ⟨w, m', hw, hstart, hend, hreal, hsymmetry, hload, -⟩ :=
      extendConstruct_spec h hsize start tail
    refine ⟨w, m', hw, hstart, by rw [size]; omega, fun i hi => ?_, hreal, hsymmetry⟩
    obtain ⟨c, hread, hc⟩ := h.read hi
    exact ⟨c, hread, by rw [SignalVectorMem.read, if_pos (by omega), hstart, hload i hi, hc]⟩

theorem copyAgrees_iff (h : v.Owned m) : v.CopyAgrees m ↔ v.size < 2 ^ 32 := by
  rw [← surrounds_iff h v.getStart 0]
  constructor
  · rintro ⟨w, m', hw, hsize, hstart, hsamples, hreal, hsymmetry⟩
    exact ⟨w, m', copyConstruct_eq v m ▸ hw, hstart, hsize, hsamples, hreal, hsymmetry⟩
  · rintro ⟨w, m', hw, hstart, hsize, hsamples, hreal, hsymmetry⟩
    exact ⟨w, m', copyConstruct_eq v m ▸ hw, hsize, hstart, hsamples, hreal, hsymmetry⟩

theorem assignAgrees_iff {t : SignalVectorMem C} (ht : t.Owned m) (h : v.Owned m) :
    t.AssignAgrees v false m ↔ (v.mData = t.mData → v.mEnd = 0) ∧
      v.size + v.getStart < 2 ^ 32 ∧ t.real = v.real ∧ t.symmetry = v.symmetry := by
  rw [h.mEnd_eq]
  have hnone : t.assign v false m = none → ¬ t.AssignAgrees v false m := by
    rintro hfails ⟨w, m', hw, -⟩
    exact absurd (hw.symm.trans hfails) (Option.some_ne_none _)
  by_cases hend : v.mEnd < 2 ^ 32
  · by_cases hother : v.mData = t.mData → v.mEnd = 0
    · obtain ⟨w, m', hw, hstart, hend', hreal, hsymmetry, hload⟩ := assign_spec ht h hother hend
      constructor
      · rintro ⟨w', m'', hw', hagrees⟩
        obtain ⟨rfl, rfl⟩ := Prod.mk.inj (Option.some.inj (hw'.symm.trans hw))
        exact ⟨hother, hend, hreal.symm.trans hagrees.real,
          hsymmetry.symm.trans hagrees.symmetry⟩
      · rintro ⟨-, -, hreal', hsymmetry'⟩
        refine ⟨w, m', hw, by rw [size, size, hstart, hend'], hstart, fun i hi => ?_,
          hreal.trans hreal', hsymmetry.trans hsymmetry'⟩
        obtain ⟨c, hread, hc⟩ := h.read hi
        have hlt : v.mStart + i < v.mEnd := by
          rw [size] at hi
          omega
        exact ⟨c, hread, by rw [SignalVectorMem.read, hstart, hend', if_pos hlt, hload _ hlt, hc]⟩
    · refine iff_of_false (hnone ?_) fun hcond => hother hcond.1
      obtain ⟨hshared, hpos⟩ := Classical.not_imp.mp hother
      exact assign_shared ht h hshared (Nat.pos_of_ne_zero hpos)
  · exact iff_of_false (hnone (assign_none ht h (by omega) false)) fun hcond => hend hcond.2.1

/-- The new memory has to hold the samples already. -/
theorem selfAssignAgrees_iff (h : v.Owned m) :
    v.AssignAgrees v true m ↔ v.size < 2 ^ 32 ∧ v.getStart = 0 ∧
      ∀ i < v.size, v.read m i = (v.newCells v.size)[i]? := by
  have hsum := h.mEnd_eq
  by_cases hend : v.mEnd < 2 ^ 32
  · obtain ⟨w, m', hw, hstart, hend', hreal, hsymmetry, hload⟩ := assign_self h hend
    have hread : ∀ i < v.mEnd, w.read m' i = (v.newCells v.mEnd)[i]? := by
      intro i hi
      rw [SignalVectorMem.read, hstart, hend', Nat.zero_add, if_pos hi, hload i hi]
    constructor
    · rintro ⟨w', m'', hw', hagrees⟩
      obtain ⟨rfl, rfl⟩ := Prod.mk.inj (Option.some.inj (hw'.symm.trans hw))
      have hzero : v.getStart = 0 := hagrees.start.symm.trans hstart
      rw [hzero, Nat.add_zero] at hsum
      refine ⟨by omega, hzero, fun i hi => ?_⟩
      obtain ⟨c, hv, hc⟩ := hagrees.samples i hi
      rw [hv, hsum, ← hread i (hsum ▸ hi), hc]
    · rintro ⟨-, hzero, hsamples⟩
      rw [hzero, Nat.add_zero] at hsum
      refine ⟨w, m', hw, by rw [size, hstart, hend', hsum, Nat.sub_zero], hstart.trans hzero.symm,
        fun i hi => ?_, hreal, hsymmetry⟩
      obtain ⟨c, hc, -⟩ := h.read hi
      exact ⟨c, hc, by rw [hread i (hsum ▸ hi), ← hsum, ← hsamples i hi, hc]⟩
  · refine iff_of_false ?_ fun hcond => hend (by omega)
    rintro ⟨w, m', hw, -⟩
    rw [assign_none h h (by omega)] at hw
    exact absurd hw.symm (Option.some_ne_none _)

omit [Zero C] in
theorem segment_read (start : ℕ) {span i : ℕ} (hi : i < span) :
    (v.segment start span).read m i = m.load v.mData (start + i) :=
  if_pos (Nat.add_lt_add_left hi start)

omit [Zero C] in
theorem segmentReads_iff (h : v.Owned m) : v.SegmentReads m ↔
    ∀ j < v.size, m.load v.mData j = m.load v.mData (v.getStart + j) := by
  constructor
  · intro hreads j hj
    obtain ⟨c, hv, hs⟩ := hreads 0 v.size (Nat.zero_add _).le j hj
    rw [segment_read 0 hj, Nat.zero_add] at hs
    rw [Nat.zero_add] at hv
    obtain ⟨c', hread, hc⟩ := h.read hj
    rw [hs, getStart, hc, ← hread, hv]
  · intro hrepeats start span hfits i hi
    obtain ⟨c, hread, hc⟩ := h.read (show start + i < v.size by omega)
    refine ⟨c, hread, ?_⟩
    rw [segment_read start hi]
    exact (hrepeats (start + i) (by omega)).trans hc

/-- A segment takes the memory with it. -/
theorem segmentLeaves_iff (start span : ℕ) : v.SegmentLeaves start span m ↔ v.mData = none := by
  constructor
  · rintro ⟨m', hdestroy, hlive⟩
    cases hv : v.mData with
    | none => rfl
    | some b =>
      have hmem := hlive b hv
      rw [destroy, resize, segment, hv] at hdestroy
      simp only [Blocks.free, Heap.delete] at hdestroy
      split_ifs at hdestroy
      · simp only [Option.map_some, Option.bind_eq_bind, Option.bind_some,
          Option.some.injEq] at hdestroy
        rw [← hdestroy] at hmem
        exact absurd rfl (Finset.ne_of_mem_erase hmem)
      · simp at hdestroy
      · simp at hdestroy
  · intro hv
    refine ⟨m, ?_, fun b hb => absurd (hv.symm.trans hb).symm (Option.some_ne_none b)⟩
    rw [destroy, resize, segment, hv]
    rfl

/-- **When a vector behaves like a value.** -/
theorem value_semantics_iff (h : v.Owned m) :
    (v.CopyAgrees m ↔ v.size < 2 ^ 32) ∧
      (∀ start tail, v.Surrounds start tail m ↔ v.size < 2 ^ 32) ∧
      (∀ t : SignalVectorMem C, t.Owned m →
        (t.AssignAgrees v false m ↔ (v.mData = t.mData → v.mEnd = 0) ∧
          v.size + v.getStart < 2 ^ 32 ∧ t.real = v.real ∧ t.symmetry = v.symmetry)) ∧
      (v.AssignAgrees v true m ↔ v.size < 2 ^ 32 ∧ v.getStart = 0 ∧
        ∀ i < v.size, v.read m i = (v.newCells v.size)[i]?) ∧
      (v.SegmentReads m ↔ ∀ j < v.size, m.load v.mData j = m.load v.mData (v.getStart + j)) ∧
      ∀ start span, start + span ≤ v.size → (v.SegmentLeaves start span m ↔ v.mData = none) :=
  ⟨copyAgrees_iff h, surrounds_iff h, fun _ ht => assignAgrees_iff ht h,
    selfAssignAgrees_iff h, segmentReads_iff h, fun start span _ => segmentLeaves_iff start span⟩

end Copies

/-! ## The vectors of the signal processing -/

section Holds

variable {R : Type*} {x : SignalVector R}

/-- The memory of a vector holds the samples of `x`, those of its head room included. -/
structure Holds (v : SignalVectorMem (R × R)) (m : Blocks (R × R)) (x : SignalVector R) :
    Prop where
  size : v.size = x.size
  start : v.getStart = x.start
  real : v.real = x.real
  aligned : v.aligned = x.aligned
  samples : ∀ o < v.mEnd, m.load v.mData o = some (x.sample ((o : ℤ) - v.mStart))

variable [CommRing R] {v : SignalVectorMem (R × R)} {m : Blocks (R × R)}

/-- **A copy with head and tail room** holds what `SignalVector.extend` says. -/
theorem Holds.extend (h : v.Holds m x) (hv : v.Owned m) (hsize : x.size < 2 ^ 32)
    (start tail : ℕ) :
    ∃ w m' y, v.extendConstruct start tail m = some (w, m') ∧ x.extend start tail = some y ∧
      w.Holds m' y := by
  have hend := hv.mEnd_eq
  rw [getStart] at hend
  obtain ⟨w, m', hw, hstart, hend', hreal, -, hload, haligned, hroom⟩ :=
    extendConstruct_spec hv (h.size ▸ hsize) start tail
  refine ⟨w, m', x.withRoom start tail, hw, if_pos hsize, ?_, hstart, hreal.trans h.real, haligned,
    fun o ho => ?_⟩
  · change w.mEnd - w.mStart = x.size + tail
    rw [← h.size]
    omega
  · rw [SignalVector.sample_withRoom, hstart, ← h.size]
    by_cases hin : start ≤ o ∧ o < start + v.size
    · obtain ⟨i, rfl⟩ := Nat.exists_eq_add_of_le hin.1
      rw [hload i (by omega), h.samples _ (by omega), if_pos (by omega)]
      congr 2
      push_cast
      ring
    · rw [hroom o ho hin, if_neg (by omega)]

/-- **The copy constructor** makes the vector that `delayVector` works on. -/
theorem Holds.copy (h : v.Holds m x) (hv : v.Owned m) (hsize : x.size < 2 ^ 32) :
    ∃ w m' y, v.copyConstruct m = some (w, m') ∧ x.copy = some y ∧ w.Holds m' y := by
  rw [copyConstruct_eq, h.start]
  exact h.extend hv hsize x.start 0

end Holds

/-! ## Two samples behind one of head room -/

section Short

/-- A block with three cells. -/
def shortBlock : Blocks ℤ :=
  ⟨⟨1, {0}, fun _ ha => by rw [Finset.mem_singleton.mp ha]; exact one_pos⟩, fun _ => [7, 8, 9],
    fun _ => false⟩

/-- A vector in it, which is real. -/
def shortVector : SignalVectorMem ℤ := ⟨some 0, 1, 3, none, false, true, false, .ABSSYM⟩

theorem shortVector_owned : shortVector.Owned shortBlock := by
  refine ⟨by decide, fun b hb => ?_, fun o ho => ?_⟩
  · rw [← Option.some.inj hb]
    decide
  · have hlt : o < 3 := ho
    interval_cases o <;> rfl

/-- The vector can be copied, but not assigned to an empty vector with other flags. -/
theorem value_semantics_short :
    shortVector.CopyAgrees shortBlock ∧ shortVector.Surrounds 2 3 shortBlock ∧
      ¬ SignalVectorMem.AssignAgrees empty shortVector false shortBlock := by
  obtain ⟨hcopy, hsurrounds, hassign, -⟩ := value_semantics_iff shortVector_owned
  refine ⟨hcopy.mpr (by decide), (hsurrounds 2 3).mpr (by decide), fun hagrees => ?_⟩
  exact absurd ((hassign empty (owned_empty _)).mp hagrees).2.2.1 (by decide)

/-- It loses its flags in an assignment, its first sample in a segment and its memory with it. -/
theorem value_semantics_lost :
    shortVector.Owned shortBlock ∧
      (∃ w m', SignalVectorMem.assign empty shortVector false shortBlock = some (w, m') ∧
        w.real = false ∧ w.symmetry = .NONE) ∧
      shortVector.read shortBlock 0 = some 8 ∧
      (shortVector.segment 0 1).read shortBlock 0 = some 7 ∧
      ∃ m', (shortVector.segment 0 1).destroy shortBlock = some m' ∧ 0 ∉ m'.heap.live := by
  refine ⟨shortVector_owned, ⟨_, _, rfl, rfl, rfl⟩, rfl, rfl, _, rfl, ?_⟩
  exact Finset.notMem_erase 0 _

end Short

end SignalVectorMem
end VectorMemory
end Dsp
end OsmoTrx
