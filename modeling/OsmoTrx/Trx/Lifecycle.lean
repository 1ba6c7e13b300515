import OsmoTrx.Lib.Heap
import OsmoTrx.Lib.Loop
import OsmoTrx.Lib.Run

/-!
# The tables of `sigProcLib` on a heap

`sigProcLibSetup` and `sigProcLibDestroy` with every `new`, `delete` and `free`.  Vectors,
sequences, pulses, resamplers and raw buffers are objects with an identity; a pointer is the object
that it points to, with the members that its destructor deletes.  A global table is a `Global` for
each of its cells.  What `modulateBurst` and `convolve` use for themselves they free again; they
leave a new vector or NULL.

* `Owned` — every live object belongs to one global, or is lost.
* `generateSequence_spec`, `sigProcLibSetup_spec`, `sigProcLibDestroy_spec` — calls that go well.
* `generateSequence_dangles`, `generateSequence_frees_twice` — calls that do not.
* `lifecycle_iff` — **nothing dangles and nothing is freed twice** just if `sigProcLibDestroy` is
  only called when there is no resampler, and no call of `sigProcLibSetup` meets a failure that is
  not cleaned up.
-/

namespace OsmoTrx
namespace Trx
namespace Lifecycle

/-! ## Objects -/

/-- A `signalVector` and its data. -/
structure SignalVector where
  self : ℕ
  mData : Option ℕ
  deriving DecidableEq

structure CorrelationSequence where
  self : ℕ
  sequence : Option SignalVector
  deriving DecidableEq

structure PulseSequence where
  self : ℕ
  c0 : Option SignalVector
  c1 : Option SignalVector
  c0_inv : Option SignalVector
  empty : Option SignalVector
  deriving DecidableEq

structure Resampler where
  self : ℕ
  partitions : List (Option ℕ)
  deriving DecidableEq

/-- `delete` of a vector: `clear`, and the vector itself. -/
def SignalVector.delete (h : Heap) : Option SignalVector → Option Heap
  | none => some h
  | some v => do
    let h ← h.delete v.mData
    h.delete (some v.self)

/-- What a global points to. -/
inductive Object where
  | signalVector (v : SignalVector)
  | correlationSequence (c : CorrelationSequence)
  | pulseSequence (p : PulseSequence)
  | resampler (r : Resampler)
  deriving DecidableEq

namespace Object

def self : Object → ℕ
  | signalVector v => v.self
  | correlationSequence c => c.self
  | pulseSequence p => p.self
  | resampler r => r.self

/-- The destructors. -/
def destructor (h : Heap) : Object → Option Heap
  | signalVector v => h.delete v.mData
  | correlationSequence c => SignalVector.delete h c.sequence
  | pulseSequence p => do
    let h ← SignalVector.delete h p.c0
    let h ← SignalVector.delete h p.c1
    let h ← SignalVector.delete h p.c0_inv
    SignalVector.delete h p.empty
  | resampler r => r.partitions.foldlM Heap.delete h

/-- `delete`. -/
def delete (h : Heap) : Option Object → Option Heap
  | none => some h
  | some o => do
    let h ← o.destructor h
    h.delete (some o.self)

end Object

/-! ## The library -/

/-- The global pointers. -/
inductive Global where
  | GMSKRotation4
  | GMSKReverseRotation4
  | GMSKRotation1
  | GMSKReverseRotation1
  | delayFilters (i : Fin 64)
  | dnsampler
  | gMidambles (tsc : Fin 8)
  | gEdgeMidambles (tsc : Fin 8)
  | gRACHSequences (i : Fin 3)
  | GSMPulse1
  | GSMPulse4
  deriving DecidableEq, Fintype

structure Library where
  tables : Global → Option Object
  heap : Heap

/-- All pointers are NULL before the first call. -/
def initial : Library := ⟨fun _ => none, ⟨0, ∅, by simp⟩⟩

/-- `g = p`, with the heap as it is then. -/
def Library.assign (s : Library) (g : Global) (p : Option Object) (h : Heap) : Library :=
  ⟨Function.update s.tables g p, h⟩

/-! ## `sigProcLibDestroy` -/

/-- `delete g; g = NULL`. -/
def Library.clear (s : Library) (g : Global) : Option Library :=
  (Object.delete s.heap (s.tables g)).map (s.assign g none)

/-- The tables that `sigProcLibDestroy` deletes and sets to NULL. -/
def clearTables (s : Library) : Option Library := do
  let s ← (List.finRange 8).foldlM
    (fun s i => (s.clear (.gMidambles i)).bind fun s => s.clear (.gEdgeMidambles i)) s
  let s ← (List.finRange 64).foldlM (fun s i => s.clear (.delayFilters i)) s
  let s ← (List.finRange 3).foldlM (fun s i => s.clear (.gRACHSequences i)) s
  let s ← s.clear .GMSKRotation1
  let s ← s.clear .GMSKReverseRotation1
  let s ← s.clear .GMSKRotation4
  let s ← s.clear .GMSKReverseRotation4
  let s ← s.clear .GSMPulse1
  s.clear .GSMPulse4

/-- `sigProcLibDestroy`.  `dnsampler` is deleted and keeps its value. -/
def sigProcLibDestroy (s : Library) : Option Library := do
  let s ← clearTables s
  let h ← Object.delete s.heap (s.tables .dnsampler)
  some { s with heap := h }

/-! ## `sigProcLibSetup` -/

/-- `new signalVector(n)`, with data of its own. -/
def newVector (h : Heap) : SignalVector × Heap :=
  (⟨h.new.1, some h.new.2.new.1⟩, h.new.2.new.2)

/-- `new signalVector(data, …)`. -/
def newVectorOn (h : Heap) (data : ℕ) : SignalVector × Heap := (⟨h.new.1, some data⟩, h.new.2)

/-- `new signalVector((complex *) convolve_h_alloc(n), …)`. -/
def newAligned (h : Heap) : SignalVector × Heap := newVectorOn h.new.2 h.new.1

/-- `g = new …`. -/
def Library.create (s : Library) (g : Global) (make : Heap → Object × Heap) : Library :=
  s.assign g (some (make s.heap).1) (make s.heap).2

def makeVector (h : Heap) : Object × Heap := (.signalVector (newVector h).1, (newVector h).2)

def makeAligned (h : Heap) : Object × Heap := (.signalVector (newAligned h).1, (newAligned h).2)

def initGMSKRotationTables (s : Library) : Library :=
  (((s.create .GMSKRotation4 makeVector).create .GMSKReverseRotation4 makeVector).create
    .GMSKRotation1 makeVector).create .GMSKReverseRotation1 makeVector

/-- `generateGSMPulse`, with its vectors in the order in which they are made. -/
def generateGSMPulse (sps : ℕ) (h : Heap) : Object × Heap :=
  let (self, h) := h.new
  let (empty, h) := newVector h
  let (c0, h) := newAligned h
  let (c1, h) := if sps = 4 then (some (newAligned h).1, (newAligned h).2) else (none, h)
  let (c0_inv, h) := newAligned h
  (.pulseSequence ⟨self, c0, c1, c0_inv, empty⟩, h)

/-- Whether the calls give a vector, in the order in which they are made. -/
structure BurstResults where
  first : Bool
  second : Bool
  autocorr : Bool
  deriving DecidableEq

/-- The code at `release`. -/
def release (status : Bool) (temps : List (Option SignalVector)) (sequence : Option SignalVector)
    (data : Option ℕ) (slot : Option Object) (h : Heap) : Option (Option Object × Heap) := do
  let h ← temps.foldlM SignalVector.delete h
  if status then some (slot, h)
  else
    let h ← SignalVector.delete h sequence
    let h ← h.delete data
    some (none, h)

/-- Two bursts in the order in which they are deleted. -/
def bursts (swap : Bool) (first second : Option SignalVector) : List (Option SignalVector) :=
  if swap then [second, first] else [first, second]

/-- A correlation sequence from two bursts, of which `release` deletes the second first if
`swap`. -/
def generateSequence (swap : Bool) (r : BurstResults) (slot : Option Object) (h : Heap) :
    Option (Option Object × Heap) := do
  let h ← Object.delete h slot
  if r.first = false then
    -- returns without touching the pointer
    some (slot, h)
  else
    let (first, h) := newVector h
    if r.second = false then release false (none :: bursts swap first none) none none slot h
    else
      let (second, h) := newVector h
      let (data, h) := h.new
      let (sequence, h) := newVectorOn h data
      if r.autocorr = false then
        release false (none :: bursts swap first second) sequence data slot h
      else
        let (autocorr, h) := newVector h
        let (self, h) := h.new
        release true (some autocorr :: bursts swap first second) sequence data
          (some (.correlationSequence ⟨self, some sequence⟩)) h

/-- `generateMidamble`: `midMidamble`, then `midamble`. -/
def generateMidamble := generateSequence true

/-- `generateRACHSequence`: `seq0`, then `seq1`. -/
def generateRACHSequence := generateSequence false

/-- `generateEdgeMidamble`, where `modulateEdgeBurst` may give NULL. -/
def generateEdgeMidamble (burst : Bool) (h : Heap) : Option (Option Object × Heap) :=
  if burst = false then some (none, h)
  else
    let (midamble, h) := newVector h
    let (data, h) := h.new
    let (sequence, h) := newVectorOn h data
    let (self, h) := h.new
    (SignalVector.delete h (some midamble)).map fun h =>
      (some (.correlationSequence ⟨self, some sequence⟩), h)

/-- `new Resampler(1, 4)`. -/
def makeResampler (h : Heap) : Object × Heap := (.resampler ⟨h.new.1, [none]⟩, h.new.2)

/-- `new Resampler(1, 4)` and `init`, which allocates the partitions. -/
def makeInitialized (h : Heap) : Object × Heap :=
  (.resampler ⟨h.new.1, [some h.new.2.new.1]⟩, h.new.2.new.2)

/-- What the calls in `sigProcLibSetup` give. -/
structure Results where
  rach : Fin 3 → BurstResults
  midamble : Fin 8 → BurstResults
  edge : Fin 8 → Bool
  init : Bool

/-- A generator, for a global that it may use before it is assigned. -/
def Library.generate (s : Library) (g : Global)
    (generator : Option Object → Heap → Option (Option Object × Heap)) : Option Library :=
  (generator (s.tables g) s.heap).map fun p => s.assign g p.1 p.2

def generateDelayFilters (s : Library) : Library :=
  (List.finRange 64).foldl (fun s i => s.create (.delayFilters i) makeAligned) s

/-- The first tables of `sigProcLibSetup`. -/
def generateFixed (s : Library) : Library :=
  ((initGMSKRotationTables s).create .GSMPulse1 (generateGSMPulse 1)).create .GSMPulse4
    (generateGSMPulse 4)

/-- The three calls of `generateRACHSequence`. -/
def generateRACHSequences (r : Results) (s : Library) : Option Library :=
  (List.finRange 3).foldlM
    (fun s i => s.generate (.gRACHSequences i) (generateRACHSequence (r.rach i))) s

/-- A turn of the loop over training sequences. -/
def generateTsc (r : Results) (s : Library) (tsc : Fin 8) : Option Library :=
  (s.generate (.gMidambles tsc) (generateMidamble (r.midamble tsc))).bind fun s =>
    s.generate (.gEdgeMidambles tsc) fun _ => generateEdgeMidamble (r.edge tsc)

/-- `sigProcLibSetup`. -/
def sigProcLibSetup (r : Results) (s : Library) : Option Library := do
  let s := generateFixed s
  let s ← generateRACHSequences r s
  let s ← (List.finRange 8).foldlM (generateTsc r) s
  let s := generateDelayFilters s
  if r.init then some (s.create .dnsampler makeInitialized)
  else sigProcLibDestroy (s.create .dnsampler makeResampler)

/-! ## What objects own -/

/-- A vector and its data. -/
def SignalVector.parts : Option SignalVector → Multiset (Option ℕ)
  | none => 0
  | some v => Heap.ptr v.mData + {some v.self}

namespace Object

/-- What the destructor deletes. -/
def members : Object → Multiset (Option ℕ)
  | signalVector v => Heap.ptr v.mData
  | correlationSequence c => SignalVector.parts c.sequence
  | pulseSequence p => SignalVector.parts p.c0 +
      (SignalVector.parts p.c1 + (SignalVector.parts p.c0_inv + SignalVector.parts p.empty))
  | resampler r => (r.partitions.map Heap.ptr).sum

/-- An object and its members. -/
def parts : Option Object → Multiset (Option ℕ)
  | none => 0
  | some o => o.members + {some o.self}

end Object

section Delete

variable {h : Heap} {owners : Multiset (Option ℕ)}

theorem SignalVector.delete_spec {v : Option SignalVector} (ho : h.Owns (parts v + owners)) :
    ∃ h', SignalVector.delete h v = some h' ∧ h'.Owns owners := by
  cases v with
  | none => exact ⟨h, rfl, by simpa [parts] using ho⟩
  | some v =>
    rw [parts, add_assoc] at ho
    obtain ⟨h₁, hdata, ho₁⟩ := ho.delete_ptr
    obtain ⟨h', hself, ho'⟩ := Heap.Owns.delete (p := some v.self) (by simpa using ho₁)
    exact ⟨h', by simp [SignalVector.delete, hdata, hself], ho'⟩

theorem Object.destructor_spec {o : Object} (ho : h.Owns (o.members + owners)) :
    ∃ h', o.destructor h = some h' ∧ h'.Owns owners := by
  cases o with
  | signalVector v => exact ho.delete_ptr
  | correlationSequence c => exact SignalVector.delete_spec ho
  | pulseSequence p =>
    rw [members, add_assoc, add_assoc, add_assoc] at ho
    obtain ⟨h₁, h0, ho₁⟩ := SignalVector.delete_spec ho
    obtain ⟨h₂, h1, ho₂⟩ := SignalVector.delete_spec ho₁
    obtain ⟨h₃, hinv, ho₃⟩ := SignalVector.delete_spec ho₂
    obtain ⟨h', hempty, ho'⟩ := SignalVector.delete_spec ho₃
    exact ⟨h', by simp [destructor, h0, h1, hinv, hempty], ho'⟩
  | resampler r =>
    exact Heap.Owns.foldlM (fun p h owners ho => ho.delete_ptr) r.partitions ho

/-- **An object is deleted** with its members. -/
theorem Object.delete_spec {p : Option Object} (ho : h.Owns (parts p + owners)) :
    ∃ h', Object.delete h p = some h' ∧ h'.Owns owners := by
  cases p with
  | none => exact ⟨h, rfl, by simpa [parts] using ho⟩
  | some o =>
    rw [parts, add_assoc] at ho
    obtain ⟨h₁, hmembers, ho₁⟩ := destructor_spec ho
    obtain ⟨h', hself, ho'⟩ := Heap.Owns.delete (p := some o.self) (by simpa using ho₁)
    exact ⟨h', by simp [delete, hmembers, hself], ho'⟩

end Delete

section Follows

variable {h h' : Heap}

open Heap (Follows)

theorem SignalVector.delete_follows {v : Option SignalVector}
    (hdel : SignalVector.delete h v = some h') : Follows h h' := by
  cases v with
  | none =>
    cases hdel
    exact Follows.refl h
  | some v =>
    obtain ⟨h₁, hdata, hself⟩ := Option.bind_eq_some_iff.mp hdel
    exact (Follows.delete hdata).trans (Follows.delete hself)

theorem Object.destructor_follows {o : Object} (hdel : o.destructor h = some h') :
    Follows h h' := by
  cases o with
  | signalVector v => exact Follows.delete hdel
  | correlationSequence c => exact SignalVector.delete_follows hdel
  | pulseSequence p =>
    obtain ⟨h₁, h0, hdel⟩ := Option.bind_eq_some_iff.mp hdel
    obtain ⟨h₂, h1, hdel⟩ := Option.bind_eq_some_iff.mp hdel
    obtain ⟨h₃, hinv, hempty⟩ := Option.bind_eq_some_iff.mp hdel
    exact (SignalVector.delete_follows h0).trans ((SignalVector.delete_follows h1).trans
      ((SignalVector.delete_follows hinv).trans (SignalVector.delete_follows hempty)))
  | resampler r => exact Follows.foldlM (fun _ _ _ => Follows.delete) hdel

theorem Object.delete_follows {p : Option Object} (hdel : Object.delete h p = some h') :
    Follows h h' := by
  cases p with
  | none =>
    cases hdel
    exact Follows.refl h
  | some o =>
    obtain ⟨h₁, hmembers, hself⟩ := Option.bind_eq_some_iff.mp hdel
    exact (destructor_follows hmembers).trans (Follows.delete hself)

theorem Object.delete_dead {o : Object} (hdel : Object.delete h (some o) = some h') :
    h'.Dead o.self := by
  obtain ⟨h₁, -, hself⟩ := Option.bind_eq_some_iff.mp hdel
  exact Heap.dead_of_delete hself

end Follows

/-! ## New objects -/

section New

open Heap (Follows)

variable {h : Heap} {owners : Multiset (Option ℕ)}

theorem new_owns (ho : h.Owns owners) : h.new.2.Owns ({some h.new.1} + owners) := by
  rw [Multiset.singleton_add]
  exact ho.new

theorem newVector_owns (ho : h.Owns owners) :
    (newVector h).2.Owns (SignalVector.parts (some (newVector h).1) + owners) := by
  have hboth := new_owns (new_owns ho)
  rw [← add_assoc] at hboth
  exact hboth

theorem newVector_follows (h : Heap) : Follows h (newVector h).2 :=
  (Follows.new h).trans (Follows.new _)

/-- A vector takes its data over. -/
theorem newVectorOn_owns {data : ℕ} (ho : h.Owns ({some data} + owners)) :
    (newVectorOn h data).2.Owns (SignalVector.parts (some (newVectorOn h data).1) + owners) := by
  have hnew := new_owns ho
  rw [← add_assoc, add_comm {some h.new.1}] at hnew
  exact hnew

theorem newAligned_owns (ho : h.Owns owners) :
    (newAligned h).2.Owns (SignalVector.parts (some (newAligned h).1) + owners) :=
  newVectorOn_owns (new_owns ho)

theorem newAligned_follows (h : Heap) : Follows h (newAligned h).2 :=
  (Follows.new h).trans (Follows.new _)

/-- What makes an object that owns what it allocates. -/
structure Makes (make : Heap → Object × Heap) : Prop where
  owns : ∀ {h owners}, h.Owns owners → (make h).2.Owns (Object.parts (some (make h).1) + owners)
  follows : ∀ h, Follows h (make h).2

theorem makes_vector : Makes makeVector := ⟨newVector_owns, newVector_follows⟩

theorem makes_aligned : Makes makeAligned := ⟨newAligned_owns, newAligned_follows⟩

theorem makes_initialized : Makes makeInitialized := by
  refine ⟨fun {h owners} ho => ?_, fun h => (Follows.new h).trans (Follows.new _)⟩
  have hboth := new_owns (new_owns ho)
  rw [← add_assoc] at hboth
  simpa [makeInitialized, Object.parts, Object.members, Object.self] using hboth

theorem makes_GSMPulse (sps : ℕ) : Makes (generateGSMPulse sps) := by
  refine ⟨fun {h owners} ho => ?_, fun h => ?_⟩
  · have hempty := newVector_owns (new_owns ho)
    have hc0 := newAligned_owns hempty
    simp only [generateGSMPulse]
    by_cases h4 : sps = 4
    · have hinv := newAligned_owns (newAligned_owns hc0)
      simp only [if_pos h4, Object.parts, Object.members, Object.self]
      convert hinv using 1
      abel
    · have hinv := newAligned_owns hc0
      simp only [if_neg h4, Object.parts, Object.members, Object.self, SignalVector.parts]
      convert hinv using 1
      simp only [SignalVector.parts]
      abel
  · have hc0 := (Follows.new h).trans ((newVector_follows _).trans (newAligned_follows _))
    simp only [generateGSMPulse]
    by_cases h4 : sps = 4
    · simp only [if_pos h4]
      exact hc0.trans ((newAligned_follows _).trans (newAligned_follows _))
    · simp only [if_neg h4]
      exact hc0.trans (newAligned_follows _)

end New

/-! ## Correlation sequences -/

/-- A failure that is cleaned up: the first burst is there if the pointer was not NULL, and the
autocorrelation if both bursts are. -/
def Tidy (r : BurstResults) (slot : Option Object) : Prop :=
  (r.first = false → slot = none) ∧ (r.first = true → r.second = true → r.autocorr = true)

theorem sum_bursts (swap : Bool) (first second : Option SignalVector) :
    ((bursts swap first second).map SignalVector.parts).sum =
      SignalVector.parts first + SignalVector.parts second := by
  cases swap
  · simp [bursts]
  · simp [bursts, add_comm]

section Sequence

open Heap (Follows)

variable {h h' : Heap} {owners : Multiset (Option ℕ)} {temps : List (Option SignalVector)}

/-- Temporaries are deleted. -/
theorem temps_spec (ho : h.Owns ((temps.map SignalVector.parts).sum + owners)) :
    ∃ h', temps.foldlM SignalVector.delete h = some h' ∧ h'.Owns owners := by
  have hstep : ∀ v (h : Heap) (owners : Multiset (Option ℕ)),
      h.Owns (SignalVector.parts v + owners) →
        ∃ h', SignalVector.delete h v = some h' ∧ h'.Owns owners :=
    fun v h owners ho => SignalVector.delete_spec ho
  exact Heap.Owns.foldlM hstep temps ho

theorem temps_follows (hdel : temps.foldlM SignalVector.delete h = some h') : Follows h h' :=
  Follows.foldlM (fun _ _ _ => SignalVector.delete_follows) hdel

variable (swap : Bool) {r : BurstResults} {slot p : Option Object}

/-- **A correlation sequence** takes the place of the old one. -/
theorem generateSequence_spec (ho : h.Owns (Object.parts slot + owners)) (hr : Tidy r slot) :
    ∃ p h', generateSequence swap r slot h = some (p, h') ∧
      h'.Owns (Object.parts p + owners) := by
  obtain ⟨hnull, hauto⟩ := hr
  obtain ⟨first, second, autocorr⟩ := r
  obtain ⟨h₁, hdel, ho₁⟩ := Object.delete_spec ho
  simp only [generateSequence, hdel, Option.bind_eq_bind, Option.bind_some]
  have ho₂ := newVector_owns ho₁
  cases first with
  | false =>
    rw [hnull rfl]
    exact ⟨none, h₁, rfl, by simpa [Object.parts] using ho₁⟩
  | true =>
    simp only [Bool.true_eq_false, if_false]
    cases second with
    | false =>
      have htemps : (newVector h₁).2.Owns (((none :: bursts swap (some (newVector h₁).1) none).map
          SignalVector.parts).sum + owners) := by
        rw [List.map_cons, List.sum_cons, sum_bursts]
        simpa [SignalVector.parts] using ho₂
      obtain ⟨h', htemps, ho'⟩ := temps_spec htemps
      refine ⟨none, h', ?_, by simpa [Object.parts] using ho'⟩
      simp [release, htemps, SignalVector.delete, Heap.delete]
    | true =>
      obtain rfl : autocorr = true := hauto rfl rfl
      have ho₃ := newVector_owns ho₂
      have ho₄ := newVectorOn_owns (new_owns ho₃)
      have ho₅ := new_owns (newVector_owns ho₄)
      simp only [Bool.true_eq_false, if_false]
      generalize newVector h₁ = x₁ at ho₃ ho₄ ho₅ ⊢
      obtain ⟨v₁, h₂⟩ := x₁
      generalize newVector h₂ = x₂ at ho₄ ho₅ ⊢
      obtain ⟨v₂, h₃⟩ := x₂
      generalize newVectorOn h₃.new.2 h₃.new.1 = x₃ at ho₅ ⊢
      obtain ⟨sequence, h₄⟩ := x₃
      generalize newVector h₄ = x₄ at ho₅ ⊢
      obtain ⟨v₃, h₅⟩ := x₄
      have hall : h₅.new.2.Owns (((some v₃ :: bursts swap (some v₁) (some v₂)).map
          SignalVector.parts).sum +
            (Object.parts (some (.correlationSequence ⟨h₅.new.1, some sequence⟩)) + owners)) := by
        rw [List.map_cons, List.sum_cons, sum_bursts]
        simp only [Object.parts, Object.members, Object.self]
        convert ho₅ using 1
        abel
      obtain ⟨h', htemps, ho'⟩ := temps_spec hall
      exact ⟨_, h', by simp [release, htemps], ho'⟩

theorem release_follows {status : Bool} {sequence : Option SignalVector} {data : Option ℕ}
    (hrel : release status temps sequence data slot h = some (p, h')) : Follows h h' := by
  obtain ⟨h₁, htemps, hrest⟩ := Option.bind_eq_some_iff.mp hrel
  refine (temps_follows htemps).trans ?_
  cases status with
  | true =>
    cases hrest
    exact Follows.refl _
  | false =>
    obtain ⟨h₂, hseq, hrest⟩ := Option.bind_eq_some_iff.mp hrest
    obtain ⟨h₃, hdata, hrest⟩ := Option.bind_eq_some_iff.mp hrest
    cases hrest
    exact (SignalVector.delete_follows hseq).trans (Follows.delete hdata)

theorem generateSequence_follows (hgen : generateSequence swap r slot h = some (p, h')) :
    Follows h h' := by
  obtain ⟨h₁, hdel, hrest⟩ := Option.bind_eq_some_iff.mp hgen
  refine (Object.delete_follows hdel).trans ?_
  split_ifs at hrest
  · cases hrest
    exact Follows.refl _
  · exact (newVector_follows _).trans (release_follows hrest)
  · exact (newVector_follows _).trans ((newVector_follows _).trans ((Follows.new _).trans
      ((Follows.new _).trans (release_follows hrest))))
  · exact (newVector_follows _).trans ((newVector_follows _).trans ((Follows.new _).trans
      ((Follows.new _).trans ((newVector_follows _).trans ((Follows.new _).trans
        (release_follows hrest))))))

/-- **The pointer dangles** if the first burst is not there. -/
theorem generateSequence_dangles {o : Object} (hfirst : r.first = false)
    (hgen : generateSequence swap r (some o) h = some (p, h')) :
    p = some o ∧ h'.Dead o.self := by
  obtain ⟨h₁, hdel, hrest⟩ := Option.bind_eq_some_iff.mp hgen
  rw [if_pos hfirst] at hrest
  cases hrest
  exact ⟨rfl, Object.delete_dead hdel⟩

/-- **The data is freed twice** if the autocorrelation is not there. -/
theorem generateSequence_frees_twice (hfirst : r.first = true) (hsecond : r.second = true)
    (hauto : r.autocorr = false) : generateSequence swap r slot h = none := by
  rw [Option.eq_none_iff_forall_not_mem]
  rintro ⟨p, h'⟩ hgen
  obtain ⟨h₁, -, hrest⟩ := Option.bind_eq_some_iff.mp hgen
  simp only [hfirst, hsecond, hauto, Bool.true_eq_false, if_false, if_true] at hrest
  obtain ⟨h₂, -, hrest⟩ := Option.bind_eq_some_iff.mp hrest
  obtain ⟨h₃, hseq, hrest⟩ := Option.bind_eq_some_iff.mp hrest
  obtain ⟨h₄, hdata, -⟩ := Option.bind_eq_some_iff.mp hrest
  obtain ⟨h₅, hfree, hself⟩ := Option.bind_eq_some_iff.mp hseq
  have hdead := (Heap.dead_of_delete hfree).follows (Follows.delete hself)
  rw [Heap.delete_dead hdead] at hdata
  cases hdata

theorem generateEdgeMidamble_spec (burst : Bool) (ho : h.Owns owners) :
    ∃ p h', generateEdgeMidamble burst h = some (p, h') ∧ h'.Owns (Object.parts p + owners) := by
  cases burst with
  | false => exact ⟨none, h, rfl, by simpa [Object.parts] using ho⟩
  | true =>
    have ho₁ := newVector_owns ho
    have ho₂ := new_owns (newVectorOn_owns (new_owns ho₁))
    simp only [generateEdgeMidamble, Bool.true_eq_false, if_false]
    generalize newVector h = x₁ at ho₁ ho₂ ⊢
    obtain ⟨midamble, h₁⟩ := x₁
    generalize newVectorOn h₁.new.2 h₁.new.1 = x₂ at ho₂ ⊢
    obtain ⟨sequence, h₂⟩ := x₂
    have hall : h₂.new.2.Owns (SignalVector.parts (some midamble) +
        (Object.parts (some (.correlationSequence ⟨h₂.new.1, some sequence⟩)) + owners)) := by
      simp only [Object.parts, Object.members, Object.self]
      convert ho₂ using 1
      abel
    obtain ⟨h', hdel, ho'⟩ := SignalVector.delete_spec hall
    exact ⟨_, h', by simp [hdel], ho'⟩

theorem generateEdgeMidamble_follows {burst : Bool}
    (hgen : generateEdgeMidamble burst h = some (p, h')) : Follows h h' := by
  cases burst with
  | false =>
    cases hgen
    exact Follows.refl h
  | true =>
    obtain ⟨h₁, hdel, heq⟩ := Option.map_eq_some_iff.mp hgen
    cases heq
    exact (newVector_follows _).trans ((Follows.new _).trans ((Follows.new _).trans
      ((Follows.new _).trans (SignalVector.delete_follows hdel))))

end Sequence

/-! ## The tables -/

/-- What the globals own. -/
def tableParts (tables : Global → Option Object) : Multiset (Option ℕ) :=
  ∑ g, Object.parts (tables g)

/-- Every live object belongs to one global, or is lost. -/
def Owned (s : Library) : Prop := ∃ lost, s.heap.Owns (tableParts s.tables + lost)

/-- Every global is NULL or refers to a live object. -/
def Sound (s : Library) : Prop := ∀ g, ∀ o ∈ s.tables g, o.self ∈ s.heap.live

/-- A global refers to an object that is no more. -/
def Dangles (g : Global) (o : Object) (s : Library) : Prop :=
  s.tables g = some o ∧ s.heap.Dead o.self

theorem Owned.sound {s : Library} (ho : Owned s) : Sound s := by
  obtain ⟨lost, ho⟩ := ho
  intro g o hg
  have hparts : some o.self ∈ Object.parts (s.tables g) := by
    rw [show s.tables g = some o from hg, Object.parts]
    exact Multiset.mem_add.mpr (Or.inr (Multiset.mem_singleton_self _))
  have hmem : some o.self ∈ tableParts s.tables + lost :=
    Multiset.mem_add.mpr (Or.inl (Multiset.mem_sum.mpr ⟨g, Finset.mem_univ g, hparts⟩))
  obtain ⟨a, ha, hlive⟩ := ho.live hmem
  rw [Option.some.inj ha]
  exact hlive

theorem Dangles.not_sound {g : Global} {o : Object} {s : Library} (hd : Dangles g o s) :
    ¬ Sound s := fun hs => hd.2.2 (hs g o hd.1)

/-- What happens to the library leaves a global alone. -/
structure Keeps (g : Global) (s s' : Library) : Prop where
  follows : Heap.Follows s.heap s'.heap
  tables : s'.tables g = s.tables g

namespace Keeps

variable {g g' : Global} {s s₁ s' : Library}

theorem refl (g : Global) (s : Library) : Keeps g s s := ⟨Heap.Follows.refl _, rfl⟩

theorem trans (hfirst : Keeps g s s₁) (hrest : Keeps g s₁ s') : Keeps g s s' :=
  ⟨hfirst.follows.trans hrest.follows, hrest.tables.trans hfirst.tables⟩

theorem dangles {o : Object} (hk : Keeps g s s') (hd : Dangles g o s) : Dangles g o s' :=
  ⟨hk.tables.trans hd.1, hd.2.follows hk.follows⟩

theorem assign {h : Heap} (hne : g ≠ g') (p : Option Object) (hf : Heap.Follows s.heap h) :
    Keeps g s (s.assign g' p h) := ⟨hf, Function.update_of_ne hne _ _⟩

theorem create {make : Heap → Object × Heap} (hmake : Makes make) (hne : g ≠ g') :
    Keeps g s (s.create g' make) := assign hne _ (hmake.follows _)

theorem clear (hclear : s.clear g' = some s') (hne : g ≠ g') : Keeps g s s' := by
  obtain ⟨h, hdel, rfl⟩ := Option.map_eq_some_iff.mp hclear
  exact assign hne _ (Object.delete_follows hdel)

theorem generate {generator : Option Object → Heap → Option (Option Object × Heap)}
    (hf : ∀ slot h p h', generator slot h = some (p, h') → Heap.Follows h h') 
    (hgen : s.generate g' generator = some s') (hne : g ≠ g') : Keeps g s s' := by
  obtain ⟨⟨p, h⟩, heq, rfl⟩ := Option.map_eq_some_iff.mp hgen
  exact assign hne _ (hf _ _ _ _ heq)

theorem foldlM {ι : Type*} {turn : Library → ι → Option Library} {l : List ι}
    (hturn : ∀ i ∈ l, ∀ s s', turn s i = some s' → Keeps g s s') :
    ∀ {s s'}, l.foldlM turn s = some s' → Keeps g s s' := by
  induction l with
  | nil =>
    intro s s' hfold
    cases hfold
    exact refl g s
  | cons i l ih =>
    intro s s' hfold
    obtain ⟨s₁, hfirst, hrest⟩ := Option.bind_eq_some_iff.mp hfold
    exact (hturn i List.mem_cons_self s s₁ hfirst).trans
      (ih (fun j hj => hturn j (List.mem_cons_of_mem i hj)) hrest)

end Keeps

theorem create_tables_self (s : Library) (g : Global) (make : Heap → Object × Heap) :
    (s.create g make).tables g = some (make s.heap).1 := Function.update_self _ _ _

namespace Owned

variable {s : Library} {g : Global}

/-- The part of one global, and the rest. -/
theorem split (ho : Owned s) (g : Global) :
    ∃ rest, s.heap.Owns (Object.parts (s.tables g) + rest) ∧
      ∀ p h lost, h.Owns (Object.parts p + (lost + rest)) → Owned (s.assign g p h) := by
  obtain ⟨lost, ho⟩ := ho
  refine ⟨∑ g' ∈ Finset.univ.erase g, Object.parts (s.tables g') + lost, ?_, ?_⟩
  · rwa [← add_assoc, ← sum_eq_part_add fun g => Object.parts (s.tables g)]
  · intro p h more ho'
    refine ⟨more + lost, ?_⟩
    have hothers : ∀ g', g' ≠ g →
        Object.parts (Function.update s.tables g p g') = Object.parts (s.tables g') :=
      fun g' hg' => by rw [Function.update_of_ne hg']
    have hsum := sum_eq_part_add_of_ne hothers
    rw [Function.update_self] at hsum
    have hparts : tableParts (s.assign g p h).tables =
        Object.parts p + ∑ g' ∈ Finset.univ.erase g, Object.parts (s.tables g') := hsum
    have hregroup : Object.parts p + ∑ g' ∈ Finset.univ.erase g, Object.parts (s.tables g') +
        (more + lost) = Object.parts p +
          (more + (∑ g' ∈ Finset.univ.erase g, Object.parts (s.tables g') + lost)) := by abel
    rw [hparts, hregroup]
    exact ho'

theorem create {make : Heap → Object × Heap} (hmake : Makes make) (ho : Owned s) (g : Global) :
    Owned (s.create g make) := by
  obtain ⟨rest, ho, hassign⟩ := ho.split g
  exact hassign _ _ _ (hmake.owns ho)

theorem clear (ho : Owned s) (g : Global) : ∃ s', s.clear g = some s' ∧ Owned s' := by
  obtain ⟨rest, ho, hassign⟩ := ho.split g
  obtain ⟨h, hdel, ho'⟩ := Object.delete_spec ho
  refine ⟨s.assign g none h, by rw [Library.clear, hdel]; rfl, hassign none h 0 ?_⟩
  simpa [Object.parts] using ho'

theorem generateSequence (swap : Bool) {r : BurstResults} (ho : Owned s)
    (hr : Tidy r (s.tables g)) :
    ∃ s', s.generate g (Lifecycle.generateSequence swap r) = some s' ∧ Owned s' := by
  obtain ⟨rest, ho, hassign⟩ := ho.split g
  obtain ⟨p, h, hgen, ho'⟩ := generateSequence_spec swap ho hr
  exact ⟨s.assign g p h, by rw [Library.generate, hgen]; rfl, hassign p h 0 (by simpa using ho')⟩

theorem generateEdgeMidamble (burst : Bool) (ho : Owned s) (g : Global) :
    ∃ s', s.generate g (fun _ => Lifecycle.generateEdgeMidamble burst) = some s' ∧ Owned s' := by
  obtain ⟨rest, ho, hassign⟩ := ho.split g
  obtain ⟨p, h, hgen, ho'⟩ := generateEdgeMidamble_spec burst ho
  exact ⟨s.assign g p h, by rw [Library.generate, hgen]; rfl, hassign p h _ ho'⟩

end Owned

/-! ## `sigProcLibDestroy` goes well, or not -/

theorem Owned.foldlM {ι : Type*} {turn : Library → ι → Option Library} {s : Library}
    (hturn : ∀ i s, Owned s → ∃ s', turn s i = some s' ∧ Owned s') (ho : Owned s) (l : List ι) :
    ∃ s', l.foldlM turn s = some s' ∧ Owned s' :=
  Loop.foldlM_induction (P := fun _ => Owned) ho fun _ i _ _ s hs => hturn i s hs

theorem clearTables_spec {s : Library} (ho : Owned s) :
    ∃ s', clearTables s = some s' ∧ Owned s' := by
  have hboth : ∀ (i : Fin 8) s, Owned s → ∃ s', ((s.clear (.gMidambles i)).bind fun s =>
      s.clear (.gEdgeMidambles i)) = some s' ∧ Owned s' := by
    intro i s hs
    obtain ⟨s₁, hfirst, hs₁⟩ := hs.clear (.gMidambles i)
    rw [hfirst]
    exact hs₁.clear (.gEdgeMidambles i)
  obtain ⟨s₁, h₁, ho⟩ := ho.foldlM hboth (List.finRange 8)
  obtain ⟨s₂, h₂, ho⟩ := ho.foldlM (fun i s hs => hs.clear (.delayFilters i)) (List.finRange 64)
  obtain ⟨s₃, h₃, ho⟩ := ho.foldlM (fun i s hs => hs.clear (.gRACHSequences i)) (List.finRange 3)
  obtain ⟨s₄, h₄, ho⟩ := ho.clear .GMSKRotation1
  obtain ⟨s₅, h₅, ho⟩ := ho.clear .GMSKReverseRotation1
  obtain ⟨s₆, h₆, ho⟩ := ho.clear .GMSKRotation4
  obtain ⟨s₇, h₇, ho⟩ := ho.clear .GMSKReverseRotation4
  obtain ⟨s₈, h₈, ho⟩ := ho.clear .GSMPulse1
  obtain ⟨s₉, h₉, ho⟩ := ho.clear .GSMPulse4
  refine ⟨s₉, ?_, ho⟩
  simp only [clearTables, h₁, h₂, h₃, h₄, h₅, h₆, h₇, h₈, h₉, Option.bind_eq_bind,
    Option.bind_some]

/-- The downsampler is not among them. -/
theorem clearTables_keeps {s s' : Library} (hclear : clearTables s = some s') :
    Keeps .dnsampler s s' := by
  obtain ⟨s₁, h₁, hclear⟩ := Option.bind_eq_some_iff.mp hclear
  obtain ⟨s₂, h₂, hclear⟩ := Option.bind_eq_some_iff.mp hclear
  obtain ⟨s₃, h₃, hclear⟩ := Option.bind_eq_some_iff.mp hclear
  obtain ⟨s₄, h₄, hclear⟩ := Option.bind_eq_some_iff.mp hclear
  obtain ⟨s₅, h₅, hclear⟩ := Option.bind_eq_some_iff.mp hclear
  obtain ⟨s₆, h₆, hclear⟩ := Option.bind_eq_some_iff.mp hclear
  obtain ⟨s₇, h₇, hclear⟩ := Option.bind_eq_some_iff.mp hclear
  obtain ⟨s₈, h₈, h₉⟩ := Option.bind_eq_some_iff.mp hclear
  have k₁ : Keeps .dnsampler s s₁ := by
    refine Keeps.foldlM (fun i _ s s' hboth => ?_) h₁
    obtain ⟨t, hfirst, hsecond⟩ := Option.bind_eq_some_iff.mp hboth
    have kfirst : Keeps .dnsampler s t := Keeps.clear hfirst nofun
    exact kfirst.trans (Keeps.clear hsecond nofun)
  have k₂ : Keeps .dnsampler s₁ s₂ :=
    Keeps.foldlM (fun i _ s s' hi => Keeps.clear hi (by simp)) h₂
  have k₃ : Keeps .dnsampler s₂ s₃ :=
    Keeps.foldlM (fun i _ s s' hi => Keeps.clear hi (by simp)) h₃
  have k₄ : Keeps .dnsampler s₃ s₄ := Keeps.clear h₄ nofun
  have k₅ : Keeps .dnsampler s₄ s₅ := Keeps.clear h₅ nofun
  have k₆ : Keeps .dnsampler s₅ s₆ := Keeps.clear h₆ nofun
  have k₇ : Keeps .dnsampler s₆ s₇ := Keeps.clear h₇ nofun
  have k₈ : Keeps .dnsampler s₇ s₈ := Keeps.clear h₈ nofun
  have k₉ : Keeps .dnsampler s₈ s' := Keeps.clear h₉ nofun
  exact k₁.trans (k₂.trans (k₃.trans (k₄.trans (k₅.trans (k₆.trans (k₇.trans (k₈.trans k₉)))))))

/-- **Without a downsampler** all goes well. -/
theorem sigProcLibDestroy_spec {s : Library} (ho : Owned s) (hnone : s.tables .dnsampler = none) :
    ∃ s', sigProcLibDestroy s = some s' ∧ Owned s' := by
  obtain ⟨s₁, hclear, ho₁⟩ := clearTables_spec ho
  have hnone₁ : s₁.tables .dnsampler = none := (clearTables_keeps hclear).tables.trans hnone
  refine ⟨s₁, ?_, ho₁⟩
  simp only [sigProcLibDestroy, hclear, hnone₁, Object.delete, Option.bind_eq_bind,
    Option.bind_some]

/-- **The downsampler dangles** if there is one. -/
theorem sigProcLibDestroy_dangles {s s' : Library} {o : Object} (ho : s.tables .dnsampler = some o)
    (hdestroy : sigProcLibDestroy s = some s') : Dangles .dnsampler o s' := by
  obtain ⟨s₁, hclear, hdestroy⟩ := Option.bind_eq_some_iff.mp hdestroy
  obtain ⟨h, hdel, heq⟩ := Option.bind_eq_some_iff.mp hdestroy
  have hsome : s₁.tables .dnsampler = some o := (clearTables_keeps hclear).tables.trans ho
  rw [hsome] at hdel
  cases heq
  exact ⟨hsome, Object.delete_dead hdel⟩

/-! ## The slots of correlation sequences -/

/-- What a turn of a loop does with its slot. -/
structure Turn (turn : Library → Option Library) (g : Global) (r : BurstResults) : Prop where
  tidy : ∀ s, Owned s → Tidy r (s.tables g) → ∃ s', turn s = some s' ∧ Owned s'
  autocorr : ∀ s s', turn s = some s' → r.first = true → r.second = true → r.autocorr = true
  dangles : ∀ s s' o, turn s = some s' → r.first = false → s.tables g = some o → Dangles g o s'

theorem turn_generate (swap : Bool) (g : Global) (r : BurstResults) :
    Turn (fun s => s.generate g (generateSequence swap r)) g r := by
  refine ⟨fun s ho hr => ho.generateSequence swap hr, fun s s' hgen hfirst hsecond => ?_,
    fun s s' o hgen hfirst hsome => ?_⟩
  · obtain ⟨⟨p, h⟩, heq, -⟩ := Option.map_eq_some_iff.mp hgen
    cases hauto : r.autocorr with
    | true => rfl
    | false =>
      rw [generateSequence_frees_twice swap hfirst hsecond hauto] at heq
      cases heq
  · obtain ⟨⟨p, h⟩, heq, rfl⟩ := Option.map_eq_some_iff.mp hgen
    rw [hsome] at heq
    obtain ⟨rfl, hdead⟩ := generateSequence_dangles swap hfirst heq
    exact ⟨Function.update_self _ _ _, hdead⟩

/-- A turn that goes on with something else. -/
theorem Turn.bind {turn next : Library → Option Library} {g : Global} {r : BurstResults}
    (hturn : Turn turn g r) (hnext : ∀ s, Owned s → ∃ s', next s = some s' ∧ Owned s')
    (hkeeps : ∀ s s', next s = some s' → Keeps g s s') :
    Turn (fun s => (turn s).bind next) g r := by
  refine ⟨fun s ho hr => ?_, fun s s' hboth => ?_, fun s s' o hboth hfirst hsome => ?_⟩
  · obtain ⟨s₁, hone, ho₁⟩ := hturn.tidy s ho hr
    rw [hone]
    exact hnext s₁ ho₁
  · obtain ⟨s₁, hone, -⟩ := Option.bind_eq_some_iff.mp hboth
    exact hturn.autocorr s s₁ hone
  · obtain ⟨s₁, hone, htwo⟩ := Option.bind_eq_some_iff.mp hboth
    exact (hkeeps s₁ s' htwo).dangles (hturn.dangles s s₁ o hone hfirst hsome)

section Loop

variable {n : ℕ} {turn : Library → Fin n → Option Library} {slot : Fin n → Global}
  {r : Fin n → BurstResults} (hturn : ∀ i, Turn (fun s => turn s i) (slot i) (r i))
  (hkeeps : ∀ i j s s', turn s i = some s' → j ≠ i → Keeps (slot j) s s')
include hturn hkeeps

/-- A loop over slots all of whose failures are cleaned up. -/
theorem slots_spec {s : Library} (ho : Owned s) (htidy : ∀ i, Tidy (r i) (s.tables (slot i))) :
    ∃ s', (List.finRange n).foldlM turn s = some s' ∧ Owned s' := by
  obtain ⟨s', hfold, ho', -⟩ := Loop.foldlM_induction
    (P := fun done s' => Owned s' ∧ ∀ j ∉ done, s'.tables (slot j) = s.tables (slot j))
    (l := List.finRange n) (s := s) ⟨ho, fun _ _ => rfl⟩ (f := turn)
    fun done i rest hl s₁ h₁ => by
      obtain ⟨ho₁, hsame⟩ := h₁
      have hfresh : i ∉ done := by
        have hnodup := List.nodup_finRange n
        rw [hl] at hnodup
        exact fun hmem => (List.nodup_append.mp hnodup).2.2 i hmem i List.mem_cons_self rfl
      obtain ⟨s₂, hone, ho₂⟩ := (hturn i).tidy s₁ ho₁ (by rw [hsame i hfresh]; exact htidy i)
      refine ⟨s₂, hone, ho₂, fun j hj => ?_⟩
      rw [List.mem_append, List.mem_singleton, not_or] at hj
      rw [(hkeeps i j s₁ s₂ hone hj.2).tables, hsame j hj.1]
  exact ⟨s', hfold, ho'⟩

/-- What a loop over slots leaves that ends. -/
theorem slots_dangle {s s' : Library} (hfold : (List.finRange n).foldlM turn s = some s')
    (i : Fin n) :
    ((r i).first = true → (r i).second = true → (r i).autocorr = true) ∧
      ∀ o, (r i).first = false → s.tables (slot i) = some o → Dangles (slot i) o s' := by
  obtain ⟨done, rest, hl⟩ := List.append_of_mem (List.mem_finRange i)
  have hnodup := List.nodup_finRange n
  rw [hl] at hnodup
  rw [hl, List.foldlM_append] at hfold
  obtain ⟨s₁, hdone, hfold⟩ := Option.bind_eq_some_iff.mp hfold
  obtain ⟨s₂, hone, hrest⟩ := Option.bind_eq_some_iff.mp hfold
  have kdone : Keeps (slot i) s s₁ := by
    refine Keeps.foldlM (fun j hj s s' hj' => hkeeps j i s s' hj' fun heq => ?_) hdone
    exact (List.nodup_append.mp hnodup).2.2 j hj i List.mem_cons_self heq.symm
  have krest : Keeps (slot i) s₂ s' := by
    refine Keeps.foldlM (fun j hj s s' hj' => hkeeps j i s s' hj' fun heq => ?_) hrest
    exact (List.nodup_cons.mp (List.nodup_append.mp hnodup).2.1).1 (heq ▸ hj)
  refine ⟨(hturn i).autocorr s₁ s₂ hone, fun o hfirst hsome => ?_⟩
  exact krest.dangles ((hturn i).dangles s₁ s₂ o hone hfirst (kdone.tables.trans hsome))

end Loop

/-- The slots that a failure may leave dangling. -/
def IsSlot (g : Global) : Prop := (∃ i, g = .gRACHSequences i) ∨ ∃ tsc, g = .gMidambles tsc

section Stages

variable {s s' : Library} {g : Global}

theorem IsSlot.ne {g' : Global} (hg : IsSlot g) (hg' : ¬ IsSlot g') : g ≠ g' :=
  fun heq => hg' (heq ▸ hg)

theorem generateFixed_owned (ho : Owned s) : Owned (generateFixed s) :=
  (((((ho.create makes_vector _).create makes_vector _).create makes_vector _).create
    makes_vector _).create (makes_GSMPulse 1) _).create (makes_GSMPulse 4) _

theorem generateFixed_keeps (hg : IsSlot g) (s : Library) : Keeps g s (generateFixed s) := by
  have hcreate : ∀ {make} (g') (s : Library), Makes make → ¬ IsSlot g' →
      Keeps g s (s.create g' make) := fun g' s hmake hg' => Keeps.create hmake (hg.ne hg')
  exact (hcreate _ _ makes_vector (by simp [IsSlot])).trans
    ((hcreate _ _ makes_vector (by simp [IsSlot])).trans
    ((hcreate _ _ makes_vector (by simp [IsSlot])).trans
    ((hcreate _ _ makes_vector (by simp [IsSlot])).trans
    ((hcreate _ _ (makes_GSMPulse 1) (by simp [IsSlot])).trans
    (hcreate _ _ (makes_GSMPulse 4) (by simp [IsSlot]))))))

theorem generateDelayFilters_owned (ho : Owned s) : Owned (generateDelayFilters s) := by
  rw [generateDelayFilters]
  induction List.finRange 64 generalizing s with
  | nil => exact ho
  | cons i l ih => exact ih (ho.create makes_aligned _)

theorem generateDelayFilters_keeps (hg : IsSlot g) (s : Library) :
    Keeps g s (generateDelayFilters s) := by
  rw [generateDelayFilters]
  induction List.finRange 64 generalizing s with
  | nil => exact Keeps.refl g s
  | cons i l ih =>
    have hfirst : Keeps g s (s.create (.delayFilters i) makeAligned) :=
      Keeps.create makes_aligned (hg.ne (by simp [IsSlot]))
    exact hfirst.trans (ih _)

variable {r : Results}

theorem turn_rach (r : Results) (i : Fin 3) :
    Turn (fun s => s.generate (.gRACHSequences i) (generateRACHSequence (r.rach i)))
      (.gRACHSequences i) (r.rach i) := turn_generate false _ _

theorem turn_tsc (r : Results) (tsc : Fin 8) :
    Turn (fun s => generateTsc r s tsc) (.gMidambles tsc) (r.midamble tsc) := by
  refine (turn_generate true _ _).bind (fun s ho => ho.generateEdgeMidamble _ _) fun s s' hgen => ?_
  exact Keeps.generate (fun _ _ _ _ => generateEdgeMidamble_follows) hgen nofun

theorem keeps_rach {i : Fin 3}
    (hgen : s.generate (.gRACHSequences i) (generateRACHSequence (r.rach i)) = some s')
    (hne : g ≠ .gRACHSequences i) : Keeps g s s' :=
  Keeps.generate (fun _ _ _ _ => generateSequence_follows false) hgen hne

theorem keeps_tsc {tsc : Fin 8} (hgen : generateTsc r s tsc = some s')
    (hne : g ≠ .gMidambles tsc) (hne' : g ≠ .gEdgeMidambles tsc) : Keeps g s s' := by
  obtain ⟨s₁, hmid, hedge⟩ := Option.bind_eq_some_iff.mp hgen
  have kmid : Keeps g s s₁ :=
    Keeps.generate (fun _ _ _ _ => generateSequence_follows true) hmid hne
  exact kmid.trans (Keeps.generate (fun _ _ _ _ => generateEdgeMidamble_follows) hedge hne')

/-- The loop over training sequences does not touch the other slots, … -/
theorem keeps_tscs {i : Fin 3} (hfold : (List.finRange 8).foldlM (generateTsc r) s = some s') :
    Keeps (.gRACHSequences i) s s' := by
  refine Keeps.foldlM (fun tsc _ s s' hgen => ?_) hfold
  exact keeps_tsc hgen nofun nofun

/-- … and those are not touched before it. -/
theorem keeps_rachs {tsc : Fin 8} (hfold : generateRACHSequences r s = some s') :
    Keeps (.gMidambles tsc) s s' := by
  refine Keeps.foldlM (fun i _ s s' hgen => ?_) hfold
  exact keeps_rach hgen nofun

end Stages

/-! ## Calls -/

/-- A call, with what the functions that it calls give. -/
inductive Call where
  | setup (r : Results)
  | destroy

/-- A call; `none` if something is freed twice. -/
def call (s : Library) : Call → Option Library
  | .setup r => sigProcLibSetup r s
  | .destroy => sigProcLibDestroy s

def step (s : Library) (e : Call) : Library := (call s e).getD s

/-- Nothing is freed twice, and no global dangles afterwards. -/
def Safe (s : Library) (e : Call) : Prop := ∃ s', call s e = some s' ∧ Sound s'

/-- The downsampler is there, every pointer to a correlation sequence that is not NULL gets a first
burst, and every two bursts get an autocorrelation.  There is no downsampler to destroy. -/
def Clean (s : Library) : Call → Prop
  | .setup r => r.init = true ∧ (∀ i, Tidy (r.rach i) (s.tables (.gRACHSequences i))) ∧
      ∀ tsc, Tidy (r.midamble tsc) (s.tables (.gMidambles tsc))
  | .destroy => s.tables .dnsampler = none

/-- **A setup** whose failures are cleaned up. -/
theorem sigProcLibSetup_spec {s : Library} {r : Results} (ho : Owned s)
    (hr : Clean s (.setup r)) : ∃ s', sigProcLibSetup r s = some s' ∧ Owned s' := by
  obtain ⟨hinit, hrach, hmid⟩ := hr
  have hslot : ∀ i, IsSlot (.gRACHSequences i) := fun i => Or.inl ⟨i, rfl⟩
  have hslot' : ∀ tsc, IsSlot (.gMidambles tsc) := fun tsc => Or.inr ⟨tsc, rfl⟩
  obtain ⟨s₁, h₁, ho₁⟩ := slots_spec (turn_rach r)
    (fun i j s s' hgen hne => keeps_rach hgen (by simpa using hne)) (generateFixed_owned ho)
    fun i => by
      rw [(generateFixed_keeps (hslot i) s).tables]
      exact hrach i
  obtain ⟨s₂, h₂, ho₂⟩ := slots_spec (turn_tsc r)
    (fun i j s s' hgen hne => keeps_tsc hgen (by simpa using hne) nofun) ho₁ fun tsc => by
      rw [(keeps_rachs h₁).tables, (generateFixed_keeps (hslot' tsc) s).tables]
      exact hmid tsc
  refine ⟨_, ?_, (generateDelayFilters_owned ho₂).create makes_initialized .dnsampler⟩
  simp only [sigProcLibSetup, generateRACHSequences, h₁, h₂, hinit, Option.bind_eq_bind,
    Option.bind_some, if_true]

/-- **A setup** is only safe if its failures are cleaned up. -/
theorem clean_of_sigProcLibSetup {s s' : Library} {r : Results}
    (hsetup : sigProcLibSetup r s = some s') (hs : Sound s') : Clean s (.setup r) := by
  have hslot : ∀ i, IsSlot (.gRACHSequences i) := fun i => Or.inl ⟨i, rfl⟩
  have hslot' : ∀ tsc, IsSlot (.gMidambles tsc) := fun tsc => Or.inr ⟨tsc, rfl⟩
  obtain ⟨s₁, h₁, hsetup⟩ := Option.bind_eq_some_iff.mp hsetup
  obtain ⟨s₂, h₂, hsetup⟩ := Option.bind_eq_some_iff.mp hsetup
  cases hinit : r.init with
  | false =>
    rw [hinit, if_neg Bool.false_ne_true] at hsetup
    exact absurd hs (sigProcLibDestroy_dangles (create_tables_self _ _ _) hsetup).not_sound
  | true =>
    rw [hinit, if_pos rfl] at hsetup
    rw [← Option.some.inj hsetup] at hs
    -- a slot that dangles does so to the end
    have hlast : ∀ {g o}, IsSlot g → ¬ Dangles g o s₂ := by
      intro g o hg hd
      have hfilters := (generateDelayFilters_keeps hg s₂).dangles hd
      have hne : g ≠ .dnsampler := hg.ne (by simp [IsSlot])
      generalize generateDelayFilters s₂ = t at hs hfilters
      exact ((Keeps.create makes_initialized hne).dangles hfilters).not_sound hs
    have hrach := slots_dangle (turn_rach r)
      (fun i j s s' hgen hne => keeps_rach hgen (by simpa using hne)) h₁
    have hmid := slots_dangle (turn_tsc r)
      (fun i j s s' hgen hne => keeps_tsc hgen (by simpa using hne) nofun) h₂
    refine ⟨hinit, fun i => ⟨fun hfirst => ?_, (hrach i).1⟩,
      fun tsc => ⟨fun hfirst => ?_, (hmid tsc).1⟩⟩
    · rw [Option.eq_none_iff_forall_not_mem]
      intro o ho
      have hd := (hrach i).2 o hfirst ((generateFixed_keeps (hslot i) s).tables.trans ho)
      exact hlast (hslot i) ((keeps_tscs h₂).dangles hd)
    · rw [Option.eq_none_iff_forall_not_mem]
      intro o ho
      have hsame := (keeps_rachs h₁).tables.trans (generateFixed_keeps (hslot' tsc) s).tables
      exact hlast (hslot' tsc) ((hmid tsc).2 o hfirst (hsame.trans ho))

/-- There is a downsampler afterwards. -/
theorem dnsampler_of_sigProcLibSetup {s s' : Library} {r : Results}
    (hsetup : sigProcLibSetup r s = some s') (hinit : r.init = true) :
    ∃ o, s'.tables .dnsampler = some o := by
  obtain ⟨s₁, -, hsetup⟩ := Option.bind_eq_some_iff.mp hsetup
  obtain ⟨s₂, -, hsetup⟩ := Option.bind_eq_some_iff.mp hsetup
  rw [hinit, if_pos rfl] at hsetup
  rw [← Option.some.inj hsetup]
  exact ⟨_, create_tables_self _ _ _⟩

/-- A clean call goes well, … -/
theorem Owned.call {s : Library} {e : Call} (ho : Owned s) (hclean : Clean s e) :
    ∃ s', Lifecycle.call s e = some s' ∧ Owned s' := by
  cases e with
  | setup r => exact sigProcLibSetup_spec ho hclean
  | destroy => exact sigProcLibDestroy_spec ho hclean

/-- … and only a clean one does. -/
theorem safe_iff_clean {s : Library} {e : Call} (ho : Owned s) : Safe s e ↔ Clean s e := by
  constructor
  · rintro ⟨s', hcall, hs⟩
    cases e with
    | setup r => exact clean_of_sigProcLibSetup hcall hs
    | destroy =>
      rw [Clean, Option.eq_none_iff_forall_not_mem]
      intro o hsome
      exact (sigProcLibDestroy_dangles hsome hcall).not_sound hs
  · intro hclean
    obtain ⟨s', hcall, ho'⟩ := ho.call hclean
    exact ⟨s', hcall, ho'.sound⟩

theorem initial_owned : Owned initial := by
  have hnone : tableParts initial.tables = 0 := Finset.sum_const_zero
  refine ⟨0, ?_⟩
  rw [hnone]
  rfl

/-- **Nothing is freed twice and nothing dangles** in a run of calls just if they are all clean. -/
theorem lifecycle_iff (es : List Call) :
    Run.Along step Safe initial es ↔ Run.Along step Clean initial es := by
  refine Run.along_iff_of_invariant (I := Owned) (fun s e ho hsafe => ?_)
    (fun s e ho => safe_iff_clean ho) initial_owned es
  obtain ⟨s', hcall, ho'⟩ := ho.call ((safe_iff_clean ho).mp hsafe)
  rw [step, hcall]
  exact ho'

/-- Results of calls that all succeed. -/
def allSucceed : Results := ⟨fun _ => ⟨true, true, true⟩, fun _ => ⟨true, true, true⟩,
  fun _ => true, true⟩

/-- A shutdown leaves the pointer to the downsampler as it is. -/
theorem dnsampler_dangles : ¬ ∀ es, Run.Along step Safe initial es := by
  intro h
  obtain ⟨⟨s₁, hsetup, -⟩, hsafe, -⟩ := h [.setup allSucceed, .destroy]
  have hstep : step initial (.setup allSucceed) = s₁ := by rw [step, hsetup, Option.getD_some]
  rw [hstep] at hsafe
  obtain ⟨s₂, hdestroy, hs₂⟩ := hsafe
  obtain ⟨o, ho⟩ := dnsampler_of_sigProcLibSetup hsetup rfl
  exact (sigProcLibDestroy_dangles ho hdestroy).not_sound hs₂

end Lifecycle
end Trx
end OsmoTrx
