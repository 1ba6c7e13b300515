import Mathlib.Tactic
import Mathlib.Data.Multiset.Basic

/-!
# Priority queues over a comparison that is only locally an order

What a `std::priority_queue` with comparison `comp` promises.  The comparison need not
be an order on the whole type: it is enough that it is one on the elements the queue
holds (`Coherent`), and the promise about `top` is made only for queues that have
been coherent all along (`Ordered`).  Which of several equal elements comes first is
left open, and so is everything about the order of an incoherent queue.

* `PriorityQueue` — the interface with its laws; the contents are a multiset.
* `PriorityQueue.le_of_top` — the first element has the least key.
* `PriorityQueue.Built.drain_sorted`, `drain_perm` — a queue that only ever held elements
  the comparison orders gives them back sorted, whatever order they came in.
* `listQueue` — an implementation by selection from a list, which shows that the laws
  can be met and runs on concrete inputs.
-/

namespace OsmoTrx

/-- On the elements of `s` the comparison is the strict order of an integer key:
`comp x y` says that `y` goes before `x`. -/
def Coherent {α : Type} (comp : α → α → Bool) (s : Multiset α) : Prop :=
  ∃ key : α → ℤ, ∀ x ∈ s, ∀ y ∈ s, comp x y = true ↔ key y < key x

theorem Coherent.mono {α : Type} {comp : α → α → Bool} {s t : Multiset α}
    (h : Coherent comp t) (hst : s ⊆ t) : Coherent comp s := by
  obtain ⟨key, hkey⟩ := h
  exact ⟨key, fun x hx y hy => hkey x (hst hx) y (hst hy)⟩

/-- A priority queue of `α` under the comparison `comp`. -/
structure PriorityQueue (α : Type) (comp : α → α → Bool) where
  /-- The representation. -/
  Carrier : Type
  empty : Carrier
  push : Carrier → α → Carrier
  /-- The element that goes first, if there is one. -/
  top : Carrier → Option α
  /-- The queue without its first element. -/
  pop : Carrier → Carrier
  size : Carrier → ℕ
  /-- The contents. -/
  elems : Carrier → Multiset α
  /-- The queue has been coherent since it was last empty. -/
  Ordered : Carrier → Prop
  size_eq : ∀ q, size q = (elems q).card
  elems_empty : elems empty = 0
  elems_push : ∀ q x, elems (push q x) = x ::ₘ elems q
  top_eq_none : ∀ q, top q = none ↔ elems q = 0
  elems_pop : ∀ q x, top q = some x → elems q = x ::ₘ elems (pop q)
  ordered_empty : Ordered empty
  ordered_push : ∀ q x, Ordered q → Coherent comp (x ::ₘ elems q) → Ordered (push q x)
  ordered_pop : ∀ q, Ordered q → Coherent comp (elems q) → Ordered (pop q)
  top_first : ∀ q x, Ordered q → Coherent comp (elems q) → top q = some x →
    ∀ y ∈ elems q, comp x y = false

namespace PriorityQueue

variable {α : Type} {comp : α → α → Bool} (Q : PriorityQueue α comp)

theorem mem_of_top {q : Q.Carrier} {x : α} (h : Q.top q = some x) : x ∈ Q.elems q := by
  rw [Q.elems_pop q x h]
  exact Multiset.mem_cons_self x _

theorem elems_pop_subset {q : Q.Carrier} {x : α} (h : Q.top q = some x) :
    Q.elems (Q.pop q) ⊆ Q.elems q := by
  intro y hy
  rw [Q.elems_pop q x h]
  exact Multiset.mem_cons_of_mem hy

theorem size_pop {q : Q.Carrier} {x : α} (h : Q.top q = some x) :
    Q.size q = Q.size (Q.pop q) + 1 := by
  rw [Q.size_eq, Q.size_eq, Q.elems_pop q x h, Multiset.card_cons]

theorem top_eq_none_of_size {q : Q.Carrier} (h : Q.size q = 0) : Q.top q = none := by
  rw [Q.top_eq_none, ← Multiset.card_eq_zero, ← Q.size_eq, h]

/-- In a coherent queue the first element has the least key, for every key that
describes the comparison. -/
theorem le_of_top {q : Q.Carrier} {x y : α} {key : α → ℤ} (ho : Q.Ordered q)
    (hkey : ∀ x ∈ Q.elems q, ∀ y ∈ Q.elems q, comp x y = true ↔ key y < key x)
    (h : Q.top q = some x) (hy : y ∈ Q.elems q) : key x ≤ key y := by
  have hx := Q.mem_of_top h
  have hnot := Q.top_first q x ho ⟨key, hkey⟩ h y hy
  by_contra hlt
  have := (hkey x hx y hy).mpr (not_le.mp hlt)
  rw [hnot] at this
  exact Bool.false_ne_true this

/-! ### Queues of elements the comparison orders -/

/-- Push the elements of a list, one after the other. -/
def pushAll (q : Q.Carrier) (xs : List α) : Q.Carrier := xs.foldl Q.push q

/-- The first elements, popped one after the other, at most `n` of them. -/
def drain : ℕ → Q.Carrier → List α
  | 0, _ => []
  | n + 1, q =>
    match Q.top q with
    | none => []
    | some x => x :: drain n (Q.pop q)

/-- A queue built from the empty one by pushing elements that satisfy `P` and popping,
in any order. -/
inductive Built (P : α → Prop) : Q.Carrier → Prop
  | empty : Built P Q.empty
  | push (q : Q.Carrier) (x : α) : Built P q → P x → Built P (Q.push q x)
  | pop (q : Q.Carrier) (x : α) : Built P q → Q.top q = some x → Built P (Q.pop q)

variable {Q} {P : α → Prop}

theorem Built.mem {q : Q.Carrier} (h : Q.Built P q) : ∀ x ∈ Q.elems q, P x := by
  induction h with
  | empty =>
    intro x hx
    rw [Q.elems_empty] at hx
    exact absurd hx (Multiset.notMem_zero x)
  | push q x _ hx ih =>
    intro y hy
    rw [Q.elems_push] at hy
    rcases Multiset.mem_cons.mp hy with rfl | hy
    · exact hx
    · exact ih y hy
  | pop q x _ htop ih => exact fun y hy => ih y (Q.elems_pop_subset htop hy)

theorem Built.pushAll {q : Q.Carrier} (h : Q.Built P q) {xs : List α} (hxs : ∀ x ∈ xs, P x) :
    Q.Built P (Q.pushAll q xs) := by
  induction xs generalizing q with
  | nil => exact h
  | cons x xs ih =>
    rw [PriorityQueue.pushAll, List.foldl_cons]
    exact ih (h.push q x (hxs x List.mem_cons_self))
      fun y hy => hxs y (List.mem_cons_of_mem _ hy)

theorem elems_pushAll (q : Q.Carrier) (xs : List α) :
    Q.elems (Q.pushAll q xs) = ↑xs + Q.elems q := by
  induction xs generalizing q with
  | nil => exact (zero_add _).symm
  | cons x xs ih =>
    calc Q.elems (Q.pushAll q (x :: xs)) = ↑xs + Q.elems (Q.push q x) := ih _
      _ = ↑xs + x ::ₘ Q.elems q := by rw [Q.elems_push]
      _ = ↑(x :: xs) + Q.elems q := by
        rw [← Multiset.cons_coe, Multiset.cons_add, Multiset.add_cons]

/-- Draining a queue gives back its contents. -/
theorem drain_perm {n : ℕ} {q : Q.Carrier} (hn : Q.size q = n) :
    (↑(Q.drain n q) : Multiset α) = Q.elems q := by
  induction n generalizing q with
  | zero =>
    rw [Q.size_eq, Multiset.card_eq_zero] at hn
    rw [hn]
    rfl
  | succ n ih =>
    cases htop : Q.top q with
    | none =>
      rw [Q.size_eq, (Q.top_eq_none q).mp htop] at hn
      exact absurd hn (by simp)
    | some x =>
      have hsize := Q.size_pop htop
      rw [drain, htop, Q.elems_pop q x htop, ← ih (q := Q.pop q) (by omega), Multiset.cons_coe]

theorem mem_of_mem_drain {n : ℕ} {q : Q.Carrier} {x : α} (h : x ∈ Q.drain n q) :
    x ∈ Q.elems q := by
  induction n generalizing q with
  | zero => exact absurd h List.not_mem_nil
  | succ n ih =>
    cases htop : Q.top q with
    | none =>
      rw [drain, htop] at h
      exact absurd h List.not_mem_nil
    | some b =>
      rw [drain, htop] at h
      rcases List.mem_cons.mp h with rfl | h
      · exact Q.mem_of_top htop
      · exact Q.elems_pop_subset htop (ih h)

section Ordered

variable {key : α → ℤ} (hkey : ∀ x y, P x → P y → (comp x y = true ↔ key y < key x))
include hkey

theorem Built.coherent {q : Q.Carrier} (h : Q.Built P q) : Coherent comp (Q.elems q) :=
  ⟨key, fun x hx y hy => hkey x y (h.mem x hx) (h.mem y hy)⟩

/-- A queue that only ever held ordered elements is in order. -/
theorem Built.ordered {q : Q.Carrier} (h : Q.Built P q) : Q.Ordered q := by
  induction h with
  | empty => exact Q.ordered_empty
  | push q x hq hx ih =>
    refine Q.ordered_push q x ih ?_
    rw [← Q.elems_push]
    exact (hq.push q x hx).coherent hkey
  | pop q x hq _ ih => exact Q.ordered_pop q ih (hq.coherent hkey)

theorem Built.le_of_top {q : Q.Carrier} (h : Q.Built P q) {x y : α} (htop : Q.top q = some x)
    (hy : y ∈ Q.elems q) : key x ≤ key y :=
  Q.le_of_top (h.ordered hkey) (fun x hx y hy => hkey x y (h.mem x hx) (h.mem y hy)) htop hy

/-- **Draining it gives the elements in the order of their keys.** -/
theorem Built.drain_sorted (n : ℕ) {q : Q.Carrier} (h : Q.Built P q) :
    (Q.drain n q).Pairwise fun x y => key x ≤ key y := by
  induction n generalizing q with
  | zero => exact List.Pairwise.nil
  | succ n ih =>
    cases htop : Q.top q with
    | none =>
      rw [drain, htop]
      exact List.Pairwise.nil
    | some x =>
      rw [drain, htop]
      refine List.pairwise_cons.mpr ⟨fun y hy => ?_, ih (h.pop q x htop)⟩
      exact h.le_of_top hkey htop (Q.elems_pop_subset htop (mem_of_mem_drain hy))

end Ordered

end PriorityQueue

/-! ## An implementation -/

section ListQueue

variable {α : Type} (comp : α → α → Bool)

/-- The element of a list that goes first, and the others. -/
def extract : List α → Option (α × List α)
  | [] => none
  | x :: xs =>
    match extract xs with
    | none => some (x, [])
    | some (b, rest) => if comp x b then some (b, x :: rest) else some (x, xs)

theorem extract_eq_none {xs : List α} : extract comp xs = none ↔ xs = [] := by
  cases xs with
  | nil => simp [extract]
  | cons x xs =>
    rw [extract]
    cases extract comp xs with
    | none => simp
    | some p => by_cases hc : comp x p.1 = true <;> simp [hc]

theorem extract_perm {xs : List α} {b : α} {rest : List α} (h : extract comp xs = some (b, rest)) :
    xs.Perm (b :: rest) := by
  induction xs generalizing b rest with
  | nil => simp [extract] at h
  | cons x xs ih =>
    simp only [extract] at h
    cases hxs : extract comp xs with
    | none =>
      rw [hxs] at h
      rw [(extract_eq_none comp).mp hxs]
      simp only [Option.some.injEq, Prod.mk.injEq] at h
      rw [h.1, h.2]
    | some p =>
      obtain ⟨c, cs⟩ := p
      rw [hxs] at h
      by_cases hc : comp x c = true
      · simp only [hc, if_true, Option.some.injEq, Prod.mk.injEq] at h
        rw [← h.1, ← h.2]
        exact ((ih hxs).cons x).trans (List.Perm.swap c x cs)
      · simp only [hc, Bool.false_eq_true, if_false, Option.some.injEq, Prod.mk.injEq] at h
        rw [h.1, h.2]

theorem extract_first {xs : List α} {b : α} {rest : List α} {key : α → ℤ}
    (hkey : ∀ x ∈ xs, ∀ y ∈ xs, comp x y = true ↔ key y < key x)
    (h : extract comp xs = some (b, rest)) : ∀ y ∈ xs, key b ≤ key y := by
  induction xs generalizing b rest with
  | nil => intro y hy; simp at hy
  | cons x xs ih =>
    simp only [extract] at h
    cases hxs : extract comp xs with
    | none =>
      rw [hxs] at h
      rw [(extract_eq_none comp).mp hxs]
      simp only [Option.some.injEq, Prod.mk.injEq] at h
      intro y hy
      rw [List.mem_singleton.mp hy, h.1]
    | some p =>
      obtain ⟨c, cs⟩ := p
      have hmin : ∀ y ∈ xs, key c ≤ key y := ih (fun u hu v hv =>
        hkey u (List.mem_cons_of_mem _ hu) v (List.mem_cons_of_mem _ hv)) hxs
      have hcmem : c ∈ xs := (extract_perm comp hxs).mem_iff.mpr List.mem_cons_self
      have hxc := hkey x List.mem_cons_self c (List.mem_cons_of_mem _ hcmem)
      rw [hxs] at h
      intro y hy
      by_cases hc : comp x c = true
      · simp only [hc, if_true, Option.some.injEq, Prod.mk.injEq] at h
        rw [← h.1]
        rcases List.mem_cons.mp hy with rfl | hy
        · exact (hxc.mp hc).le
        · exact hmin y hy
      · simp only [hc, Bool.false_eq_true, if_false, Option.some.injEq, Prod.mk.injEq] at h
        have hle : key x ≤ key c := not_lt.mp fun hlt => hc (hxc.mpr hlt)
        rw [← h.1]
        rcases List.mem_cons.mp hy with rfl | hy
        · exact le_refl _
        · exact hle.trans (hmin y hy)

/-- A priority queue kept as a list, from which the first element is selected. -/
def listQueue : PriorityQueue α comp where
  Carrier := List α
  empty := []
  push q x := x :: q
  top q := (extract comp q).map Prod.fst
  pop q := ((extract comp q).map Prod.snd).getD []
  size := List.length
  elems q := q
  Ordered _ := True
  size_eq _ := rfl
  elems_empty := rfl
  elems_push _ _ := rfl
  top_eq_none q := by simp [extract_eq_none]
  elems_pop q x h := by
    obtain ⟨p, hp, rfl⟩ := Option.map_eq_some_iff.mp h
    rw [hp]
    exact Multiset.coe_eq_coe.mpr (extract_perm comp hp)
  ordered_empty := trivial
  ordered_push _ _ _ _ := trivial
  ordered_pop _ _ _ := trivial
  top_first q x _ hco h y hy := by
    obtain ⟨key, hkey⟩ := hco
    obtain ⟨p, hp, rfl⟩ := Option.map_eq_some_iff.mp h
    have hmem : p.1 ∈ q := (extract_perm comp hp).mem_iff.mpr List.mem_cons_self
    have hle := extract_first comp hkey hp y hy
    cases hc : comp p.1 y with
    | false => rfl
    | true => exact absurd ((hkey p.1 hmem y hy).mp hc) (not_lt.mpr hle)

end ListQueue

end OsmoTrx
