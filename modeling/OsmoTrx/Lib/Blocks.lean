import OsmoTrx.Lib.Heap
import OsmoTrx.Lib.Loop

/-!
# Memory in blocks

Blocks of cells that are allocated and freed.  A pointer may be null; a cell is found by its
distance from the beginning of a block.  Accesses outside of live blocks are errors, and so is
freeing a block with a function that does not belong to the one it was allocated with.

* `load_alloc`, `load_free`, `store_spec` — what can be loaded after each operation.
* `copy_spec` — **cells copied** one after the other, to another block or onto themselves.
* `copy_none`, `copy_fails` — a 32-bit counter does not get to the end of 2³² cells, and nothing is
  copied out of a block that has been freed.
-/

namespace OsmoTrx

/-- The blocks that are live, what is in them, and what kind of function allocated them. -/
structure Blocks (C : Type*) where
  heap : Heap
  block : ℕ → List C
  kind : ℕ → Bool

namespace Blocks

variable {C : Type*}

/-- A new block: its identity and the memory afterwards. -/
def alloc (m : Blocks C) (kind : Bool) (cells : List C) : ℕ × Blocks C :=
  (m.heap.new.1,
    { heap := m.heap.new.2
      block := Function.update m.block m.heap.new.1 cells
      kind := Function.update m.kind m.heap.new.1 kind })

/-- Free a block; freeing a null pointer does nothing. -/
def free (m : Blocks C) (kind : Bool) : Option ℕ → Option (Blocks C)
  | none => some m
  | some b =>
    if m.kind b = kind then (m.heap.delete (some b)).map fun heap => { m with heap := heap }
    else none

def load (m : Blocks C) (p : Option ℕ) (o : ℕ) : Option C :=
  p.bind fun b => if b ∈ m.heap.live then (m.block b)[o]? else none

def store (m : Blocks C) (p : Option ℕ) (o : ℕ) (c : C) : Option (Blocks C) :=
  p.bind fun b =>
    if b ∈ m.heap.live ∧ o < (m.block b).length then
      some { m with block := Function.update m.block b ((m.block b).set o c) }
    else none

variable {m m' : Blocks C} {p q : Option ℕ} {b o : ℕ}

@[simp] theorem load_null (o : ℕ) : m.load none o = none := rfl

theorem load_live (hb : b ∈ m.heap.live) (o : ℕ) : m.load (some b) o = (m.block b)[o]? :=
  if_pos hb

theorem load_freed (hb : b ∉ m.heap.live) (o : ℕ) : m.load (some b) o = none := if_neg hb

/-- The cells of a new block; those of earlier blocks are what they were. -/
theorem load_alloc (kind : Bool) (cells : List C) :
    (∀ o, (m.alloc kind cells).2.load (some (m.alloc kind cells).1) o = cells[o]?) ∧
      ∀ p, (∀ b, p = some b → b < m.heap.next) → p ≠ some (m.alloc kind cells).1 ∧
        ∀ o, (m.alloc kind cells).2.load p o = m.load p o := by
  refine ⟨fun o => ?_, fun p hp => ?_⟩
  · rw [load_live (Finset.mem_insert_self _ _)]
    exact congrArg (fun block : List C => block[o]?) (Function.update_self ..)
  · cases p with
    | none => exact ⟨(Option.some_ne_none _).symm, fun o => rfl⟩
    | some b =>
      have hne : b ≠ m.heap.next := (hp b rfl).ne
      refine ⟨fun heq => hne (Option.some.inj heq), fun o => ?_⟩
      by_cases hb : b ∈ m.heap.live
      · rw [load_live (Finset.mem_insert_of_mem hb), load_live hb]
        exact congrArg (fun block : List C => block[o]?) (Function.update_of_ne hne ..)
      · rw [load_freed hb, load_freed fun hmem => hb (Finset.mem_of_mem_insert_of_ne hmem hne)]

/-- A block that is freed has no cells, and those of the others are what they were. -/
theorem load_free {kind : Bool} (hp : ∀ b, p = some b → b ∈ m.heap.live ∧ m.kind b = kind) :
    ∃ m', m.free kind p = some m' ∧ m'.heap.next = m.heap.next ∧ (∀ o, m'.load p o = none) ∧
      ∀ q ≠ p, ∀ o, m'.load q o = m.load q o := by
  cases p with
  | none => exact ⟨m, rfl, rfl, fun o => rfl, fun q _ o => rfl⟩
  | some a =>
    obtain ⟨ha, hkind⟩ := hp a rfl
    have hlt : ∀ b ∈ m.heap.live.erase a, b < m.heap.next := fun b hb =>
      m.heap.live_lt b (Finset.mem_of_mem_erase hb)
    refine ⟨{ m with heap := ⟨m.heap.next, m.heap.live.erase a, hlt⟩ }, ?_, rfl, fun o => ?_,
      fun q hq o => ?_⟩
    · rw [free, if_pos hkind, Heap.delete, if_pos ha]
      rfl
    · exact load_freed (Finset.notMem_erase a m.heap.live) o
    · cases q with
      | none => rfl
      | some b =>
        have hne : b ≠ a := fun heq => hq (congrArg some heq)
        by_cases hb : b ∈ m.heap.live
        · rw [load_live hb, load_live (Finset.mem_erase.mpr ⟨hne, hb⟩)]
        · rw [load_freed hb, load_freed fun hmem => hb (Finset.mem_of_mem_erase hmem)]

/-- A cell that can be loaded can be stored to. -/
theorem store_spec (h : (m.load p o).isSome) (c : C) :
    ∃ m', m.store p o c = some m' ∧ m'.heap = m.heap ∧ m'.load p o = some c ∧
      ∀ q o', (q = p → o' ≠ o) → m'.load q o' = m.load q o' := by
  cases p with
  | none => exact absurd h (by simp)
  | some b =>
    have hb : b ∈ m.heap.live := by
      by_contra hb
      rw [load_freed hb] at h
      exact Bool.false_ne_true h
    have hlt : o < (m.block b).length := by
      rw [load_live hb] at h
      simpa using h
    refine ⟨{ m with block := Function.update m.block b ((m.block b).set o c) }, ?_, rfl, ?_,
      fun q o' hne => ?_⟩
    · rw [store, Option.bind_some, if_pos ⟨hb, hlt⟩]
    · simp only [load, Option.bind_some, if_pos hb, Function.update_self,
        List.getElem?_set_self hlt]
    · cases q with
      | none => rfl
      | some a =>
        by_cases hab : a = b
        · subst hab
          simp only [load, Option.bind_some, if_pos hb, Function.update_self,
            List.getElem?_set_ne (hne rfl).symm]
        · simp only [load, Option.bind_some, Function.update_of_ne hab]

/-! ## Copying -/

/-- The counter, the two pointers and the memory in a loop that copies. -/
structure Copying (C : Type*) where
  i : ℕ
  src : ℕ
  dst : ℕ
  mem : Blocks C

/-- `*dst = *src; i++, src++, dst++`. -/
def Copying.turn (p q : Option ℕ) (s : Copying C) : Option (Copying C) := do
  let c ← s.mem.load p s.src
  let mem ← s.mem.store q s.dst c
  some ⟨(s.i + 1) % 2 ^ 32, s.src + 1, s.dst + 1, mem⟩

/-- `for (unsigned i = 0; i < span; i++, src++, dst++) *dst = *src`.  A loop that ends takes no more
turns than given here. -/
def copy (m : Blocks C) (span : ℕ) (p : Option ℕ) (src : ℕ) (q : Option ℕ) (dst : ℕ) :
    Option (Blocks C) :=
  (Loop.whileM (fun s => decide (s.i < span)) (Copying.turn p q) span ⟨0, src, dst, m⟩).map
    Copying.mem

variable {span src dst : ℕ}

/-- The first cells have been copied. -/
structure Copied (m : Blocks C) (span : ℕ) (p : Option ℕ) (src : ℕ) (q : Option ℕ) (dst : ℕ)
    (s : Copying C) : Prop where
  i_le : s.i ≤ span
  src_eq : s.src = src + s.i
  dst_eq : s.dst = dst + s.i
  heap : s.mem.heap = m.heap
  copied : ∀ k < s.i, s.mem.load q (dst + k) = m.load p (src + k)
  others : ∀ r o, (r = q → ¬ (dst ≤ o ∧ o < dst + s.i)) → s.mem.load r o = m.load r o

theorem Copied.turn {s : Copying C} (h : Copied m span p src q dst s) (hspan : span < 2 ^ 32)
    (hlt : s.i < span) (hsrc : (m.load p (src + s.i)).isSome)
    (hdst : (m.load q (dst + s.i)).isSome) (hpq : p = q → src = dst) :
    ∃ s', s.turn p q = some s' ∧ Copied m span p src q dst s' ∧ s'.i = s.i + 1 := by
  obtain ⟨c, hc⟩ := Option.isSome_iff_exists.mp hsrc
  have hload : s.mem.load p s.src = some c := by
    rw [h.src_eq, h.others p _ fun heq => by rw [hpq heq]; omega, hc]
  have hcell : (s.mem.load q s.dst).isSome := by
    rw [h.dst_eq, h.others q _ fun _ => by omega]
    exact hdst
  obtain ⟨mem, hstore, hheap, hnew, hframe⟩ := store_spec hcell c
  have hi : (s.i + 1) % 2 ^ 32 = s.i + 1 := Nat.mod_eq_of_lt (by omega)
  refine ⟨⟨(s.i + 1) % 2 ^ 32, s.src + 1, s.dst + 1, mem⟩, ?_, ?_, hi⟩
  · rw [Copying.turn, hload, Option.bind_eq_bind, Option.bind_some, hstore]
    rfl
  · rw [hi]
    refine ⟨hlt, by rw [h.src_eq, add_assoc], by rw [h.dst_eq, add_assoc], hheap.trans h.heap,
      fun k hk => ?_, fun r o (hr : r = q → ¬ (dst ≤ o ∧ o < dst + (s.i + 1))) => ?_⟩
    · rcases Nat.lt_succ_iff_lt_or_eq.mp hk with hk | rfl
      · rw [hframe q _ fun _ => by rw [h.dst_eq]; omega, h.copied k hk]
      · rw [← h.dst_eq, hnew, hc]
    · rw [hframe r o fun heq => by have hout := hr heq; rw [h.dst_eq]; omega,
        h.others r o fun heq => by have hout := hr heq; omega]

/-- **Cells copied** one after the other. -/
theorem copy_spec (hspan : span < 2 ^ 32) (hsrc : ∀ k < span, (m.load p (src + k)).isSome)
    (hdst : ∀ k < span, (m.load q (dst + k)).isSome) (hpq : 0 < span → p = q → src = dst) :
    ∃ m', m.copy span p src q dst = some m' ∧ m'.heap = m.heap ∧
      (∀ k < span, m'.load q (dst + k) = m.load p (src + k)) ∧
      ∀ r o, (r = q → ¬ (dst ≤ o ∧ o < dst + span)) → m'.load r o = m.load r o := by
  have hinit : Copied m span p src q dst ⟨0, src, dst, m⟩ :=
    ⟨Nat.zero_le _, rfl, rfl, rfl, fun k hk => absurd hk (Nat.not_lt_zero k), fun _ _ _ => rfl⟩
  obtain ⟨s, hloop, h, hend⟩ := Loop.whileM_spec (Copied m span p src q dst)
    (fun s => span - s.i) (fun s h hcond => by
      have hlt : s.i < span := of_decide_eq_true hcond
      obtain ⟨s', hturn, h', hi⟩ := h.turn hspan hlt (hsrc _ hlt) (hdst _ hlt)
        (hpq (Nat.zero_lt_of_lt hlt))
      exact ⟨s', hturn, h', by omega⟩) hinit (show span - 0 ≤ span from Nat.sub_le _ _)
  have hi : s.i = span := by
    have hge : ¬ s.i < span := of_decide_eq_false hend
    have hle := h.i_le
    omega
  exact ⟨s.mem, by rw [copy, hloop, Option.map_some], h.heap, hi ▸ h.copied, hi ▸ h.others⟩

/-- Nothing is copied from where there is no cell. -/
theorem copy_fails (hspan : 0 < span) (hsrc : m.load p src = none) :
    m.copy span p src q dst = none := by
  obtain ⟨n, rfl⟩ := Nat.exists_eq_add_of_lt hspan
  rw [copy, Nat.zero_add, Loop.whileM, if_pos (decide_eq_true (Nat.succ_pos n)), Copying.turn, hsrc]
  rfl

/-- **A 32-bit counter** does not get to the end of 2³² cells. -/
theorem copy_none (hspan : 2 ^ 32 ≤ span) : m.copy span p src q dst = none := by
  rw [copy, Loop.whileM_diverges (fun s => s.i < 2 ^ 32) (fun s hs => decide_eq_true (by omega)) _
    (show 0 < 2 ^ 32 by decide)]
  · rfl
  · intro s s' _ hturn
    simp only [Copying.turn, Option.bind_eq_bind, Option.bind_eq_some_iff] at hturn
    obtain ⟨c, -, mem, -, hs'⟩ := hturn
    rw [← Option.some.inj hs']
    exact Nat.mod_lt _ (by decide)

end Blocks
end OsmoTrx
