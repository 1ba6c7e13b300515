import Mathlib.Tactic
import Mathlib.Algebra.BigOperators.Fin

/-!
# A heap of objects with one owner each

Objects have an identity, which is never given out again, and are live or deleted.  Pointers may
be null; deleting a null pointer does nothing, and deleting an object that is not live is an
error.

* `Heap.Owns` — a collection of pointers owns the heap: none of them is null, all objects they
  point to are live, and every live object is pointed to by exactly one of them.
* `Owns.new`, `Owns.delete`, `Owns.foldlM` — how creating and deleting objects changes what
  owns the heap.  What else the collection holds is a frame and plays no part.
* `ptr`, `Owns.delete_ptr` — the same for a pointer that may be null.
* `Heap.Follows`, `Follows.dead` — what is deleted stays deleted.
* `sum_eq_part_add`, `sum_eq_part_add_of_ne`, `values_update`, `tableValues_store` — collections
  with a part for each index, of which one changes.
-/

namespace OsmoTrx

/-- The objects that are live; identities are given out in order. -/
structure Heap where
  next : ℕ
  live : Finset ℕ
  live_lt : ∀ a ∈ live, a < next

namespace Heap

/-- A new object: its identity and the heap afterwards. -/
def new (h : Heap) : ℕ × Heap :=
  (h.next,
    { next := h.next + 1
      live := insert h.next h.live
      live_lt := fun a ha => by
        rcases Finset.mem_insert.mp ha with rfl | ha
        · exact Nat.lt_succ_self _
        · exact (h.live_lt a ha).trans (Nat.lt_succ_self _) })

/-- Delete what a pointer points to; `none` if that is not live. -/
def delete (h : Heap) : Option ℕ → Option Heap
  | none => some h
  | some a =>
    if a ∈ h.live then
      some { h with
        live := h.live.erase a
        live_lt := fun b hb => h.live_lt b (Finset.mem_of_mem_erase hb) }
    else none

/-- The pointers `owners` own the heap. -/
def Owns (h : Heap) (owners : Multiset (Option ℕ)) : Prop := h.live.val.map some = owners

namespace Owns

variable {h : Heap} {owners : Multiset (Option ℕ)} {p : Option ℕ}

/-- An owner points to a live object. -/
theorem live (ho : h.Owns owners) (hp : p ∈ owners) : ∃ a, p = some a ∧ a ∈ h.live := by
  rw [← ho] at hp
  obtain ⟨a, ha, rfl⟩ := Multiset.mem_map.mp hp
  exact ⟨a, rfl, ha⟩

/-- **A live object has exactly one owner**, and one that is not live has none. -/
theorem count (ho : h.Owns owners) (a : ℕ) :
    owners.count (some a) = if a ∈ h.live then 1 else 0 := by
  rw [← ho, Multiset.count_map_eq_count' _ _ (Option.some_injective ℕ),
    Multiset.count_eq_of_nodup h.live.nodup]
  rfl

/-- A new object is owned by the pointer to it. -/
theorem new (ho : h.Owns owners) : h.new.2.Owns (some h.new.1 ::ₘ owners) := by
  have hfresh : h.next ∉ h.live := fun hmem => lt_irrefl _ (h.live_lt _ hmem)
  rw [Owns, ← ho]
  simp only [Heap.new]
  rw [Finset.insert_val_of_notMem hfresh, Multiset.map_cons]

/-- An owner can be deleted, and the others own the rest. -/
theorem delete (ho : h.Owns (p ::ₘ owners)) : ∃ h', h.delete p = some h' ∧ h'.Owns owners := by
  obtain ⟨a, rfl, ha⟩ := ho.live (Multiset.mem_cons_self p owners)
  refine ⟨_, by rw [Heap.delete, if_pos ha], ?_⟩
  have herase : (h.live.erase a).val.map some = (h.live.val.map some).erase (some a) := by
    rw [Finset.erase_val, Multiset.map_erase _ (Option.some_injective ℕ)]
  rw [Owns, herase, show h.live.val.map some = _ from ho, Multiset.erase_cons_head]

/-- Parts of the owners are deleted one after the other by a step that deletes one part. -/
theorem foldlM {ι : Type*} {step : Heap → ι → Option Heap} {part : ι → Multiset (Option ℕ)}
    (hstep : ∀ i h (owners : Multiset (Option ℕ)), h.Owns (part i + owners) →
      ∃ h', step h i = some h' ∧ h'.Owns owners) (l : List ι) :
    ∀ {h : Heap}, h.Owns ((l.map part).sum + owners) →
      ∃ h', l.foldlM step h = some h' ∧ h'.Owns owners := by
  induction l with
  | nil => exact fun {h} ho => ⟨h, rfl, by simpa using ho⟩
  | cons i l ih =>
    intro h ho
    rw [List.map_cons, List.sum_cons, add_assoc] at ho
    obtain ⟨h₁, hfirst, ho₁⟩ := hstep i h _ ho
    obtain ⟨h', hrest, ho'⟩ := ih ho₁
    exact ⟨h', by rw [List.foldlM_cons, hfirst]; exact hrest, ho'⟩

end Owns

/-! ## Pointers that may be null -/

/-- What a pointer owns: itself, unless it is null. -/
def ptr : Option ℕ → Multiset (Option ℕ)
  | none => 0
  | some a => {some a}

@[simp] theorem ptr_none : ptr none = 0 := rfl

@[simp] theorem ptr_some (a : ℕ) : ptr (some a) = {some a} := rfl

theorem Owns.delete_ptr {h : Heap} {owners : Multiset (Option ℕ)} {p : Option ℕ}
    (ho : h.Owns (ptr p + owners)) : ∃ h', h.delete p = some h' ∧ h'.Owns owners := by
  cases p with
  | none => exact ⟨h, rfl, by simpa using ho⟩
  | some a => exact Owns.delete (by simpa using ho)

/-! ## Later heaps -/

/-- What the heap becomes: identities go on, and no object comes back. -/
structure Follows (h h' : Heap) : Prop where
  next : h.next ≤ h'.next
  live : ∀ a < h.next, a ∈ h'.live → a ∈ h.live

namespace Follows

variable {h h₁ h' : Heap}

theorem refl (h : Heap) : Follows h h := ⟨le_rfl, fun _ _ ha => ha⟩

theorem trans (hfirst : Follows h h₁) (hrest : Follows h₁ h') : Follows h h' :=
  ⟨hfirst.next.trans hrest.next,
    fun a ha hlive => hfirst.live a ha (hrest.live a (ha.trans_le hfirst.next) hlive)⟩

theorem new (h : Heap) : Follows h h.new.2 := by
  refine ⟨Nat.le_succ _, fun a ha hlive => ?_⟩
  rcases Finset.mem_insert.mp hlive with rfl | hlive
  · exact absurd ha (lt_irrefl _)
  · exact hlive

theorem delete {p : Option ℕ} (hdel : h.delete p = some h') : Follows h h' := by
  cases p with
  | none =>
    cases hdel
    exact refl h
  | some a =>
    simp only [Heap.delete, Option.ite_none_right_eq_some, Option.some.injEq] at hdel
    rw [← hdel.2]
    exact ⟨le_rfl, fun b _ hlive => Finset.mem_of_mem_erase hlive⟩

theorem foldlM {ι : Type*} {step : Heap → ι → Option Heap}
    (hstep : ∀ i h h', step h i = some h' → Follows h h') {l : List ι} :
    ∀ {h h' : Heap}, l.foldlM step h = some h' → Follows h h' := by
  induction l with
  | nil =>
    intro h h' hfold
    cases hfold
    exact refl h
  | cons i l ih =>
    intro h h' hfold
    rw [List.foldlM_cons] at hfold
    obtain ⟨h₁, hfirst, hrest⟩ := Option.bind_eq_some_iff.mp hfold
    exact (hstep i h h₁ hfirst).trans (ih hrest)

end Follows

/-- An object that is no more. -/
def Dead (h : Heap) (a : ℕ) : Prop := a < h.next ∧ a ∉ h.live

/-- **What is deleted stays deleted.** -/
theorem Dead.follows {h h' : Heap} {a : ℕ} (hd : h.Dead a) (hf : Follows h h') : h'.Dead a :=
  ⟨hd.1.trans_le hf.next, fun hlive => hd.2 (hf.live a hd.1 hlive)⟩

theorem dead_of_delete {h h' : Heap} {a : ℕ} (hdel : h.delete (some a) = some h') : h'.Dead a := by
  simp only [delete, Option.ite_none_right_eq_some, Option.some.injEq] at hdel
  rw [← hdel.2]
  exact ⟨h.live_lt a hdel.1, Finset.notMem_erase a _⟩

/-- Deleting an object again is an error. -/
theorem delete_dead {h : Heap} {a : ℕ} (hd : h.Dead a) : h.delete (some a) = none := if_neg hd.2

end Heap

/-! ## Collections with a part for each index -/

section Parts

variable {ι M : Type*} [Fintype ι] [DecidableEq ι] [AddCommMonoid M]

/-- One part apart from the others. -/
theorem sum_eq_part_add (f : ι → M) (k : ι) : ∑ i, f i = f k + ∑ i ∈ Finset.univ.erase k, f i :=
  (Finset.add_sum_erase _ f (Finset.mem_univ k)).symm

/-- The other parts do not change if one does. -/
theorem sum_eq_part_add_of_ne {f g : ι → M} {k : ι} (h : ∀ i, i ≠ k → g i = f i) :
    ∑ i, g i = g k + ∑ i ∈ Finset.univ.erase k, f i := by
  rw [sum_eq_part_add g k]
  exact congrArg _ (Finset.sum_congr rfl fun i hi => h i (Finset.ne_of_mem_erase hi))

/-- The values of a function, one for each index. -/
def values {α : Type*} (f : ι → α) : Multiset α := ∑ i, {f i}

omit [DecidableEq ι] in
theorem mem_values {α : Type*} (f : ι → α) (i : ι) : f i ∈ values f := by
  rw [values, Multiset.mem_sum]
  exact ⟨i, Finset.mem_univ i, Multiset.mem_singleton_self _⟩

/-- If one value changes, the old and the new one change places. -/
theorem values_update {α : Type*} {f g : ι → α} {k : ι} (h : ∀ i, i ≠ k → g i = f i) :
    f k ::ₘ values g = g k ::ₘ values f := by
  have hf : values f = {f k} + ∑ i ∈ Finset.univ.erase k, {f i} :=
    sum_eq_part_add (fun i => ({f i} : Multiset α)) k
  have hg : values g = {g k} + ∑ i ∈ Finset.univ.erase k, {f i} :=
    sum_eq_part_add_of_ne fun i hi => by rw [h i hi]
  rw [hf, hg]
  simp only [Multiset.singleton_add]
  exact Multiset.cons_swap _ _ _

variable {κ α : Type*} [Fintype κ] [DecidableEq κ]

/-- The values of a table, row by row.  Irreducible, since a large table is not to be unfolded
where a statement about it is looked at. -/
@[irreducible] def tableValues (t : ι → κ → α) : Multiset α := ∑ i, values (t i)

omit [DecidableEq ι] [DecidableEq κ] in
theorem mem_tableValues (t : ι → κ → α) (i : ι) (k : κ) : t i k ∈ tableValues t := by
  rw [tableValues, Multiset.mem_sum]
  exact ⟨i, Finset.mem_univ i, mem_values (t i) k⟩

/-- A value that is stored in a cell changes places with the one that the cell had. -/
theorem tableValues_store (t : ι → κ → α) (i : ι) (k : κ) (v : α) :
    t i k ::ₘ tableValues (Function.update t i (Function.update (t i) k v)) =
      v ::ₘ tableValues t := by
  have hrow : t i k ::ₘ values (Function.update (t i) k v) = v ::ₘ values (t i) := by
    have h := values_update (f := t i) (g := Function.update (t i) k v) (k := k)
      fun c hc => Function.update_of_ne hc _ _
    rwa [Function.update_self] at h
  rw [tableValues, tableValues, sum_eq_part_add_of_ne (k := i) (f := fun r => values (t r))
    (fun r hr => by rw [Function.update_of_ne hr]),
    sum_eq_part_add (fun r => values (t r)) i, Function.update_self,
    ← Multiset.cons_add, hrow, Multiset.cons_add]

/-! ### Numbered objects -/

/-- The values of a function on the numbers below `m`. -/
theorem values_fin (f : ℕ → α) (m : ℕ) :
    values (fun k : Fin m => f k) = (Multiset.range m).map f := by
  rw [values, ← Finset.sum_range fun k => ({f k} : Multiset α)]
  induction m with
  | zero => rfl
  | succ m ih =>
    rw [Finset.sum_range_succ, ih, Multiset.range_succ, Multiset.map_cons, add_comm,
      Multiset.singleton_add]

/-- Blocks of `b` numbers each, one after the other. -/
theorem sum_values_fin (f : ℕ → α) (a b : ℕ) :
    ∑ i : Fin a, values (fun j : Fin b => f (j + b * i)) = values fun k : Fin (a * b) => f k := by
  simp only [values]
  rw [← finProdFinEquiv.sum_comp, Fintype.sum_prod_type]
  rfl

theorem tableValues_fin (f : ℕ → α) (a b : ℕ) :
    tableValues (fun (i : Fin a) (j : Fin b) => f (j + b * i)) =
      values fun k : Fin (a * b) => f k := by
  rw [tableValues]
  exact sum_values_fin f a b

end Parts

end OsmoTrx
