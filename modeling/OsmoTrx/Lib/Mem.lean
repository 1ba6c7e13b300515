import Mathlib.Tactic

/-!
# Flat memory and ring buffers

An array is a function `ℕ → α` from indices to elements; copying a list into it and
out of it is `blit` and `slice`.  On top of these a ring of `c` cells starting at
index `b`: the cell `k` places after a start cell `r < c` is `b + (r + k) % c`.

* `blit_apply`, `slice_eq_of_forall` — what a copy reads and writes.
* `ringWrite`, `ringRead` — the two-piece copies of a ring that wraps.
* `Stored` — a list lies in the ring, in order, from a start cell on.
* `writes_apply` — of the values written to a cell one after the other, the last stays.
* `stored_ringWrite` — writing after the end of a stored list appends to it, as long
  as both fit; `ringRead_eq_take` and `stored_drop` — reading from the start takes
  the first elements off.  These three are all a ring buffer's correctness needs.
-/

namespace OsmoTrx
namespace Mem

variable {α : Type*}

/-! ## Copies -/

/-- Memory after copying `xs` to the cells from `off` on. -/
def blit (m : ℕ → α) (off : ℕ) (xs : List α) : ℕ → α := fun i =>
  if i < off then m i else (xs[i - off]?).getD (m i)

/-- The contents of the `len` cells from `off` on. -/
def slice (m : ℕ → α) (off len : ℕ) : List α := (List.range len).map fun i => m (off + i)

@[simp] theorem length_slice (m : ℕ → α) (off len : ℕ) : (slice m off len).length = len := by
  simp [slice]

@[simp] theorem getElem_slice (m : ℕ → α) (off len i : ℕ) (h : i < (slice m off len).length) :
    (slice m off len)[i] = m (off + i) := by
  simp [slice]

@[simp] theorem slice_zero (m : ℕ → α) (off : ℕ) : slice m off 0 = [] := rfl

/-- A slice is the list whose elements the cells hold. -/
theorem slice_eq_of_forall {m : ℕ → α} {off : ℕ} {xs : List α}
    (h : ∀ i (hi : i < xs.length), m (off + i) = xs[i]) : slice m off xs.length = xs := by
  refine List.ext_getElem (by simp) fun i h1 h2 => ?_
  rw [getElem_slice]
  exact h i h2

theorem slice_append (m : ℕ → α) (off a b : ℕ) :
    slice m off (a + b) = slice m off a ++ slice m (off + a) b := by
  simp [slice, List.range_add, Function.comp_def, Nat.add_assoc]

@[simp] theorem blit_nil (m : ℕ → α) (off : ℕ) : blit m off [] = m := by
  funext i
  simp [blit]

/-- A cell the copy covers holds the element copied there. -/
theorem blit_apply {m : ℕ → α} {off k : ℕ} {xs : List α} (h : k < xs.length) :
    blit m off xs (off + k) = xs[k] := by
  simp [blit, h]

/-- A cell below the copy is unchanged. -/
theorem blit_of_lt {m : ℕ → α} {off i : ℕ} {xs : List α} (h : i < off) :
    blit m off xs i = m i := by
  simp [blit, h]

/-- A cell above the copy is unchanged. -/
theorem blit_of_ge {m : ℕ → α} {off i : ℕ} {xs : List α} (h : off + xs.length ≤ i) :
    blit m off xs i = m i := by
  have hnone : xs[i - off]? = none := List.getElem?_eq_none (by omega)
  simp [blit, hnone]

/-- Reading back what was just copied. -/
theorem slice_blit (m : ℕ → α) (off : ℕ) (xs : List α) :
    slice (blit m off xs) off xs.length = xs :=
  slice_eq_of_forall fun _ hi => blit_apply hi

/-- A slice away from what a copy writes is unchanged. -/
theorem slice_blit_of_disjoint {m : ℕ → α} {off a n : ℕ} {xs : List α}
    (h : a + n ≤ off ∨ off + xs.length ≤ a) : slice (blit m off xs) a n = slice m a n := by
  refine List.map_congr_left fun i hi => ?_
  have hlt : i < n := List.mem_range.mp hi
  rcases h with h | h
  · exact blit_of_lt (by omega)
  · exact blit_of_ge (by omega)

/-- A piece of a slice. -/
theorem take_drop_slice (m : ℕ → α) (off : ℕ) {len a b : ℕ} (h : a + b ≤ len) :
    ((slice m off len).drop a).take b = slice m (off + a) b := by
  refine List.ext_getElem (by simp; omega) fun i h1 h2 => ?_
  rw [List.getElem_take, List.getElem_drop, getElem_slice, getElem_slice, Nat.add_assoc]

/-- Pieces of `c` elements each, the last one perhaps shorter, make up the list. -/
theorem flatMap_pieces {xs : List α} {c n : ℕ} (h : xs.length ≤ c * n) :
    ((List.range n).flatMap fun i => (xs.drop (c * i)).take c) = xs := by
  have hpieces : ∀ n, ((List.range n).flatMap fun i => (xs.drop (c * i)).take c) =
      xs.take (c * n) := by
    intro n
    induction n with
    | zero => simp
    | succ n ih =>
      rw [List.range_succ, List.flatMap_append, ih, List.flatMap_singleton, Nat.mul_succ,
        List.take_add]
  rw [hpieces, List.take_of_length_le h]

/-- A piece of a list stays when the list is extended. -/
theorem take_drop_append {xs : List α} (ys : List α) {s len : ℕ} (h : s + len ≤ xs.length) :
    ((xs ++ ys).drop s).take len = (xs.drop s).take len := by
  rw [List.drop_append_of_le_length (by omega),
    List.take_append_of_le_length (by rw [List.length_drop]; omega)]

/-! ## Writes to single cells -/

section Writes

variable {κ β : Type*} [DecidableEq κ] {key : β → Option κ} {val : β → α}

/-- Memory after every element of a list, in order, has written its value to its cell; an
element need not have one. -/
def writes (key : β → Option κ) (val : β → α) (m : κ → α) (l : List β) : κ → α :=
  l.foldl (fun m b => (key b).elim m fun k => Function.update m k (val b)) m

@[simp] theorem writes_nil (m : κ → α) : writes key val m [] = m := rfl

theorem writes_append (m : κ → α) (l l' : List β) :
    writes key val m (l ++ l') = writes key val (writes key val m l) l' := by
  simp [writes, List.foldl_append]

theorem writes_singleton {b : β} {k : κ} (h : key b = some k) (m : κ → α) :
    writes key val m [b] = Function.update m k (val b) := by
  simp [writes, h]

/-- **The last write stays.** -/
theorem writes_apply (m : κ → α) (l : List β) (k : κ) :
    writes key val m l k = ((l.filter fun b => key b = some k).getLast?.map val).getD (m k) := by
  induction l using List.reverseRecOn with
  | nil => rfl
  | append_singleton l b ih =>
    rw [writes_append, List.filter_append]
    by_cases hb : key b = some k
    · rw [writes_singleton hb]
      simp [hb]
    · have hother : writes key val (writes key val m l) [b] k = writes key val m l k := by
        cases hkey : key b with
        | none => simp [writes, hkey]
        | some k' =>
          have hne : k ≠ k' := fun heq => hb (heq ▸ hkey)
          rw [writes_singleton hkey, Function.update_of_ne hne]
      rw [hother, ih]
      simp [hb]

end Writes

/-! ## Rings -/

/-- Copy `xs` into the ring of `c` cells at `b`, starting at cell `w` and wrapping. -/
def ringWrite (m : ℕ → α) (b c w : ℕ) (xs : List α) : ℕ → α :=
  if w + xs.length ≤ c then blit m (b + w) xs
  else blit (blit m (b + w) (xs.take (c - w))) b (xs.drop (c - w))

/-- Copy `n` elements out of the ring of `c` cells at `b`, starting at cell `r`. -/
def ringRead (m : ℕ → α) (b c r n : ℕ) : List α :=
  if r + n ≤ c then slice m (b + r) n
  else slice m (b + r) (c - r) ++ slice m b (n - (c - r))

/-- Wrapping an index that is at most once around the ring. -/
theorem ring_index {c w k : ℕ} (hw : w < c) (hk : k < c) :
    (w + k) % c = if w + k < c then w + k else w + k - c := by
  split_ifs with h
  · exact Nat.mod_eq_of_lt h
  · rw [Nat.mod_eq_sub_mod (by omega), Nat.mod_eq_of_lt (by omega)]

/-- What a ring holds after a write: the new elements from `w` on, the old ones
elsewhere. -/
theorem ringWrite_apply {m : ℕ → α} {b c w k : ℕ} {xs : List α} (hw : w < c) (hk : k < c)
    (hlen : xs.length ≤ c) :
    ringWrite m b c w xs (b + (w + k) % c) =
      if h : k < xs.length then xs[k] else m (b + (w + k) % c) := by
  rw [ring_index hw hk]
  unfold ringWrite
  split_ifs with hfit hwrap hin hin hwrap hin hin
  · rw [← Nat.add_assoc]; exact blit_apply hin
  · exact blit_of_ge (by omega)
  · omega
  · -- the cell has wrapped, so it lies below the block that was written
    exact blit_of_lt (by omega)
  · rw [blit_of_ge (by simp; omega), ← Nat.add_assoc,
      blit_apply (by simp; omega), List.getElem_take]
  · omega
  · have hk' : k - (c - w) < (xs.drop (c - w)).length := by simp; omega
    rw [show w + k - c = k - (c - w) by omega, blit_apply hk', List.getElem_drop]
    congr 1
    omega
  · rw [blit_of_ge (by simp; omega), blit_of_lt (by omega)]

/-- What a ring read returns. -/
theorem getElem_ringRead {m : ℕ → α} {b c r n k : ℕ} (hr : r < c) (hn : n ≤ c) (hk : k < n)
    (h : k < (ringRead m b c r n).length) :
    (ringRead m b c r n)[k] = m (b + (r + k) % c) := by
  rw [ring_index hr (by omega)]
  by_cases hfit : r + n ≤ c
  · simp only [ringRead, if_pos hfit, getElem_slice]
    congr 1
    split_ifs <;> omega
  · simp only [ringRead, if_neg hfit]
    by_cases hlt : r + k < c
    · rw [List.getElem_append_left (by simp; omega), getElem_slice, if_pos hlt, Nat.add_assoc]
    · rw [List.getElem_append_right (by simp; omega), getElem_slice, if_neg hlt]
      congr 1
      simp only [length_slice]
      omega

@[simp] theorem length_ringRead {m : ℕ → α} {b c r n : ℕ} (hr : r ≤ c) :
    (ringRead m b c r n).length = n := by
  unfold ringRead
  split_ifs with hfit
  · simp
  · simp only [List.length_append, length_slice]; omega

/-! ## Lists stored in a ring -/

/-- The list `xs` lies in the ring of `c` cells at `b`, in order from cell `r` on. -/
def Stored (m : ℕ → α) (b c r : ℕ) (xs : List α) : Prop :=
  ∀ k (h : k < xs.length), m (b + (r + k) % c) = xs[k]

@[simp] theorem stored_nil (m : ℕ → α) (b c r : ℕ) : Stored m b c r [] := by
  intro k hk
  simp at hk

/-- **Writing behind a stored list appends to it.** -/
theorem stored_ringWrite {m : ℕ → α} {b c r : ℕ} {xs ys : List α} (hc : 0 < c)
    (hs : Stored m b c r xs) (hfit : xs.length + ys.length ≤ c) :
    Stored (ringWrite m b c ((r + xs.length) % c) ys) b c r (xs ++ ys) := by
  have hw : (r + xs.length) % c < c := Nat.mod_lt _ hc
  intro k hk
  rw [List.length_append] at hk
  by_cases hold : k < xs.length
  · -- an old cell, seen from the write position, lies beyond what is written
    have hpos : ((r + xs.length) % c + (c - xs.length + k)) % c = (r + k) % c := by
      rw [Nat.mod_add_mod, show r + xs.length + (c - xs.length + k) = r + k + c by omega,
        Nat.add_mod_right]
    rw [← hpos, ringWrite_apply hw (by omega) (by omega), dif_neg (by omega), hpos, hs k hold,
      List.getElem_append_left hold]
  · have hpos : ((r + xs.length) % c + (k - xs.length)) % c = (r + k) % c := by
      rw [Nat.mod_add_mod, show r + xs.length + (k - xs.length) = r + k by omega]
    rw [← hpos, ringWrite_apply hw (by omega) (by omega), dif_pos (by omega),
      List.getElem_append_right (by omega)]

/-- **Reading from the start of a stored list takes its first elements.** -/
theorem ringRead_eq_take {m : ℕ → α} {b c r n : ℕ} {xs : List α} (hr : r < c)
    (hs : Stored m b c r xs) (hn : n ≤ xs.length) (hxs : xs.length ≤ c) :
    ringRead m b c r n = xs.take n := by
  have hlen : (ringRead m b c r n).length = n := length_ringRead hr.le
  refine List.ext_getElem (by rw [hlen, List.length_take]; omega) fun k h1 h2 => ?_
  rw [getElem_ringRead hr (by omega) (by omega) h1, List.getElem_take]
  exact hs k (by omega)

/-- After a read the rest of the list is stored from the new start. -/
theorem stored_drop {m : ℕ → α} {b c r n : ℕ} {xs : List α} (hs : Stored m b c r xs) :
    Stored m b c ((r + n) % c) (xs.drop n) := by
  intro k hk
  rw [List.length_drop] at hk
  rw [Nat.mod_add_mod, Nat.add_assoc, hs (n + k) (by omega), List.getElem_drop]

/-- The start cell matters only modulo the size of the ring. -/
theorem stored_mod {m : ℕ → α} {b c r : ℕ} {xs : List α} :
    Stored m b c (r % c) xs ↔ Stored m b c r xs := by
  simp [Stored]

end Mem
end OsmoTrx
