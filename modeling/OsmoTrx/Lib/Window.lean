import Mathlib.Data.List.DropRight
import Mathlib.Data.List.Rotate
import Mathlib.Tactic

/-!
# Sliding windows in a ring

Cells that are overwritten one after the other, with a cursor that starts again at the first cell
when it has passed the last one.

* `push`, `pushAll` — one value, and values in their order.
* `push_rotate` — seen from the cursor on, a value comes in at the end and the first one is lost.
* `pushAll_rotate` — **after any number of values** the cells hold the end of all there was, in its
  order.
* `sum_pushAll` — what the cells add up to, if they were zero.
-/

namespace OsmoTrx
namespace Window

variable {α : Type*}

/-- Overwrite the cell at the cursor: the cells and the cursor afterwards. -/
def push (ring : List α × ℕ) (x : α) : List α × ℕ :=
  let cursor := if ring.2 ≥ ring.1.length then 0 else ring.2
  (ring.1.set cursor x, cursor + 1)

def pushAll (ring : List α × ℕ) (xs : List α) : List α × ℕ := xs.foldl push ring

variable {l : List α} {c n : ℕ} {x : α} {ring : List α × ℕ}

/-- Overwriting a cell, seen from there on. -/
theorem rotate_set (hc : c < l.length) : (l.set c x).rotate (c + 1) = (l.rotate c).tail ++ [x] := by
  obtain ⟨before, a, after, rfl, rfl⟩ : ∃ before a after, l = before ++ a :: after ∧
      before.length = c :=
    ⟨l.take c, l[c], l.drop (c + 1), by simp, List.length_take_of_le hc.le⟩
  have hset : (before ++ a :: after).set before.length x = before ++ [x] ++ after := by simp
  have hlen : before.length + 1 = (before ++ [x]).length := by simp
  rw [hset, hlen, List.rotate_append_length_eq, List.rotate_append_length_eq]
  simp

@[simp] theorem length_push (ring : List α × ℕ) (x : α) :
    (push ring x).1.length = ring.1.length := by
  simp [push]

theorem push_cursor_le (hpos : 0 < ring.1.length) : (push ring x).2 ≤ ring.1.length := by
  simp only [push]
  split_ifs <;> omega

/-- **A value comes in**, and the oldest one is lost. -/
theorem push_rotate (hpos : 0 < ring.1.length) (hc : ring.2 ≤ ring.1.length) :
    (push ring x).1.rotate (push ring x).2 = (ring.1.rotate ring.2).tail ++ [x] := by
  by_cases hend : ring.2 ≥ ring.1.length
  · have hwrap : ring.1.rotate ring.2 = ring.1.rotate 0 := by
      rw [le_antisymm hc hend, List.rotate_length, List.rotate_zero]
    simp only [push, if_pos hend]
    rw [hwrap, rotate_set hpos]
  · simp only [push, if_neg hend]
    exact rotate_set (not_le.mp hend)

/-- The end of a list that grows. -/
theorem rtake_append_singleton (h : n ≤ l.length) (hn : 0 < n) :
    (l ++ [x]).rtake n = (l.rtake n).tail ++ [x] := by
  obtain ⟨n, rfl⟩ := Nat.exists_eq_add_of_lt hn
  rw [Nat.zero_add, List.rtake_concat_succ, List.rtake, List.rtake, List.tail_drop]
  congr 2
  omega

/-- **After any number of values** the cells hold the end of all there was. -/
theorem pushAll_rotate (hpos : 0 < ring.1.length) (hc : ring.2 ≤ ring.1.length) (xs : List α) :
    (pushAll ring xs).1.length = ring.1.length ∧ (pushAll ring xs).2 ≤ ring.1.length ∧
      (pushAll ring xs).1.rotate (pushAll ring xs).2 =
        (ring.1.rotate ring.2 ++ xs).rtake ring.1.length := by
  induction xs using List.reverseRecOn with
  | nil =>
    refine ⟨rfl, hc, ?_⟩
    rw [List.append_nil, List.rtake, List.length_rotate, Nat.sub_self, List.drop_zero]
    rfl
  | append_singleton xs x ih =>
    obtain ⟨hlen, hcursor, hrotate⟩ := ih
    have hstep : pushAll ring (xs ++ [x]) = push (pushAll ring xs) x := by
      rw [pushAll, List.foldl_append]
      rfl
    have hpos' : 0 < (pushAll ring xs).1.length := hlen ▸ hpos
    refine ⟨?_, ?_, ?_⟩
    · rw [hstep, length_push, hlen]
    · rw [hstep, ← hlen]
      exact push_cursor_le hpos'
    · rw [hstep, push_rotate hpos' (hlen.symm ▸ hcursor), hrotate, ← List.append_assoc,
        rtake_append_singleton (by simp) hpos]

/-- **What the cells add up to**, if they were zero: the last values, as many as there are. -/
theorem sum_pushAll {M : Type*} [AddCommMonoid M] (hn : 0 < n) (xs : List M) :
    (pushAll (List.replicate n (0 : M), 0) xs).1.sum = (xs.rtake (min xs.length n)).sum := by
  have hring : 0 < ((List.replicate n (0 : M), 0) : List M × ℕ).1.length := by simpa using hn
  obtain ⟨-, -, hrotate⟩ := pushAll_rotate hring (Nat.zero_le _) xs
  rw [← (List.rotate_perm _ _).sum_eq, hrotate, List.rotate_zero, List.length_replicate, List.rtake,
    List.rtake, List.length_append, List.length_replicate, List.drop_append, List.length_replicate,
    List.sum_append, List.drop_replicate, List.sum_replicate, smul_zero, zero_add]
  congr 2
  omega

end Window
end OsmoTrx
