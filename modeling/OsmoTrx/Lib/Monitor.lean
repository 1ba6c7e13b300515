import Mathlib.Tactic

/-!
# Wake-ups of a condition variable

Threads block on a condition variable, are woken by a signal, by a time-out or for no reason,
and then come back to look again at what they wait for, of which there is a number of items.

* `Monitor` — the threads that are blocked and those that are woken.
* `NoLostWakeup` — while a thread is blocked, there are as many woken threads as items.
* `NoLostWakeup.signal`, `.wake`, `.take`, `.mono`, `.zero` — the rules: what adds an item
  signals, a thread that takes one leaves, and a thread blocks where there is none.
-/

namespace OsmoTrx

/-- The threads blocked on a condition variable, and those that have been woken and have not
looked again. -/
structure Monitor (T : Type) where
  blocked : Finset T
  woken : Finset T
  disjoint : Disjoint blocked woken

namespace Monitor

variable {T : Type}

/-- Nobody waits. -/
def idle : Monitor T := ⟨∅, ∅, Finset.disjoint_empty_left _⟩

/-- While a thread is blocked, at least `k` threads are woken. -/
def NoLostWakeup (m : Monitor T) (k : ℕ) : Prop := m.blocked.Nonempty → k ≤ m.woken.card

variable {m : Monitor T} {k : ℕ} {t : T} {ts : Finset T}

theorem noLostWakeup_idle (k : ℕ) : (idle : Monitor T).NoLostWakeup k := fun h =>
  absurd h Finset.not_nonempty_empty

namespace NoLostWakeup

/-- Where there is no item, nobody has to be woken. -/
theorem zero (m : Monitor T) : m.NoLostWakeup 0 := fun _ => Nat.zero_le _

/-- Items can go away. -/
theorem mono {j : ℕ} (h : m.NoLostWakeup k) (hj : j ≤ k) : m.NoLostWakeup j := fun hb =>
  hj.trans (h hb)

end NoLostWakeup

variable [DecidableEq T]

/-- The threads that neither are blocked nor have to look again. -/
def Free (m : Monitor T) (t : T) : Prop := t ∉ m.blocked ∧ t ∉ m.woken

instance (m : Monitor T) (t : T) : Decidable (m.Free t) :=
  inferInstanceAs (Decidable (t ∉ m.blocked ∧ t ∉ m.woken))

/-- A thread blocks. -/
def wait (m : Monitor T) (t : T) : Monitor T where
  blocked := insert t m.blocked
  woken := m.woken.erase t
  disjoint := Finset.disjoint_left.mpr fun u hu hwoken => by
    obtain ⟨hne, hwoken⟩ := Finset.mem_erase.mp hwoken
    rcases Finset.mem_insert.mp hu with rfl | hu
    · exact hne rfl
    · exact Finset.disjoint_left.mp m.disjoint hu hwoken

/-- Blocked threads are woken. -/
def wake (m : Monitor T) (ts : Finset T) : Monitor T where
  blocked := m.blocked \ ts
  woken := m.woken ∪ (m.blocked ∩ ts)
  disjoint := Finset.disjoint_left.mpr fun u hu hwoken => by
    obtain ⟨hu, hts⟩ := Finset.mem_sdiff.mp hu
    rcases Finset.mem_union.mp hwoken with hwoken | hwoken
    · exact Finset.disjoint_left.mp m.disjoint hu hwoken
    · exact hts (Finset.mem_inter.mp hwoken).2

/-- A woken thread is done. -/
def leave (m : Monitor T) (t : T) : Monitor T where
  blocked := m.blocked
  woken := m.woken.erase t
  disjoint := m.disjoint.mono_right (Finset.erase_subset _ _)

/-! ### The threads that are free -/

theorem free_wake (m : Monitor T) (ts : Finset T) (u : T) : (m.wake ts).Free u ↔ m.Free u := by
  simp only [Free, wake, Finset.mem_sdiff, Finset.mem_union, Finset.mem_inter]
  tauto

theorem not_free_wait (m : Monitor T) (t : T) : ¬ (m.wait t).Free t := fun h =>
  h.1 (Finset.mem_insert_self t _)

theorem free_wait_of_ne {u : T} (h : u ≠ t) : (m.wait t).Free u ↔ m.Free u := by
  rw [Free, Free, wait, Finset.mem_insert, Finset.mem_erase]
  simp [h]

theorem free_leave (h : t ∉ m.blocked) : (m.leave t).Free t := ⟨h, Finset.notMem_erase t _⟩

theorem free_leave_of_ne {u : T} (h : u ≠ t) : (m.leave t).Free u ↔ m.Free u := by
  rw [Free, Free, leave, Finset.mem_erase]
  simp [h]

/-- The threads that a signal can wake: at least one, if one is blocked. -/
def Signals (m : Monitor T) (ts : Finset T) : Prop :=
  ts ⊆ m.blocked ∧ (m.blocked.Nonempty → ts.Nonempty)

instance (m : Monitor T) (ts : Finset T) : Decidable (m.Signals ts) :=
  inferInstanceAs (Decidable (ts ⊆ m.blocked ∧ (m.blocked.Nonempty → ts.Nonempty)))

/-- The woken threads come on top of those woken before. -/
theorem card_woken_wake (m : Monitor T) (ts : Finset T) :
    (m.wake ts).woken.card = m.woken.card + (m.blocked ∩ ts).card :=
  Finset.card_union_of_disjoint (m.disjoint.symm.mono_right Finset.inter_subset_left)

namespace NoLostWakeup

/-- Threads can be woken at any time. -/
theorem wake (h : m.NoLostWakeup k) (ts : Finset T) : (m.wake ts).NoLostWakeup k := fun hb => by
  rw [card_woken_wake]
  exact (h (hb.mono Finset.sdiff_subset)).trans (Nat.le_add_right _ _)

/-- **A new item** is signalled. -/
theorem signal (h : m.NoLostWakeup k) (hs : m.Signals ts) :
    (m.wake ts).NoLostWakeup (k + 1) := fun hb => by
  have hblocked : m.blocked.Nonempty := hb.mono Finset.sdiff_subset
  have hone : 1 ≤ (m.blocked ∩ ts).card := by
    rw [Finset.inter_eq_right.mpr hs.1]
    exact (hs.2 hblocked).card_pos
  rw [card_woken_wake]
  exact Nat.add_le_add (h hblocked) hone

/-- **A thread takes an item**, and has been woken or has not waited. -/
theorem take (h : m.NoLostWakeup (k + 1)) (t : T) : (m.leave t).NoLostWakeup k := fun hb => by
  have hle : k + 1 ≤ m.woken.card := h hb
  have hcard : m.woken.card - 1 ≤ (m.woken.erase t).card := Finset.pred_card_le_card_erase
  exact (Nat.le_sub_one_of_lt hle).trans hcard

end NoLostWakeup

end Monitor
end OsmoTrx
