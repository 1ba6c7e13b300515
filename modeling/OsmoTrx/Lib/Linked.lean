import Mathlib.Tactic

/-!
# Singly linked lists in memory

Cells are named by addresses, and every cell has a link, which is null at the end of a list.

* `Segment` — the cells passed on the way along the links from one link to another.
* `segment_append`, `Segment.congr` — segments are put together and taken apart, and do not
  depend on the links of cells outside of them.
* `Segment.extend` — a new cell at the end.
* `Segment.unique` — the links determine the cells.
-/

namespace OsmoTrx
namespace Linked

variable {A : Type*}

/-- Following the links from `p` leads through the cells of a list to the link `r`. -/
def Segment (next : A → Option A) : Option A → List A → Option A → Prop
  | p, [], r => p = r
  | p, a :: as, r => p = some a ∧ Segment next (next a) as r

variable {next next' : A → Option A} {p r : Option A} {as bs : List A} {a b : A}

@[simp] theorem segment_nil : Segment next p [] r ↔ p = r := Iff.rfl

@[simp] theorem segment_cons :
    Segment next p (a :: as) r ↔ p = some a ∧ Segment next (next a) as r := Iff.rfl

theorem segment_append :
    Segment next p (as ++ bs) r ↔ ∃ m, Segment next p as m ∧ Segment next m bs r := by
  induction as generalizing p with
  | nil => simp
  | cons a as ih => simp [ih, and_assoc]

/-- Only the links of the cells in a segment matter. -/
theorem Segment.congr (h : Segment next p as r) (heq : ∀ a ∈ as, next' a = next a) :
    Segment next' p as r := by
  induction as generalizing p with
  | nil => exact h
  | cons a as ih =>
    refine ⟨h.1, ?_⟩
    rw [heq a List.mem_cons_self]
    exact ih h.2 fun b hb => heq b (List.mem_cons_of_mem _ hb)

/-- The link of a cell outside of a segment can change. -/
theorem Segment.update [DecidableEq A] (h : Segment next p as r) (hb : b ∉ as) (q : Option A) :
    Segment (Function.update next b q) p as r :=
  h.congr fun _ ha => Function.update_of_ne (ne_of_mem_of_not_mem ha hb) _ _

/-- A segment ends where the link of its last cell leads. -/
theorem Segment.update_last [DecidableEq A] (h : Segment next p (as ++ [a]) r) (ha : a ∉ as)
    (q : Option A) : Segment (Function.update next a q) p (as ++ [a]) q := by
  obtain ⟨m, hbefore, hm, -⟩ := segment_append.mp h
  exact segment_append.mpr ⟨m, hbefore.update ha q, hm, by rw [Function.update_self]; rfl⟩

/-- **A new cell at the end** of a list that is not empty: its own link is cleared, and that of
the last cell is set to it. -/
theorem Segment.extend [DecidableEq A] (h : Segment next p (as ++ [a]) none)
    (hnd : (as ++ [a]).Nodup) (hb : b ∉ as ++ [a]) :
    Segment (Function.update (Function.update next b none) a (some b)) p (as ++ [a] ++ [b])
      none := by
  have ha : a ∉ as := fun ha => (List.nodup_append.mp hnd).2.2 a ha a List.mem_cons_self rfl
  have hba : b ≠ a := fun heq => hb (heq ▸ List.mem_append_right _ List.mem_cons_self)
  refine segment_append.mpr ⟨some b, (h.update hb none).update_last ha _, rfl, ?_⟩
  rw [Function.update_of_ne hba, Function.update_self]
  rfl

/-- The links determine the cells of a list. -/
theorem Segment.unique (h : Segment next p as none) (h' : Segment next p bs none) : as = bs := by
  induction as generalizing p bs with
  | nil =>
    cases h
    cases bs with
    | nil => rfl
    | cons b bs => exact absurd h'.1 (by simp)
  | cons a as ih =>
    obtain ⟨rfl, h⟩ := h
    cases bs with
    | nil => exact absurd h' (by simp)
    | cons b bs =>
      obtain ⟨heq, h'⟩ := h'
      cases heq
      rw [ih h h']

end Linked
end OsmoTrx
