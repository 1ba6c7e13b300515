import Mathlib.Tactic

/-!
# A ring over an unbounded stream

Raw copies between arrays, and a ring of `w` cells in which element `u` of a stream lies in cell
`(u + k) % w`.  At any time the ring holds the `w` elements from the reading position on
(`Holds`), and each of the three things that are done to it has one lemma.

* `wrapWrite_apply`, `wrapRead_apply`, `wrapClear_apply` — copies of one piece or two do what
  the remainder says.
* `Holds.write` — elements anywhere in the window are replaced.
* `Holds.read`, `Holds.clear` — the first elements are read, and their cells cleared for those
  that are a turn of the ring further on.
-/

namespace OsmoTrx
namespace StreamRing

variable {α : Type*}

/-! ## Raw copies -/

/-- `memcpy(dst + i, src + j, n)`. -/
def memcpy (dst : ℤ → α) (i : ℤ) (src : ℤ → α) (j n : ℤ) : ℤ → α := fun x =>
  if i ≤ x ∧ x < i + n then src (j + (x - i)) else dst x

/-- `memset(dst + i, a, n)`. -/
def memset (dst : ℤ → α) (i : ℤ) (a : α) (n : ℤ) : ℤ → α := fun x =>
  if i ≤ x ∧ x < i + n then a else dst x

theorem memcpy_of_mem (dst src : ℤ → α) {i j n x : ℤ} (h0 : i ≤ x) (h1 : x < i + n) :
    memcpy dst i src j n x = src (j + (x - i)) := if_pos ⟨h0, h1⟩

theorem memcpy_of_not_mem (dst src : ℤ → α) {i j n x : ℤ} (h : x < i ∨ i + n ≤ x) :
    memcpy dst i src j n x = dst x := if_neg (by omega)

/-! ## Copies around the end of a ring -/

section Wrap

variable {w c n : ℤ} (hc0 : 0 ≤ c) (hcw : c ≤ w) (hn : n ≤ w)
include hc0 hcw hn

/-- The places of a ring that `n` elements from cell `c` on take. -/
theorem emod_lt_iff {x : ℤ} (hx0 : 0 ≤ x) (hxw : x < w) :
    (x - c) % w < n ↔ (c ≤ x ∧ x < c + n) ∨ x + w < c + n := by
  rcases le_or_gt c x with h | h
  · rw [Int.emod_eq_of_lt (by omega) (by omega)]
    omega
  · rw [← Int.add_emod_right, Int.emod_eq_of_lt (by omega) (by omega)]
    omega

/-- A copy into the ring, in two pieces if it passes its end. -/
theorem wrapWrite_apply (ring src : ℤ → α) (j : ℤ) {x : ℤ} (hx0 : 0 ≤ x) (hxw : x < w) :
    (if c + n > w then memcpy (memcpy ring c src j (w - c)) 0 src (j + (w - c)) (n - (w - c))
      else memcpy ring c src j n) x =
      if (x - c) % w < n then src (j + (x - c) % w) else ring x := by
  have hiff := emod_lt_iff hc0 hcw hn hx0 hxw
  by_cases hin : (x - c) % w < n
  · rw [if_pos hin]
    rcases hiff.mp hin with ⟨hlo, hhi⟩ | hwrap
    · rw [Int.emod_eq_of_lt (show 0 ≤ x - c by omega) (by omega)]
      split_ifs with hlong
      · rw [memcpy_of_not_mem _ _ (by omega), memcpy_of_mem _ _ hlo (by omega)]
      · rw [memcpy_of_mem _ _ hlo hhi]
    · rw [if_pos (by omega), memcpy_of_mem _ _ hx0 (by omega), ← Int.add_emod_right,
        Int.emod_eq_of_lt (show 0 ≤ x - c + w by omega) (by omega)]
      congr 1
      ring
  · rw [if_neg hin]
    have hout := mt hiff.mpr hin
    split_ifs with hlong
    · rw [memcpy_of_not_mem _ _ (by omega), memcpy_of_not_mem _ _ (by omega)]
    · rw [memcpy_of_not_mem _ _ (by omega)]

/-- Clearing cells of the ring. -/
theorem wrapClear_apply (ring : ℤ → α) (a : α) {x : ℤ} (hx0 : 0 ≤ x) (hxw : x < w) :
    (if c + n < w then memset ring c a n
      else memset (memset ring c a (w - c)) 0 a (n - (w - c))) x =
      if (x - c) % w < n then a else ring x := by
  have hiff := emod_lt_iff hc0 hcw hn hx0 hxw
  simp only [hiff]
  split_ifs with hshort <;> simp only [memset] <;> split_ifs <;> first | rfl | omega

omit hcw in
/-- A copy out of the ring into a buffer, the second piece from a ring that has the same cells in
front of the first. -/
theorem wrapRead_apply (buf ring ring' : ℤ → α) (h : ∀ x, 0 ≤ x → x < c → ring' x = ring x) {b : ℤ}
    (hcw' : c < w) (hb0 : 0 ≤ b) (hbn : b < n) :
    (if c + n < w then memcpy buf 0 ring c n
      else memcpy (memcpy buf 0 ring c (w - c)) (w - c) ring' 0 (n - (w - c))) b =
      ring ((c + b) % w) := by
  rcases lt_or_ge (c + b) w with hlt | hge
  · rw [Int.emod_eq_of_lt (by omega) hlt]
    split_ifs with hshort
    · rw [memcpy_of_mem _ _ hb0 (by omega), sub_zero]
    · rw [memcpy_of_not_mem _ _ (by omega), memcpy_of_mem _ _ hb0 (by omega), sub_zero]
  · rw [← Int.sub_emod_right, Int.emod_eq_of_lt (by omega) (by omega), if_neg (by omega),
      memcpy_of_mem _ _ (by omega) (by omega), h _ (by omega) (by omega)]
    congr 1
    ring

end Wrap

/-! ## The window -/

/-- The ring holds the `w` elements of `content` from `pos` on. -/
def Holds (w k : ℤ) (ring : ℤ → α) (pos : ℤ) (content : ℤ → α) : Prop :=
  ∀ u, pos ≤ u → u < pos + w → ring ((u + k) % w) = content u

namespace Holds

variable {w k pos : ℤ} {ring ring' : ℤ → α} {content content' : ℤ → α}

theorem congr (h : Holds w k ring pos content)
    (heq : ∀ u, pos ≤ u → u < pos + w → content' u = content u) : Holds w k ring pos content' :=
  fun u hlo hhi => (h u hlo hhi).trans (heq u hlo hhi).symm

/-- **Elements in the window are replaced** by those that are written to their cells. -/
theorem write (h : Holds w k ring pos content) {a n : ℤ} (src : ℤ → α) (ha : pos ≤ a)
    (hn0 : 0 ≤ n) (han : a + n ≤ pos + w)
    (hring : ∀ x, 0 ≤ x → x < w → ring' x =
      if (x - (a + k)) % w < n then src ((x - (a + k)) % w) else ring x) :
    Holds w k ring' pos fun u => if a ≤ u ∧ u < a + n then src (u - a) else content u := by
  intro u hlo hhi
  have hw : 0 < w := by omega
  have hcell : ((u + k) % w - (a + k)) % w = (u - a) % w := by
    rw [Int.emod_sub_emod]
    congr 1
    ring
  rw [hring _ (Int.emod_nonneg _ hw.ne') (Int.emod_lt_of_pos _ hw), hcell, h u hlo hhi]
  simp only []
  rcases le_or_gt a u with hau | hau
  · rw [Int.emod_eq_of_lt (by omega) (by omega)]
    exact if_congr (by omega) rfl rfl
  · rw [← Int.add_emod_right, Int.emod_eq_of_lt (by omega) (by omega), if_neg (by omega),
      if_neg (by omega)]

/-- The element at a place of the window. -/
theorem read (h : Holds w k ring pos content) {b : ℤ} (hb0 : 0 ≤ b) (hbw : b < w) :
    ring ((pos + k + b) % w) = content (pos + b) := by
  rw [← h (pos + b) (by omega) (by omega)]
  congr 2
  ring

/-- **The window moves on** over cells that have been cleared. -/
theorem clear (h : Holds w k ring pos content) {n : ℤ} (a : α) (hn0 : 0 ≤ n) (hn : n ≤ w)
    (hring : ∀ x, 0 ≤ x → x < w → ring' x = if (x - (pos + k)) % w < n then a else ring x) :
    Holds w k ring' (pos + n) fun u => if u < pos + w then content u else a := by
  intro u hlo hhi
  have hw : 0 < w := by omega
  have hcell : ((u + k) % w - (pos + k)) % w = (u - pos) % w := by
    rw [Int.emod_sub_emod]
    congr 1
    ring
  rw [hring _ (Int.emod_nonneg _ hw.ne') (Int.emod_lt_of_pos _ hw), hcell]
  simp only []
  rcases lt_or_ge u (pos + w) with hu | hu
  · rw [Int.emod_eq_of_lt (by omega) (by omega), if_neg (by omega), if_pos hu,
      h u (by omega) hu]
  · rw [← Int.sub_emod_right, Int.emod_eq_of_lt (by omega) (by omega), if_pos (by omega),
      if_neg (by omega)]

end Holds

end StreamRing
end OsmoTrx
