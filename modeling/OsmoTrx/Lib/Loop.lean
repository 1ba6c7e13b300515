import Mathlib.Tactic

/-!
# Counted loops

`for (int i = 0; i < n; i++) body(i)` on a state, and the two shapes such loops have in
numeric code: one that accumulates, and one that fills the cells of an array.

* `upTo_induction`, `foldlM_induction`, `foldlM_range` — invariants of a loop.
* `whileM_spec`, `whileM_diverges` — the same for a loop with a condition, and that it ends or
  does not.
* `upTo_accumulate` — a loop that adds `f i` computes a sum.
* `upTo_update`, `upTo_fill` — a loop whose turns write cells, or pairs of cells, next to each
  other.
* `fill_succ`, `upTo_fill_groups` — cells filled from the first on, in groups of `c`.
* `upTo_family`, `loadPair_upTo_scatter` — a loop over a family, and two loops, one in the other,
  that write pairs to distinct cells.
* `sum_range_mul` — a sum taken in groups of `c`, which is what an unrolled loop takes.
-/

namespace OsmoTrx
namespace Loop

variable {σ : Type*}

/-- The state after the turns `0` to `n - 1` of a loop. -/
def upTo : ℕ → (ℕ → σ → σ) → σ → σ
  | 0, _, s => s
  | n + 1, body, s => body n (upTo n body s)

variable {body body' : ℕ → σ → σ} {s : σ}

@[simp] theorem upTo_zero (body : ℕ → σ → σ) (s : σ) : upTo 0 body s = s := rfl

theorem upTo_succ (n : ℕ) (body : ℕ → σ → σ) (s : σ) :
    upTo (n + 1) body s = body n (upTo n body s) := rfl

/-- What holds before the loop and is preserved by its turns holds after it. -/
theorem upTo_induction {P : ℕ → σ → Prop} {n : ℕ} (h0 : P 0 s)
    (hstep : ∀ i < n, ∀ s, P i s → P (i + 1) (body i s)) : P n (upTo n body s) := by
  induction n with
  | zero => exact h0
  | succ n ih =>
    exact hstep n (Nat.lt_succ_self n) _ (ih fun i hi => hstep i (Nat.lt_succ_of_lt hi))

/-- Loops whose turns do the same do the same. -/
theorem upTo_congr {n : ℕ} (h : ∀ i < n, ∀ s, body i s = body' i s) :
    upTo n body s = upTo n body' s := by
  induction n with
  | zero => rfl
  | succ n ih =>
    rw [upTo_succ, upTo_succ, ih fun i hi => h i (Nat.lt_succ_of_lt hi), h n (Nat.lt_succ_self n)]

/-- What holds before a loop over a list that may fail, and is preserved by its turns, which do not
fail, holds after it. -/
theorem foldlM_induction {ι : Type*} {f : σ → ι → Option σ} {P : List ι → σ → Prop} {l : List ι}
    (h0 : P [] s) (hstep : ∀ done i rest, l = done ++ i :: rest → ∀ s, P done s →
      ∃ s', f s i = some s' ∧ P (done ++ [i]) s') : ∃ s', l.foldlM f s = some s' ∧ P l s' := by
  induction l using List.reverseRecOn with
  | nil => exact ⟨s, rfl, h0⟩
  | append_singleton l i ih =>
    obtain ⟨s₁, hfold, h₁⟩ := ih fun done j rest hl =>
      hstep done j (rest ++ [i]) (by rw [hl, List.append_assoc, List.cons_append])
    obtain ⟨s', hturn, h'⟩ := hstep l i [] rfl s₁ h₁
    exact ⟨s', by simp [List.foldlM_append, hfold, hturn], h'⟩

/-- The same for a counted loop that may fail. -/
theorem foldlM_range {f : σ → ℕ → Option σ} {P : ℕ → σ → Prop} {n : ℕ} (h0 : P 0 s)
    (hstep : ∀ i < n, ∀ s, P i s → ∃ s', f s i = some s' ∧ P (i + 1) s') :
    ∃ s', (List.range n).foldlM f s = some s' ∧ P n s' := by
  induction n with
  | zero => exact ⟨s, rfl, h0⟩
  | succ n ih =>
    obtain ⟨s₁, hfold, h₁⟩ := ih fun i hi => hstep i (Nat.lt_succ_of_lt hi)
    obtain ⟨s', hturn, h'⟩ := hstep n (Nat.lt_succ_self n) s₁ h₁
    exact ⟨s', by simp [List.range_succ, List.foldlM_append, hfold, hturn], h'⟩

/-- `while (cond) body`, for `fuel` turns at most; `none` if a turn fails or they do not suffice. -/
def whileM (cond : σ → Bool) (body : σ → Option σ) : ℕ → σ → Option σ
  | 0, s => if cond s then none else some s
  | fuel + 1, s => if cond s then (body s).bind (whileM cond body fuel) else some s

/-- A loop with an invariant whose turns do not fail and lower a measure ends, and its condition
is false then. -/
theorem whileM_spec {cond : σ → Bool} {body : σ → Option σ} (P : σ → Prop) (measure : σ → ℕ)
    (hstep : ∀ s, P s → cond s = true → ∃ s', body s = some s' ∧ P s' ∧ measure s' < measure s)
    {fuel : ℕ} (hs : P s) (hfuel : measure s ≤ fuel) :
    ∃ s', whileM cond body fuel s = some s' ∧ P s' ∧ cond s' = false := by
  induction fuel generalizing s with
  | zero =>
    cases hc : cond s with
    | false => exact ⟨s, by simp [whileM, hc], hs, hc⟩
    | true =>
      obtain ⟨s', -, -, hlt⟩ := hstep s hs hc
      omega
  | succ fuel ih =>
    cases hc : cond s with
    | false => exact ⟨s, by simp [whileM, hc], hs, hc⟩
    | true =>
      obtain ⟨s₁, hbody, h₁, hlt⟩ := hstep s hs hc
      obtain ⟨s', hrun, h', hc'⟩ := ih h₁ (by omega)
      exact ⟨s', by simp [whileM, hc, hbody, hrun], h', hc'⟩

/-- **A loop that never ends**: as long as its turns do not fail its condition stays true. -/
theorem whileM_diverges {cond : σ → Bool} {body : σ → Option σ} (P : σ → Prop)
    (hcond : ∀ s, P s → cond s = true) (hstep : ∀ s s', P s → body s = some s' → P s') (hs : P s)
    (fuel : ℕ) : whileM cond body fuel s = none := by
  induction fuel generalizing s with
  | zero => rw [whileM, if_pos (hcond s hs)]
  | succ fuel ih =>
    rw [whileM, if_pos (hcond s hs)]
    cases hbody : body s with
    | none => rfl
    | some s' => exact ih (hstep s s' hs hbody)

/-- **A loop that adds up** computes a sum. -/
theorem upTo_accumulate {M : Type*} [AddCommMonoid M] (f : ℕ → M) (n : ℕ) (a : M) :
    upTo n (fun i a => a + f i) a = a + ∑ i ∈ Finset.range n, f i := by
  induction n with
  | zero => simp
  | succ n ih => rw [upTo_succ, ih, Finset.sum_range_succ, add_assoc]

/-- A sum in groups of `c`. -/
theorem sum_range_mul {M : Type*} [AddCommMonoid M] (f : ℕ → M) (c n : ℕ) :
    ∑ k ∈ Finset.range (c * n), f k =
      ∑ i ∈ Finset.range n, ∑ j ∈ Finset.range c, f (c * i + j) := by
  induction n with
  | zero => simp
  | succ n ih => rw [Nat.mul_succ, Finset.sum_range_add, ih, Finset.sum_range_succ]

/-- **A loop that writes** the cells from `base` on. -/
theorem upTo_update {α : Type*} (base n : ℕ) (f : ℕ → α) (m : ℕ → α) :
    upTo n (fun i m => Function.update m (base + i) (f i)) m =
      fun j => if base ≤ j ∧ j < base + n then f (j - base) else m j := by
  induction n with
  | zero =>
    funext j
    rw [upTo_zero, if_neg (by omega)]
  | succ n ih =>
    funext j
    rw [upTo_succ, ih]
    by_cases hj : j = base + n
    · subst hj
      rw [Function.update_self, if_pos (by omega), Nat.add_sub_cancel_left]
    · rw [Function.update_of_ne hj]
      exact if_congr (by omega) rfl rfl

/-- **A loop over a family**: turn `i` changes member `i` only. -/
theorem upTo_family {β : Type*} (g : ℕ → β → β) (m : ℕ → β) (n : ℕ) :
    upTo n (fun i m => Function.update m i (g i (m i))) m =
      fun k => if k < n then g k (m k) else m k := by
  induction n with
  | zero => rfl
  | succ n ih =>
    funext k
    rw [upTo_succ, ih]
    by_cases hk : k = n
    · subst hk
      simp only [Function.update_self, lt_irrefl, if_false, Nat.lt_succ_self, if_true]
    · rw [Function.update_of_ne hk]
      exact if_congr (by omega) rfl rfl

/-! ## Arrays of cells -/

section Cells

variable {α : Type*}

/-- An array in which the first `n` cells are given by `f`. -/
def fill (n : ℕ) (f : ℕ → α) (m : ℤ → α) : ℤ → α := fun j =>
  if 0 ≤ j ∧ j < n then f j.toNat else m j

@[simp] theorem fill_zero (f : ℕ → α) (m : ℤ → α) : fill 0 f m = m := by
  funext j
  rw [fill, if_neg (by omega)]

/-- The next cell. -/
theorem fill_succ (n : ℕ) (f : ℕ → α) (m : ℤ → α) {k : ℤ} (hk : k = n) :
    Function.update (fill n f m) k (f n) = fill (n + 1) f m := by
  subst hk
  funext j
  by_cases hj : j = n
  · subst hj
    rw [Function.update_self, fill, if_pos (by omega), Int.toNat_natCast]
  · rw [Function.update_of_ne hj, fill, fill]
    exact if_congr (by omega) rfl rfl

theorem fill_congr {n : ℕ} {f g : ℕ → α} (m : ℤ → α) (h : ∀ i < n, f i = g i) :
    fill n f m = fill n g m := by
  funext j
  rw [fill, fill]
  split_ifs with hj
  · exact h _ (by omega)
  · rfl

/-- **A loop that fills cells in groups of `c`.** -/
theorem upTo_fill_groups {body : ℕ → (ℤ → α) → ℤ → α} {c n : ℕ} {f : ℕ → α} {m : ℤ → α}
    (hbody : ∀ i < n, body i (fill (c * i) f m) = fill (c * i + c) f m) :
    upTo n body m = fill (c * n) f m := by
  refine upTo_induction (P := fun i m' => m' = fill (c * i) f m) (by simp) ?_
  rintro i hi _ rfl
  exact hbody i hi

/-- A loop that fills one cell after the other, from cell `start` on. -/
theorem upTo_fill_from (start n : ℕ) (f : ℕ → α) (m : ℤ → α) :
    upTo n (fun i m => Function.update m ((start : ℤ) + i) (f (start + i))) (fill start f m) =
      fill (start + n) f m := by
  refine upTo_induction (P := fun i m' => m' = fill (start + i) f m) rfl ?_
  rintro i hi _ rfl
  exact fill_succ (start + i) f m (by push_cast; rfl)

end Cells

/-! ## Arrays of pairs -/

section Pairs

variable {α : Type*}

/-- Write a pair to two neighbouring cells. -/
def storePair (m : ℤ → α) (k : ℤ) (p : α × α) : ℤ → α :=
  Function.update (Function.update m k p.1) (k + 1) p.2

/-- Read two neighbouring cells. -/
def loadPair (m : ℤ → α) (k : ℤ) : α × α := (m k, m (k + 1))

theorem storePair_of_ne (m : ℤ → α) {k j : ℤ} (p : α × α) (h0 : j ≠ k) (h1 : j ≠ k + 1) :
    storePair m k p j = m j := by
  rw [storePair, Function.update_of_ne h1, Function.update_of_ne h0]

@[simp] theorem loadPair_storePair (m : ℤ → α) (k : ℤ) (p : α × α) :
    loadPair (storePair m k p) k = p := by
  simp [loadPair, storePair]

/-- Pairs do not overlap. -/
theorem loadPair_storePair_mul (m : ℤ → α) (k j : ℤ) (p : α × α) :
    loadPair (storePair m (2 * k) p) (2 * j) = if j = k then p else loadPair m (2 * j) := by
  split_ifs with hjk
  · rw [hjk, loadPair_storePair]
  · rw [loadPair, storePair_of_ne _ _ (by omega) (by omega),
      storePair_of_ne _ _ (by omega) (by omega), loadPair]

/-- An array in which the first `n` pairs are given by `f`. -/
def pairs (n : ℕ) (f : ℕ → α × α) (m : ℤ → α) : ℤ → α := fun j =>
  if 0 ≤ j ∧ j < 2 * n then (if j % 2 = 0 then (f (j / 2).toNat).1 else (f (j / 2).toNat).2)
  else m j

@[simp] theorem pairs_zero (f : ℕ → α × α) (m : ℤ → α) : pairs 0 f m = m := by
  funext j
  rw [pairs, if_neg (by omega)]

theorem loadPair_pairs {n i : ℕ} (f : ℕ → α × α) (m : ℤ → α) (hi : i < n) :
    loadPair (pairs n f m) (2 * i) = f i := by
  rw [loadPair, pairs, if_pos (by omega), if_pos (by omega), pairs, if_pos (by omega),
    if_neg (by omega), show (2 * (i : ℤ) / 2).toNat = i by omega,
    show ((2 * (i : ℤ) + 1) / 2).toNat = i by omega]

theorem pairs_congr {n : ℕ} {f g : ℕ → α × α} (m : ℤ → α) (h : ∀ i < n, f i = g i) :
    pairs n f m = pairs n g m := by
  funext j
  rw [pairs, pairs]
  split_ifs with hj
  · rw [h _ (by omega)]
  · rw [h _ (by omega)]
  · rfl

theorem pairs_of_ge (n : ℕ) (f : ℕ → α × α) (m : ℤ → α) {j : ℤ} (h : 2 * (n : ℤ) ≤ j) :
    pairs n f m j = m j := by
  rw [pairs, if_neg (by omega)]

/-- The pairs in front of the array stay. -/
theorem loadPair_pairs_of_neg (n : ℕ) (f : ℕ → α × α) (m : ℤ → α) {k : ℤ} (h : k < 0) :
    loadPair (pairs n f m) (2 * k) = loadPair m (2 * k) := by
  rw [loadPair, loadPair, pairs, pairs, if_neg (by omega), if_neg (by omega)]

theorem pairs_succ (n : ℕ) (f : ℕ → α × α) (m : ℤ → α) :
    storePair (pairs n f m) (2 * n) (f n) = pairs (n + 1) f m := by
  funext j
  by_cases h0 : j = 2 * n
  · subst h0
    have hne : (2 * n : ℤ) ≠ 2 * n + 1 := by omega
    rw [storePair, Function.update_of_ne hne, Function.update_self, pairs,
      if_pos (by omega), if_pos (by omega), show ((2 * n : ℤ) / 2).toNat = n by omega]
  · by_cases h1 : j = 2 * n + 1
    · subst h1
      rw [storePair, Function.update_self, pairs, if_pos (by omega), if_neg (by omega),
        show ((2 * n + 1 : ℤ) / 2).toNat = n by omega]
    · rw [storePair_of_ne _ _ h0 h1, pairs, pairs]
      by_cases hin : 0 ≤ j ∧ j < 2 * (n : ℤ)
      · have hin' : 0 ≤ j ∧ j < 2 * ((n + 1 : ℕ) : ℤ) := by omega
        rw [if_pos hin, if_pos hin']
      · have hin' : ¬ (0 ≤ j ∧ j < 2 * ((n + 1 : ℕ) : ℤ)) := by omega
        rw [if_neg hin, if_neg hin']

/-- **A loop that fills pairs**: turn `i` stores, in place of the pair it finds there, the
pair `f i`. -/
theorem upTo_fill {n : ℕ} {body : ℕ → (ℤ → α) → ℤ → α} {f : ℕ → α × α} {m : ℤ → α}
    (hbody : ∀ i < n, ∀ m', loadPair m' (2 * i) = loadPair m (2 * i) →
      body i m' = storePair m' (2 * i) (f i)) : upTo n body m = pairs n f m := by
  induction n with
  | zero => rw [upTo_zero, pairs_zero]
  | succ n ih =>
    have hload : loadPair (pairs n f m) (2 * n) = loadPair m (2 * n) := by
      rw [loadPair, loadPair, pairs_of_ge _ _ _ le_rfl, pairs_of_ge _ _ _ (by omega)]
    rw [upTo_succ, ih fun i hi => hbody i (Nat.lt_succ_of_lt hi),
      hbody n (Nat.lt_succ_self n) _ hload, pairs_succ]

/-- A loop that stores pairs in cells of its choice leaves the others alone. -/
theorem loadPair_upTo_store_of_ne {n : ℕ} {cell : ℕ → ℤ} (f : ℕ → α × α) (m : ℤ → α) {t : ℤ}
    (h : ∀ i < n, t ≠ cell i) :
    loadPair (upTo n (fun i m => storePair m (2 * cell i) (f i)) m) (2 * t) =
      loadPair m (2 * t) := by
  induction n with
  | zero => rfl
  | succ n ih =>
    rw [upTo_succ, loadPair_storePair_mul, if_neg (h n (Nat.lt_succ_self n)),
      ih fun i hi => h i (Nat.lt_succ_of_lt hi)]

/-- **A loop that scatters pairs** over distinct cells. -/
theorem loadPair_upTo_store {n : ℕ} {cell : ℕ → ℤ} (f : ℕ → α × α) (m : ℤ → α)
    (hinj : ∀ i < n, ∀ j < n, cell i = cell j → i = j) {k : ℕ} (hk : k < n) :
    loadPair (upTo n (fun i m => storePair m (2 * cell i) (f i)) m) (2 * cell k) = f k := by
  induction n with
  | zero => exact absurd hk (Nat.not_lt_zero k)
  | succ n ih =>
    rw [upTo_succ, loadPair_storePair_mul]
    split_ifs with hcell
    · rw [hinj k hk n (Nat.lt_succ_self n) hcell]
    · have hne : k ≠ n := fun heq => hcell (heq ▸ rfl)
      exact ih (fun i hi j hj => hinj i (Nat.lt_succ_of_lt hi) j (Nat.lt_succ_of_lt hj)) (by omega)

/-- **Two loops, one in the other, that scatter pairs** over distinct cells. -/
theorem loadPair_upTo_scatter {n l : ℕ} {cell : ℕ → ℕ → ℤ} (f : ℕ → ℕ → α × α) (m : ℤ → α)
    (hinj : ∀ i < n, ∀ j < l, ∀ i' < n, ∀ j' < l, cell i j = cell i' j' → i = i' ∧ j = j')
    {a b : ℕ} (ha : a < n) (hb : b < l) :
    loadPair (upTo n (fun i m => upTo l (fun j m => storePair m (2 * cell i j) (f i j)) m) m)
      (2 * cell a b) = f a b := by
  induction n with
  | zero => exact absurd ha (Nat.not_lt_zero a)
  | succ n ih =>
    rw [upTo_succ]
    by_cases han : a = n
    · subst han
      exact loadPair_upTo_store (f a) _ (fun j hj j' hj' h => (hinj a ha j hj a ha j' hj' h).2) hb
    · have hne : ∀ j < l, cell a b ≠ cell n j := fun j hj h =>
        han (hinj a ha b hb n (Nat.lt_succ_self n) j hj h).1
      rw [loadPair_upTo_store_of_ne _ _ hne]
      refine ih (fun i hi j hj i' hi' j' hj' => ?_) (by omega)
      exact hinj i (Nat.lt_succ_of_lt hi) j hj i' (Nat.lt_succ_of_lt hi') j' hj'

end Pairs

end Loop
end OsmoTrx
