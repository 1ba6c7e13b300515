import OsmoTrx.Lib.Loop

/-!
# Rational resampling

Resampling a stream by `p / q` with a filter: `p - 1` zeros are put after every sample,
the result is filtered, and every `q`-th sample of it is kept.

* `resample` — the definition.
* `resample_polyphase` — of the `p * taps` products only `taps` are not zero; they belong to
  one of `p` sub-filters.
* `resample_index_lt` — the sample that an output of a block falls on is in the block.
* `resample_block` — the stream may be resampled block by block.
* `resample_congr` — an output depends on the last `taps` samples only.
* `blockStream` — the stream of a list of blocks; `blockStream_polyphase` — every `m`-th sample of
  it.
* `flatMap_resample`, `flatMap_resample_blocks` — blocks that are resampled one by one, each with
  its own history in front, give the stream resampled if the history is the stream's.
-/

namespace OsmoTrx

section Resample

variable {R M : Type*} [Semiring R] [AddCommMonoid M] [Module R M]

/-- The stream with `p - 1` zeros after every sample. -/
def upsample (p : ℕ) (x : ℤ → M) (t : ℤ) : M := if (p : ℤ) ∣ t then x (t / p) else 0

/-- Sample `j` of the stream `x` resampled by `p / q` with the filter `g` of `p * taps`
taps. -/
def resample (p q taps : ℕ) (g : ℕ → R) (x : ℤ → M) (j : ℕ) : M :=
  ∑ k ∈ Finset.range (p * taps), g k • upsample p x (q * j - k)

variable {p q taps : ℕ} {g : ℕ → R} {x y : ℤ → M}

/-- An output of a block of `p * b` falls on a sample of the block of `q * b` that it comes from. -/
theorem resample_index_lt {b j : ℕ} (hp : 0 < p) (hq : 0 < q) (hj : j < p * b) :
    q * j / p < q * b := by
  rw [Nat.div_lt_iff_lt_mul hp, Nat.mul_assoc, Nat.mul_comm b p]
  exact Nat.mul_lt_mul_of_pos_left hj hq

/-- **The polyphase form.** -/
theorem resample_polyphase (hp : 0 < p) (j : ℕ) :
    resample p q taps g x j =
      ∑ i ∈ Finset.range taps, g (p * i + q * j % p) • x ((q * j / p : ℕ) - i) := by
  rw [resample, Loop.sum_range_mul]
  refine Finset.sum_congr rfl fun i _ => ?_
  have hmod : q * j % p < p := Nat.mod_lt _ hp
  have hdiv := Nat.div_add_mod (q * j) p
  have hpz : (p : ℤ) ≠ 0 := by exact_mod_cast hp.ne'
  have hcell : ∀ r : ℕ, ((q : ℤ) * j - (p * i + r : ℕ)) =
      p * ((q * j / p : ℕ) - i) + ((q * j % p : ℕ) - r) := fun r => by
    have hz : (q : ℤ) * j = p * (q * j / p : ℕ) + (q * j % p : ℕ) := by exact_mod_cast hdiv.symm
    rw [hz]
    push_cast
    ring
  rw [Finset.sum_eq_single_of_mem (q * j % p) (Finset.mem_range.mpr hmod)]
  · rw [upsample, hcell, sub_self, add_zero, if_pos (dvd_mul_right _ _),
      Int.mul_ediv_cancel_left _ hpz]
  · -- the other positions of the group hold zeros
    intro r hr hne
    have hlt := Finset.mem_range.mp hr
    rw [upsample, hcell, if_neg, smul_zero]
    intro hdvd
    have hd : (p : ℤ) ∣ (q * j % p : ℕ) - r := (Int.dvd_add_right (dvd_mul_right _ _)).mp hdvd
    have hzero := Int.eq_zero_of_abs_lt_dvd hd (by rw [abs_lt]; omega)
    omega

/-- An output depends on the `taps` samples up to its place only. -/
theorem resample_congr (hp : 0 < p) {j : ℕ}
    (h : ∀ i < taps, x ((q * j / p : ℕ) - i) = y ((q * j / p : ℕ) - i)) :
    resample p q taps g x j = resample p q taps g y j := by
  rw [resample_polyphase hp, resample_polyphase hp]
  refine Finset.sum_congr rfl fun i hi => ?_
  rw [h i (Finset.mem_range.mp hi)]

/-- **Block by block**: `n` blocks of `p * b` outputs are made of `n` blocks of `q * b`
samples. -/
theorem resample_block (hp : 0 < p) (b n j : ℕ) :
    resample p q taps g x (p * b * n + j) =
      resample p q taps g (fun t => x (q * b * n + t)) j := by
  have hq : q * (p * b * n + j) = q * j + p * (q * b * n) := by ring
  rw [resample_polyphase hp, resample_polyphase hp, hq, Nat.add_mul_mod_self_left,
    Nat.add_mul_div_left _ _ hp]
  refine Finset.sum_congr rfl fun i _ => ?_
  congr 2
  push_cast
  ring

/-- The stream of a list of blocks of `len` samples, with zeros before the first. -/
def blockStream (len : ℕ) (blocks : List (ℤ → M)) (t : ℤ) : M :=
  if t < 0 then 0 else (blocks[(t / len).toNat]?).elim 0 fun b => b (t % len)

omit [Module R M] in
theorem blockStream_of_neg (len : ℕ) (blocks : List (ℤ → M)) {t : ℤ} (ht : t < 0) :
    blockStream len blocks t = 0 := by
  rw [blockStream, if_pos ht]

omit [Module R M] in
theorem blockStream_block {len k : ℕ} {blocks : List (ℤ → M)} (hk : k < blocks.length) {t : ℤ}
    (h0 : 0 ≤ t) (hlt : t < len) : blockStream len blocks (len * k + t) = blocks[k] t := by
  have hdiv : ((len : ℤ) * k + t) / len = k := by
    rw [Int.mul_add_ediv_left _ _ (by omega), Int.ediv_eq_zero_of_lt h0 hlt, add_zero]
  have hmod : ((len : ℤ) * k + t) % len = t := by
    rw [Int.mul_add_emod_self_left, Int.emod_eq_of_lt h0 hlt]
  have hpos : ¬ ((len : ℤ) * k + t < 0) := by
    have hk0 : (0 : ℤ) ≤ len * k := by positivity
    omega
  rw [blockStream, if_neg hpos, hdiv, hmod, Int.toNat_natCast, List.getElem?_eq_getElem hk]
  rfl

omit [Module R M] in
/-- More blocks do not change the stream up to them. -/
theorem blockStream_append {len : ℕ} {blocks more : List (ℤ → M)} {t : ℤ}
    (ht : t < len * blocks.length) :
    blockStream len (blocks ++ more) t = blockStream len blocks t := by
  unfold blockStream
  split_ifs with hneg
  · rfl
  · have hlt : (t / len).toNat < blocks.length := by
      have hlen : (0 : ℤ) < len := by
        rcases Nat.eq_zero_or_pos len with rfl | hpos
        · omega
        · exact_mod_cast hpos
      have hdiv : t / len < blocks.length := Int.ediv_lt_of_lt_mul hlen (by linarith)
      have hnonneg : 0 ≤ t / len := Int.ediv_nonneg (not_lt.mp hneg) hlen.le
      omega
    rw [List.getElem?_append_left hlt]

omit [Module R M] in
/-- **A polyphase component** of a stream of blocks: every `m`-th sample, from sample `r` on. -/
theorem blockStream_polyphase {m len r : ℕ} (hr : r < m) (blocks : List (ℤ → M)) (t : ℤ) :
    blockStream (len * m) blocks (m * t + r) =
      blockStream len (blocks.map fun b t => b (m * t + r)) t := by
  have hm : (0 : ℤ) < m := by omega
  have hinner : (m * t + r) / (m : ℤ) = t := by
    rw [Int.mul_add_ediv_left _ _ hm.ne', Int.ediv_eq_zero_of_lt (by omega) (by omega), add_zero]
  have hdiv : (m * t + r) / ((len * m : ℕ) : ℤ) = t / len := by
    rw [Nat.cast_mul, mul_comm (len : ℤ), ← Int.ediv_ediv_of_nonneg hm.le, hinner]
  have hmod : (m * t + r) % ((len * m : ℕ) : ℤ) = m * (t % len) + r := by
    rw [Int.emod_def, hdiv, Int.emod_def]
    push_cast
    ring
  have hneg : m * t + r < 0 ↔ t < 0 := by
    constructor
    · intro h
      by_contra hpos
      have := mul_nonneg hm.le (not_lt.mp hpos)
      omega
    · intro h
      have : (m : ℤ) * t ≤ m * (-1) := by
        refine mul_le_mul_of_nonneg_left ?_ hm.le
        omega
      omega
  unfold blockStream
  rw [hdiv, hmod, List.getElem?_map]
  by_cases h : t < 0
  · rw [if_pos h, if_pos (hneg.mpr h)]
  · rw [if_neg h, if_neg (mt hneg.mp h)]
    cases blocks[(t / len).toNat]? <;> rfl

/-- **Resampling one by one**: the blocks of a stream, each with the end of the stream so
far in front of it, give the stream resampled. -/
theorem flatMap_resample (hp : 0 < p) (hq : 0 < q) {b : ℕ} {inputs : List (ℤ → M)}
    (h : ∀ k (hk : k < inputs.length), ∀ t : ℤ, -(taps : ℤ) < t → t < (q * b : ℕ) →
      inputs[k] t = x ((q * b : ℕ) * k + t)) :
    inputs.flatMap (fun y => (List.range (p * b)).map (resample p q taps g y)) =
      (List.range (p * b * inputs.length)).map (resample p q taps g x) := by
  induction inputs using List.reverseRecOn with
  | nil => simp
  | append_singleton inputs y ih =>
    have hlast : ∀ j < p * b, resample p q taps g y j =
        resample p q taps g x (p * b * inputs.length + j) := by
      intro j hj
      rw [resample_block hp]
      refine resample_congr hp fun i hi => ?_
      have hlt : q * j / p < q * b := resample_index_lt hp hq hj
      generalize q * j / p = n at hlt
      have hk := h inputs.length (by simp) ((n : ℤ) - i) (by omega) (by omega)
      rw [List.getElem_concat_length rfl] at hk
      rw [hk]
      push_cast
      rfl
    have hinit := ih fun k hk t h0 h1 => by
      have := h k (by rw [List.length_append]; omega) t h0 h1
      rwa [List.getElem_append_left hk] at this
    rw [List.flatMap_append, hinit, List.flatMap_singleton, List.length_append,
      List.length_singleton, Nat.mul_add, Nat.mul_one, List.range_add, List.map_append,
      List.map_map]
    congr 1
    exact List.map_congr_left fun j hj => hlast j (List.mem_range.mp hj)

/-- **Blocks with a history**: if zeros lie in front of the first block and the end of the block
before it in front of any other, then resampling the blocks one by one resamples their stream. -/
theorem flatMap_resample_blocks (hp : 0 < p) (hq : 0 < q) {b : ℕ} (htaps : taps ≤ q * b)
    {inputs blocks : List (ℤ → M)} (hlen : inputs.length = blocks.length)
    (hframe : ∀ k (hk : k < inputs.length), ∀ t : ℤ, 0 ≤ t → t < (q * b : ℕ) →
      inputs[k] t = blocks[k] t)
    (hfirst : ∀ h : 0 < inputs.length, ∀ m < taps, inputs[0] ((m : ℤ) - taps) = 0)
    (hnext : ∀ k (hk : k + 1 < inputs.length), ∀ m < taps,
      inputs[k + 1] ((m : ℤ) - taps) = blocks[k] ((q * b : ℕ) - taps + m)) :
    inputs.flatMap (fun y => (List.range (p * b)).map (resample p q taps g y)) =
      (List.range (p * b * inputs.length)).map
        (resample p q taps g (blockStream (q * b) blocks)) := by
  refine flatMap_resample hp hq fun k hk t hlo hhi => ?_
  rcases lt_or_ge t 0 with hneg | hpos
  · -- in front of the block
    obtain ⟨m, rfl⟩ : ∃ m : ℕ, t = m - taps := ⟨(t + taps).toNat, by omega⟩
    have hm : m < taps := by omega
    cases k with
    | zero =>
      rw [hfirst hk m hm, blockStream_of_neg _ _ (by push_cast; omega)]
    | succ k =>
      have hk' : k < blocks.length := by omega
      have hcell : ((q * b : ℕ) : ℤ) * (k + 1 : ℕ) + (m - taps) =
          (q * b : ℕ) * k + ((q * b : ℕ) - taps + m) := by
        push_cast
        ring
      rw [hnext k hk m hm, hcell, blockStream_block hk' (by omega) (by omega)]
  · rw [blockStream_block (hlen ▸ hk) hpos hhi]
    exact hframe k hk t hpos hhi

end Resample

end OsmoTrx
