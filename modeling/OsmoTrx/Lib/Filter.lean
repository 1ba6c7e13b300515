import OsmoTrx.Lib.Resample

/-!
# Filtering block by block

A finite impulse response over a stream that arrives in blocks of one length.

* `fir` — one sample of the convolution.
* `Filtered` — what has come out of the filter, and the end of the last block that it keeps.
* `Filtered.concat` — **one block more**: the filter reads the block behind what it has kept.
-/

namespace OsmoTrx

section Filter

variable {R M : Type*} [Semiring R] [AddCommMonoid M] [Module R M]

/-- Sample `j` of the convolution of the stream `x` with the filter `g` of `taps` taps. -/
def fir (taps : ℕ) (g : ℕ → R) (x : ℤ → M) (j : ℕ) : M :=
  ∑ k ∈ Finset.range taps, g k • x ((j : ℤ) - k)

/-- A block with something in front of it. -/
def withHistory (taps : ℕ) (hist : ℕ → M) (block : ℤ → M) (t : ℤ) : M :=
  if t < 0 then hist (t + taps).toNat else block t

variable {taps len : ℕ} {g : ℕ → R} {blocks : List (ℤ → M)} {out : List M} {hist : ℕ → M}

theorem fir_congr {x y : ℤ → M} {j : ℕ} (h : ∀ k < taps, x ((j : ℤ) - k) = y ((j : ℤ) - k)) :
    fir taps g x j = fir taps g y j := by
  refine Finset.sum_congr rfl fun k hk => ?_
  rw [h k (Finset.mem_range.mp hk)]

/-- The blocks have been filtered as one stream with zeros in front, and the end of that stream is
the history. -/
structure Filtered (taps len : ℕ) (g : ℕ → R) (blocks : List (ℤ → M)) (out : List M)
    (hist : ℕ → M) : Prop where
  out_eq : out = (List.range (len * blocks.length)).map (fir taps g (blockStream len blocks))
  history : ∀ m < taps, hist m = blockStream len blocks ((len * blocks.length : ℕ) - taps + m)

/-- Nothing has been filtered yet. -/
theorem filtered_nil (h : ∀ m < taps, hist m = 0) : Filtered taps len g [] [] hist := by
  refine ⟨rfl, fun m hm => ?_⟩
  rw [h m hm, List.length_nil, mul_zero, blockStream_of_neg _ _ (by omega)]

/-- **One block more** is filtered behind the history. -/
theorem Filtered.concat (h : Filtered taps len g blocks out hist) (htaps : taps ≤ len)
    {block : ℤ → M} {hist' : ℕ → M}
    (hhist : ∀ m < taps, hist' m = block ((len : ℤ) - taps + m)) :
    Filtered taps len g (blocks ++ [block])
      (out ++ (List.range len).map (fir taps g (withHistory taps hist block))) hist' := by
  have hlast : ∀ t : ℤ, 0 ≤ t → t < len →
      blockStream len (blocks ++ [block]) (len * blocks.length + t) = block t := by
    intro t h0 hlt
    rw [blockStream_block (by simp) h0 hlt, List.getElem_concat_length rfl]
  have hold : ∀ j < len * blocks.length, fir taps g (blockStream len (blocks ++ [block])) j =
      fir taps g (blockStream len blocks) j := by
    intro j hj
    refine fir_congr fun k _ => blockStream_append ?_
    have hcast : (j : ℤ) < (len * blocks.length : ℕ) := by exact_mod_cast hj
    push_cast at hcast
    omega
  have hnew : ∀ j < len, fir taps g (withHistory taps hist block) j =
      fir taps g (blockStream len (blocks ++ [block])) (len * blocks.length + j) := by
    intro j hj
    refine Finset.sum_congr rfl fun k hk => congrArg (g k • ·) ?_
    have hk := Finset.mem_range.mp hk
    have hsplit : (((len * blocks.length + j : ℕ) : ℤ) - k) = len * blocks.length + (j - k) := by
      push_cast
      ring
    rw [withHistory, hsplit]
    split_ifs with hneg
    · -- the tap reaches into the history
      rw [h.history _ (by omega), blockStream_append (by omega)]
      congr 1
      push_cast
      omega
    · exact (hlast _ (by omega) (by omega)).symm
  refine ⟨?_, fun m hm => ?_⟩
  · rw [h.out_eq, List.length_append, List.length_singleton, Nat.mul_succ, List.range_add,
      List.map_append, List.map_map]
    congr 1
    · exact List.map_congr_left fun j hj => (hold j (List.mem_range.mp hj)).symm
    · exact List.map_congr_left fun j hj => hnew j (List.mem_range.mp hj)
  · rw [hhist m hm, List.length_append, List.length_singleton, Nat.mul_succ,
      ← hlast _ (by omega) (by omega)]
    congr 1
    push_cast
    ring

end Filter

end OsmoTrx
