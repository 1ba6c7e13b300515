import OsmoTrx.Lib.Window

/-!
# Running noise level

`noiseVector` of `radioVector.cpp`, over a field in place of `float`: levels that are overwritten
one after the other, and averaged as a whole.

* `insert_eq` — an insertion is a push into the ring of levels.
* `avg_spec` — **the average** is the sum of the last levels divided by the size of the vector.
  That is their mean once there have been as many insertions, and before only if they add up to
  zero.
-/

namespace OsmoTrx
namespace Trx

/-- `noiseVector`: the elements and the position of the next insertion. -/
structure NoiseVector (K : Type*) where
  levels : List K
  itr : ℕ
  deriving DecidableEq, Repr

namespace NoiseVector

variable {K : Type*} [Field K]

/-- The constructor.  A new `std::vector<float>` is filled with zeros. -/
def new (size : ℕ) : NoiseVector K := ⟨List.replicate size 0, 0⟩

def size (v : NoiseVector K) : ℕ := v.levels.length

/-- `avg`, over all elements. -/
def avg (v : NoiseVector K) : K :=
  let val := v.levels.foldl (fun val level => val + level) 0
  val / v.size

/-- `insert`: whether there is a place, and the vector afterwards. -/
def insert (v : NoiseVector K) (val : K) : Bool × NoiseVector K :=
  if v.size = 0 then (false, v)
  else
    let itr := if v.itr ≥ v.size then 0 else v.itr
    (true, ⟨v.levels.set itr val, itr + 1⟩)

/-- Insertions one after the other. -/
def insertAll (v : NoiseVector K) (vals : List K) : NoiseVector K :=
  vals.foldl (fun v val => (v.insert val).2) v

/-! ## The window -/

omit [Field K] in
theorem insert_eq {v : NoiseVector K} (h : 0 < v.size) (val : K) :
    v.insert val =
      (true, ⟨(Window.push (v.levels, v.itr) val).1, (Window.push (v.levels, v.itr) val).2⟩) := by
  rw [insert, if_neg h.ne']
  rfl

omit [Field K] in
theorem insertAll_eq {v : NoiseVector K} (h : 0 < v.size) (vals : List K) :
    v.insertAll vals = ⟨(Window.pushAll (v.levels, v.itr) vals).1,
      (Window.pushAll (v.levels, v.itr) vals).2⟩ := by
  induction vals generalizing v with
  | nil => rfl
  | cons val vals ih =>
    have hstep : v.insertAll (val :: vals) = (v.insert val).2.insertAll vals := rfl
    rw [hstep, insert_eq h, ih]
    · rfl
    · simpa [size] using h

theorem avg_eq (v : NoiseVector K) : v.avg = v.levels.sum / v.size := by
  rw [avg, List.sum_eq_foldl]

variable [CharZero K]

/-- **The running average**: of the last levels, as many as the vector has elements, and of the
zeros that it was filled with as long as there are fewer. -/
theorem avg_spec {n : ℕ} (hn : 1 ≤ n) {vals : List K} (hvals : 1 ≤ vals.length) :
    ((new n).insertAll vals).avg = (vals.rtake (min vals.length n)).sum / n ∧
      ((new n).insertAll vals).itr ≤ n ∧
      (((new n).insertAll vals).avg =
          (vals.rtake (min vals.length n)).sum / (min vals.length n : ℕ) ↔
        n ≤ vals.length ∨ (vals.rtake (min vals.length n)).sum = 0) := by
  have hpos : 0 < (new n : NoiseVector K).size := by
    rw [size, new, List.length_replicate]
    exact hn
  have hring : 0 < ((List.replicate n (0 : K), 0) : List K × ℕ).1.length := hpos
  obtain ⟨hlen, hcursor, -⟩ := Window.pushAll_rotate hring (Nat.zero_le _) vals
  rw [List.length_replicate] at hlen hcursor
  have hrun : (new n).insertAll vals = ⟨(Window.pushAll (List.replicate n (0 : K), 0) vals).1,
      (Window.pushAll (List.replicate n (0 : K), 0) vals).2⟩ := insertAll_eq hpos vals
  have havg : ((new n).insertAll vals).avg = (vals.rtake (min vals.length n)).sum / n := by
    rw [avg_eq, hrun, size, Window.sum_pushAll hn, hlen]
  refine ⟨havg, hrun ▸ hcursor, ?_⟩
  rw [havg]
  by_cases hfull : n ≤ vals.length
  · rw [min_eq_right hfull]
    exact iff_of_true rfl (Or.inl hfull)
  · rw [or_iff_right hfull, min_eq_left (not_le.mp hfull).le]
    have hn0 : (n : K) ≠ 0 := Nat.cast_ne_zero.mpr (by omega)
    have hk0 : (vals.length : K) ≠ 0 := Nat.cast_ne_zero.mpr (by omega)
    have hne : (vals.length : K) - n ≠ 0 :=
      sub_ne_zero.mpr (Nat.cast_injective.ne (not_le.mp hfull).ne)
    rw [div_eq_div_iff hn0 hk0, ← sub_eq_zero, ← mul_sub, mul_eq_zero, or_iff_left hne]

/-- Three levels in two places. -/
theorem avg_three : ((new 2 : NoiseVector ℚ).insertAll [4, 8, 2]).avg = 5 := by
  have h := (avg_spec (show 1 ≤ 2 by decide) (show 1 ≤ [(4 : ℚ), 8, 2].length by decide)).1
  rw [h]
  norm_num [List.rtake]

/-- One level in two places: the average is half of it. -/
theorem avg_one_ne_mean :
    ((new 2 : NoiseVector ℚ).insertAll [4]).avg = 2 ∧
      ([4].rtake (min 1 2) : List ℚ).sum / (min 1 2 : ℕ) = 4 := by
  decide +kernel

end NoiseVector
end Trx
end OsmoTrx
