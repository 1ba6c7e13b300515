import OsmoTrx.CommonLibs.BitVector
import OsmoTrx.Lib.CText

/-!
# A bit vector as hexadecimal text

`hexstr` and `unhex` of `BitVector.cpp`: four elements to a digit, the first one most significant.
Printing leaves out the elements behind the last four; reading wants a digit for them, too, and
writes the elements of a digit before it looks at the next one.  The counters are `unsigned`;
`none` is a failed assertion.

* `hexstr_spec` — what is printed.
* `unhexLoop_spec` — what is written, whether all digits are valid or not.
* `comesBack_iff` — **the round trip** works for a multiple of four elements, up to 2³².
* `unhex_false_iff` — where reading fails the vector is unchanged just if the digits in front of
  the one that is not valid spell what it holds.
* `hex_text_iff` — both.
-/

namespace OsmoTrx
namespace CommonLibs
namespace BitVector

open CText

/-! ## The code -/

/-- The number of whole digits, and of the elements behind them. -/
def digits (v : BitVector) : ℕ := v.size / 4 % 2 ^ 32

def hexWhole (v : BitVector) : ℕ := v.digits * 4 % 2 ^ 32

def hexRem (v : BitVector) : ℕ := (v.size - v.hexWhole) % 2 ^ 32

/-- `os << readField(wp,4)`, the number being printed in hexadecimal. -/
def hexTurn (v : BitVector) (s : List Char × ℕ) (_ : ℕ) : Option (List Char × ℕ) := do
  let (retVal, wp) ← v.readField s.2 4
  some (s.1 ++ Nat.toDigits 16 retVal.toNat, wp)

def hexstr (v : BitVector) : Option (List Char) :=
  ((List.range v.digits).foldlM v.hexTurn ([], 0)).map Prod.fst

/-- The loop of `unhex`, with some turns to go: the vector, and whether all digits are valid. -/
def unhexLoop (src : List Char) : ℕ → ℕ → BitVector → Option (BitVector × Bool)
  | 0, _, v => some (v, true)
  | turns + 1, i, v =>
    match scanHexDigit (src.drop i) with
    | none => some (v, false)
    | some val => do
      let v ← v.fillField (i * 4 % 2 ^ 32) (BitVec.ofNat 64 val) 4
      unhexLoop src turns (i + 1) v

/-- `unhex`: the vector afterwards and the value returned. -/
def unhex (v : BitVector) (src : List Char) : Option (BitVector × Bool) := do
  let src := cstr src
  let (filled, valid) ← unhexLoop src v.digits 0 v
  if valid = false then some (filled, false)
  else if v.hexRem > 0 then
    match scanHexDigit (src.drop v.digits) with
    | none => some (filled, false)
    | some val => do
      let filled ← filled.fillField v.hexWhole (BitVec.ofNat 64 val) v.hexRem
      some (filled, true)
  else some (filled, true)

variable {v w : BitVector} {src text : List Char} {k : ℕ}

theorem digits_le (v : BitVector) : 4 * v.digits ≤ v.size := by
  have hle : v.digits ≤ v.size / 4 := Nat.mod_le _ _
  omega

theorem hexRem_eq (v : BitVector) : v.hexRem = v.size % 4 := by
  unfold hexRem hexWhole digits
  omega

/-! ## What is printed -/

/-- The digits of the first elements. -/
structure Printed (v : BitVector) (k : ℕ) (text : List Char) : Prop where
  length : text.length = k
  digit : ∀ i < k, ∃ d < 16, text[i]? = some (Nat.digitChar d) ∧
    ∀ b < 4, d.testBit b = v.bit (place false (4 * i) 4 b)

theorem Printed.hexTurn {s : List Char × ℕ} (h : Printed v k s.1) (hwp : s.2 = 4 * k)
    (hk : k < v.digits) :
    ∃ s', v.hexTurn s k = some s' ∧ Printed v (k + 1) s'.1 ∧ s'.2 = 4 * (k + 1) := by
  have hle := v.digits_le
  obtain ⟨r, hpeek, hbits⟩ := peek_spec false (show 4 * k + 4 ≤ v.size by omega)
  have hr : r.toNat < 2 ^ 4 := by
    refine Nat.lt_pow_two_of_testBit _ fun b hb => ?_
    rw [BitVec.testBit_toNat]
    by_cases hb64 : b < 64
    · rw [hbits b hb64]
      simp [show ¬ b < 4 by omega]
    · exact BitVec.getLsbD_of_ge r b (by omega)
  have hread : v.readField s.2 4 = some (r, 4 * k + 4) := by
    rw [readField, hwp, show v.peekField (4 * k) 4 = some r from hpeek, Option.map_some]
  refine ⟨(s.1 ++ [Nat.digitChar r.toNat], 4 * k + 4), ?_, ⟨?_, fun i hi => ?_⟩, rfl⟩
  · rw [BitVector.hexTurn, hread, ← Nat.toDigits_of_lt_base hr]
    rfl
  · rw [List.length_append, h.length, List.length_singleton]
  · by_cases hik : i = k
    · refine ⟨r.toNat, hr, ?_, fun b hb => ?_⟩
      · rw [hik, List.getElem?_append_right h.length.le, h.length, Nat.sub_self]
        rfl
      · rw [BitVec.testBit_toNat, hbits b (by omega), hik]
        simp [hb]
    · obtain ⟨d, hd, hget, hdigit⟩ := h.digit i (by omega)
      refine ⟨d, hd, ?_, hdigit⟩
      rw [List.getElem?_append_left (by rw [h.length]; omega), hget]

/-- **`hexstr`** prints a digit for every four elements. -/
theorem hexstr_spec (v : BitVector) : ∃ text, v.hexstr = some text ∧ Printed v v.digits text := by
  obtain ⟨s, hloop, hprinted, -⟩ := Loop.foldlM_range
    (P := fun i (s : List Char × ℕ) => Printed v i s.1 ∧ s.2 = 4 * i) (s := ([], 0))
    ⟨⟨rfl, fun i hi => absurd hi (Nat.not_lt_zero i)⟩, rfl⟩
    fun i hi s hs => hs.1.hexTurn hs.2 hi
  exact ⟨s.1, by rw [hexstr, hloop]; rfl, hprinted⟩

/-! ## What is written -/

/-- Where the elements of a digit begin. -/
def pos (i : ℕ) : ℕ := i * 4 % 2 ^ 32

/-- The number that a digit stands for. -/
def digit (src : List Char) (i : ℕ) : ℕ := (scanHexDigit (src.drop i)).getD 0

/-- All digits up to this one are valid. -/
def Valid (src : List Char) (i : ℕ) : Prop := ∀ j ≤ i, (scanHexDigit (src.drop j)).isSome

/-- The elements of digit `i` spell it. -/
def Spelled (v : BitVector) (src : List Char) (i : ℕ) : Prop :=
  ∀ b < 4, v.data (place false (pos i) 4 b) = element ((digit src i).testBit b)

/-- The first `k` digits are in the vector, and the other elements are what they were.  Where the
elements of two digits are the same the later one is there. -/
structure Written (v : BitVector) (src : List Char) (k : ℕ) (filled : BitVector) : Prop where
  size : filled.size = v.size
  last : ∀ i < k, (∀ i' < k, i < i' → pos i' ≠ pos i) → filled.Spelled src i
  others : ∀ e : ℤ, (∀ i < k, ¬ ((pos i : ℤ) ≤ e ∧ e < (pos i + 4 : ℕ))) → filled.data e = v.data e

theorem Written.refl (v : BitVector) (src : List Char) : Written v src 0 v :=
  ⟨rfl, fun i hi => absurd hi (Nat.not_lt_zero i), fun _ _ => rfl⟩

/-- One more digit. -/
theorem Written.digit {filled : BitVector} (h : Written v src k filled) (hk : 4 * k + 4 ≤ v.size)
    {val : ℕ} (hval : scanHexDigit (src.drop k) = some val) :
    ∃ filled', filled.fillField (k * 4 % 2 ^ 32) (BitVec.ofNat 64 val) 4 = some filled' ∧
      Written v src (k + 1) filled' := by
  have hfits : pos k + 4 ≤ filled.size := by
    have hle : k * 4 % 2 ^ 32 ≤ k * 4 := Nat.mod_le _ _
    rw [h.size, pos]
    omega
  obtain ⟨filled', hfill, hsize, hwritten, hframe⟩ := fill_spec false (BitVec.ofNat 64 val) hfits
  refine ⟨filled', hfill, hsize.trans h.size, fun i hi hlast b hb => ?_, fun e he => ?_⟩
  · by_cases hik : i = k
    · rw [hik, hwritten b hb, BitVec.getLsbD_ofNat, BitVector.digit, hval, Option.getD_some]
      simp [show b < 64 by omega]
    · have hne := hlast k (Nat.lt_succ_self k) (by omega)
      have hmem := place_mem false (pos i) hb
      have hdisjoint : pos i + 4 ≤ pos k ∨ pos k + 4 ≤ pos i := by
        unfold pos at hne ⊢
        omega
      rw [hframe _ (by omega)]
      exact h.last i (by omega) (fun i' hi' => hlast i' (Nat.lt_succ_of_lt hi')) b hb
  · rw [hframe e (he k (Nat.lt_succ_self k)), h.others e fun i hi => he i (Nat.lt_succ_of_lt hi)]

/-- **The loop of `unhex`** writes the digits up to the first one that is not valid. -/
theorem unhexLoop_spec (turns : ℕ) :
    ∀ (k : ℕ) (filled : BitVector), 4 * (k + turns) ≤ v.size → Written v src k filled →
      (∀ j < k, (scanHexDigit (src.drop j)).isSome) →
      ∃ n filled' valid, unhexLoop src turns k filled = some (filled', valid) ∧
        Written v src n filled' ∧ (∀ j < n, (scanHexDigit (src.drop j)).isSome) ∧
        (if valid then n = k + turns else n < k + turns ∧ scanHexDigit (src.drop n) = none) := by
  induction turns with
  | zero => exact fun k filled _ h hvalid => ⟨k, filled, true, rfl, h, hvalid, rfl⟩
  | succ turns ih =>
    intro k filled hfits h hvalid
    cases hscan : scanHexDigit (src.drop k) with
    | none =>
      refine ⟨k, filled, false, by rw [unhexLoop, hscan], h, hvalid, ?_, hscan⟩
      omega
    | some val =>
      obtain ⟨filled', hfill, h'⟩ := h.digit (by omega) hscan
      have hvalid' : ∀ j < k + 1, (scanHexDigit (src.drop j)).isSome := by
        intro j hj
        by_cases hjk : j = k
        · rw [hjk, hscan]
          rfl
        · exact hvalid j (by omega)
      obtain ⟨n, filled'', valid, hrest, hresult⟩ := ih (k + 1) filled' (by omega) h' hvalid'
      refine ⟨n, filled'', valid, ?_, ?_⟩
      · rw [unhexLoop, hscan]
        simp only [hfill, Option.bind_eq_bind, Option.bind_some, hrest]
      · rwa [show k + 1 + turns = k + (turns + 1) by omega] at hresult

/-! ## Reading that fails -/

/-- **When `unhex` fails** the digits up to the first one that is not valid have been written. -/
theorem unhex_false (h : v.unhex src = some (w, false)) :
    ∃ n, Written v (cstr src) n w ∧ (∀ j < n, (scanHexDigit ((cstr src).drop j)).isSome) ∧
      scanHexDigit ((cstr src).drop n) = none ∧ n ≤ v.digits := by
  have hle := v.digits_le
  obtain ⟨n, filled, valid, hloop, hwritten, hvalid, hend⟩ := unhexLoop_spec v.digits 0 v
    (by omega) (Written.refl v (cstr src)) fun j hj => absurd hj (Nat.not_lt_zero j)
  rw [unhex, hloop] at h
  cases valid with
  | false =>
    obtain ⟨hn, hnone⟩ := hend
    obtain rfl : filled = w := by simpa using h
    exact ⟨n, hwritten, hvalid, hnone, by omega⟩
  | true =>
    have hn : n = v.digits := by simpa using hend
    subst hn
    -- all the digits are there, and it is the one for the other elements that is not
    cases hscan : scanHexDigit ((cstr src).drop v.digits) with
    | none =>
      refine ⟨v.digits, ?_, hvalid, hscan, le_rfl⟩
      rw [hscan] at h
      by_cases hrem : v.hexRem > 0
      · obtain rfl : filled = w := by simpa [hrem] using h
        exact hwritten
      · simp [hrem] at h
    | some val =>
      rw [hscan] at h
      by_cases hrem : v.hexRem > 0
      · cases hfill : filled.fillField v.hexWhole (BitVec.ofNat 64 val) v.hexRem with
        | none => simp [hrem, hfill] at h
        | some filled' => simp [hrem, hfill] at h
      · simp [hrem] at h

/-- The digits in front of the first one that is not valid spell what the vector holds. -/
def Spells (v : BitVector) (src : List Char) : Prop :=
  ∀ i < v.digits, Valid (cstr src) i →
    (∀ i' < v.digits, i < i' → Valid (cstr src) i' → pos i' ≠ pos i) → v.Spelled (cstr src) i

/-- The last digit that covers an element. -/
theorem exists_last {P : ℕ → Prop} {n : ℕ} (h : ∃ i < n, P i) :
    ∃ i < n, P i ∧ ∀ i' < n, i < i' → ¬ P i' := by
  classical
  obtain ⟨i, hi, hP⟩ := h
  have hlast : Nat.findGreatest P (n - 1) ≤ n - 1 := Nat.findGreatest_le _
  refine ⟨Nat.findGreatest P (n - 1), by omega, Nat.findGreatest_spec (by omega) hP, ?_⟩
  exact fun i' hi' hlt => Nat.findGreatest_is_greatest hlt (by omega)

/-- **A vector is unchanged** by reading that fails just if the text spells it. -/
theorem unhex_false_iff (h : v.unhex src = some (w, false)) : w = v ↔ v.Spells src := by
  obtain ⟨n, hwritten, hvalid, hnone, hn⟩ := unhex_false h
  have hin : ∀ i, Valid (cstr src) i ↔ i < n := by
    refine fun i => ⟨fun hi => ?_, fun hi j hj => hvalid j (by omega)⟩
    by_contra hle
    have hsome := hi n (by omega)
    rw [hnone] at hsome
    exact Bool.false_ne_true hsome
  constructor
  · rintro rfl i hi hval hlast
    exact hwritten.last i ((hin i).mp hval) fun i' hi' hlt =>
      hlast i' (by omega) hlt ((hin i').mpr hi')
  · intro hspells
    have hdata : w.data = v.data := by
      funext e
      by_cases he : ∃ i < n, (pos i : ℤ) ≤ e ∧ e < (pos i + 4 : ℕ)
      · obtain ⟨i, hi, hcovers, hlast⟩ := exists_last he
        obtain ⟨b, hb, rfl⟩ : ∃ b < 4, e = place false (pos i) 4 b :=
          exists_place hcovers.1 hcovers.2
        have hne : ∀ i' < n, i < i' → pos i' ≠ pos i := by
          intro i' hi' hlt heq
          exact hlast i' hi' hlt (heq.symm ▸ hcovers)
        have hspelled := hspells i (by omega) ((hin i).mpr hi) fun i' _ hlt hval =>
          hne i' ((hin i').mp hval) hlt
        rw [hwritten.last i hi hne b hb, hspelled b hb]
      · exact hwritten.others e fun i hi hcovers => he ⟨i, hi, hcovers⟩
    obtain ⟨data, size⟩ := v
    obtain ⟨data', size'⟩ := w
    simp only at hdata
    rw [hdata, show size' = size from hwritten.size]

/-! ## The round trip -/

/-- A printed digit is read back. -/
theorem Printed.scan (h : Printed w k text) {i : ℕ} (hi : i < k) :
    ∃ d, scanHexDigit (text.drop i) = some d ∧
      ∀ b < 4, d.testBit b = w.bit (place false (4 * i) 4 b) := by
  obtain ⟨d, hd, hget, hbits⟩ := h.digit i hi
  obtain ⟨hlt, hchar⟩ := List.getElem?_eq_some_iff.mp hget
  refine ⟨d, ?_, hbits⟩
  rw [List.drop_eq_getElem_cons hlt, hchar, scanHexDigit_digitChar hd]

theorem Printed.cstr_eq (h : Printed w k text) : cstr text = text := by
  have hchar : ∀ d < 16, (Nat.digitChar d).toNat ≠ 0 := by decide
  refine cstr_eq_self fun c hc => ?_
  obtain ⟨i, hi, rfl⟩ := List.mem_iff_getElem.mp hc
  obtain ⟨d, hd, hget, -⟩ := h.digit i (h.length ▸ hi)
  rw [List.getElem?_eq_getElem hi] at hget
  rw [Option.some.inj hget]
  exact hchar d hd

/-- **Printed text** is read, up to the digit that would be for the elements behind. -/
theorem unhex_printed (hsize : v.size = w.size) (h : Printed w w.digits text) :
    ∃ filled, v.unhex text = some (filled, decide (w.size % 4 = 0)) ∧
      Written v text w.digits filled := by
  have hdigits : v.digits = w.digits := by rw [digits, hsize, digits]
  have hle := v.digits_le
  obtain ⟨n, filled, valid, hloop, hwritten, -, hend⟩ := unhexLoop_spec v.digits 0 v
    (by omega) (Written.refl v text) fun j hj => absurd hj (Nat.not_lt_zero j)
  rw [unhex, h.cstr_eq, hloop, hexRem_eq, hsize]
  cases valid with
  | false =>
    obtain ⟨hn, hnone⟩ := hend
    obtain ⟨d, hscan, -⟩ := h.scan (show n < w.digits by omega)
    exact absurd (hscan.symm.trans hnone) (Option.some_ne_none d)
  | true =>
    have hn : n = w.digits := by simpa [hdigits] using hend
    refine ⟨filled, ?_, hn ▸ hwritten⟩
    have hdrop : text.drop v.digits = [] := List.drop_of_length_le (by rw [h.length, hdigits])
    by_cases hrem : w.size % 4 = 0
    · simp [hrem]
    · simp [hrem, hdrop, Nat.pos_of_ne_zero hrem, scanHexDigit]

/-- Every vector of this size comes back when its text is read into another one. -/
def ComesBack (n : ℕ) : Prop :=
  ∀ w v : BitVector, w.size = n → v.size = n → ∃ text v', w.hexstr = some text ∧
    v.unhex text = some (v', true) ∧ ∀ k < n, v'.bit k = w.bit k

/-- No digit is written beyond 2³² elements. -/
theorem pos_le (i : ℕ) : pos i + 4 ≤ 2 ^ 32 := by
  unfold pos
  omega

theorem comesBack_iff (n : ℕ) : ComesBack n ↔ n % 4 = 0 ∧ n ≤ 2 ^ 32 := by
  constructor
  · intro h
    obtain ⟨text, v', hprint, hread, hbits⟩ := h ⟨fun _ => 1, n⟩ ⟨fun _ => 0, n⟩ rfl rfl
    obtain ⟨text', hprint', hprinted⟩ := hexstr_spec ⟨fun _ => 1, n⟩
    obtain rfl : text' = text := Option.some.inj (hprint'.symm.trans hprint)
    obtain ⟨filled, hread', hwritten⟩ := unhex_printed
      (v := ⟨fun _ => 0, n⟩) (w := ⟨fun _ => 1, n⟩) rfl hprinted
    obtain ⟨rfl, hvalid⟩ := Prod.mk.inj (Option.some.inj (hread'.symm.trans hread))
    refine ⟨of_decide_eq_true hvalid, ?_⟩
    by_contra hmax
    have hlost := hbits (2 ^ 32) (by omega)
    rw [bit, hwritten.others _ fun i _ hcovers => by have hle := pos_le i; omega] at hlost
    simp [bit] at hlost
  · rintro ⟨hwhole, hmax⟩ w v hw hv
    obtain ⟨text, hprint, hprinted⟩ := w.hexstr_spec
    obtain ⟨v', hread, hwritten⟩ := unhex_printed (hv.trans hw.symm) hprinted
    have hdigits : w.digits = n / 4 := by
      rw [digits, hw]
      omega
    have hpos : ∀ i < w.digits, pos i = 4 * i := by
      intro i hi
      unfold pos
      omega
    rw [hw, decide_eq_true hwhole] at hread
    refine ⟨text, v', hprint, hread, fun k hk => ?_⟩
    have hi : k / 4 < w.digits := by omega
    have hplace : (k : ℤ) = place false (4 * (k / 4)) 4 (3 - k % 4) := by
      simp only [place, Bool.false_eq_true, if_false]
      omega
    have hne : ∀ i' < w.digits, k / 4 < i' → pos i' ≠ pos (k / 4) := by
      intro i' hi' hlt
      rw [hpos i' hi', hpos _ hi]
      omega
    have hspelled := hwritten.last (k / 4) hi hne (3 - k % 4) (by omega)
    obtain ⟨d, hscan, hd⟩ := hprinted.scan hi
    rw [hpos _ hi, ← hplace, digit, hscan, Option.getD_some, hd _ (by omega), ← hplace] at hspelled
    rw [bit, hspelled, getLsbD_element]

/-- **Hexadecimal text** brings back all vectors of a size just if the size is a multiple of four
and at most 2³², and reading that fails leaves a vector unchanged just if the text spells it. -/
theorem hex_text_iff (n : ℕ) :
    (ComesBack n ↔ n % 4 = 0 ∧ n ≤ 2 ^ 32) ∧
      ∀ (v : BitVector) (src : List Char) (v' : BitVector), v.size = n →
        v.unhex src = some (v', false) → (v' = v ↔ v.Spells src) :=
  ⟨comesBack_iff n, fun _ _ _ _ h => unhex_false_iff h⟩

/-- Five elements do not come back, and `fg` is read in part. -/
theorem hex_text_lost :
    (∃ text v', hexstr ⟨fun _ => 1, 5⟩ = some text ∧
      unhex ⟨fun _ => 0, 5⟩ text = some (v', false)) ∧
    ∃ v', unhex ⟨fun _ => 0, 8⟩ ['f', 'g'] = some (v', false) ∧ v'.data 0 = 1 :=
  ⟨⟨['f'], _, by decide, rfl⟩, _, rfl, by decide⟩

end BitVector
end CommonLibs
end OsmoTrx
