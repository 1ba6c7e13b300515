import OsmoTrx.Lib.Loop

/-!
# Fields in a bit vector

The field access of `BitVector.cpp`.  A bit vector has a `char` for each bit, of which only the
lowest bit counts; a field is a number of 64 bits whose bits lie next to each other, most
significant first or last.  A failed assertion is `none`.

* `place` — where bit `k` of a field lies, in either direction.
* `peek_spec`, `fill_spec` — a field is read from these places and written there, and nowhere else.
* `peek_fill` — what is written is read back, or reversed if it is read the other way.
* `fields_roundtrip` — **fields written in sequence** are read back in sequence.
-/

namespace OsmoTrx
namespace CommonLibs

/-- `BitVector`: the elements, by their distance from `mStart`. -/
structure BitVector where
  data : ℤ → BitVec 8
  size : ℕ

namespace BitVector

/-! ## The code -/

/-- `accum = (accum<<1) | ((*dp) & 0x01)`, after which the pointer goes on. -/
def peekTurn (v : BitVector) (step : ℤ) (s : BitVec 64 × ℤ) : BitVec 64 × ℤ :=
  (s.1 <<< 1 ||| (v.data s.2 &&& 1#8).setWidth 64, s.2 + step)

def peekField (v : BitVector) (readIndex length : ℕ) : Option (BitVec 64) :=
  let dp : ℤ := readIndex
  if dp + length ≤ v.size then some (Loop.upTo length (fun _ => v.peekTurn 1) (0, dp)).1 else none

def peekFieldReversed (v : BitVector) (readIndex length : ℕ) : Option (BitVec 64) :=
  let dp : ℤ := readIndex + length - 1
  if dp < v.size then some (Loop.upTo length (fun _ => v.peekTurn (-1)) (0, dp)).1 else none

/-- The number read and the index afterwards. -/
def readField (v : BitVector) (readIndex length : ℕ) : Option (BitVec 64 × ℕ) :=
  (v.peekField readIndex length).map fun retVal => (retVal, readIndex + length)

def readFieldReversed (v : BitVector) (readIndex length : ℕ) : Option (BitVec 64 × ℕ) :=
  (v.peekFieldReversed readIndex length).map fun retVal => (retVal, readIndex + length)

/-- The elements, the pointer and the value in a loop that fills. -/
structure Fill where
  data : ℤ → BitVec 8
  dp : ℤ
  value : BitVec 64

/-- `*dp = value & 0x01; value >>= 1`, after which the pointer goes on. -/
def fillTurn (step : ℤ) (s : Fill) : Fill :=
  ⟨Function.update s.data s.dp ((s.value &&& 1#64).setWidth 8), s.dp + step, s.value >>> 1⟩

/-- The loop ends when the pointer has passed `dpBase`, after `length` turns. -/
def fillField (v : BitVector) (writeIndex : ℕ) (value : BitVec 64) (length : ℕ) :
    Option BitVector :=
  let dpBase : ℤ := writeIndex
  let dp := dpBase + length - 1
  if dp < v.size then
    some { v with data := (Loop.upTo length (fun _ => fillTurn (-1)) ⟨v.data, dp, value⟩).data }
  else none

def fillFieldReversed (v : BitVector) (writeIndex : ℕ) (value : BitVec 64) (length : ℕ) :
    Option BitVector :=
  let dp : ℤ := writeIndex
  let dpEnd := dp + length - 1
  if dpEnd < v.size then
    some { v with data := (Loop.upTo length (fun _ => fillTurn 1) ⟨v.data, dp, value⟩).data }
  else none

/-- The vector and the index afterwards. -/
def writeField (v : BitVector) (writeIndex : ℕ) (value : BitVec 64) (length : ℕ) :
    Option (BitVector × ℕ) :=
  (v.fillField writeIndex value length).map fun v => (v, writeIndex + length)

def writeFieldReversed (v : BitVector) (writeIndex : ℕ) (value : BitVec 64) (length : ℕ) :
    Option (BitVector × ℕ) :=
  (v.fillFieldReversed writeIndex value length).map fun v => (v, writeIndex + length)

/-! ## Either direction -/

/-- `peekField` or `peekFieldReversed`. -/
def peek (reversed : Bool) (v : BitVector) (index length : ℕ) : Option (BitVec 64) :=
  if reversed then v.peekFieldReversed index length else v.peekField index length

/-- `fillField` or `fillFieldReversed`. -/
def fill (reversed : Bool) (v : BitVector) (index : ℕ) (value : BitVec 64) (length : ℕ) :
    Option BitVector :=
  if reversed then v.fillFieldReversed index value length else v.fillField index value length

/-- The bit of an element. -/
def bit (v : BitVector) (e : ℤ) : Bool := (v.data e).getLsbD 0

/-- Where bit `k` of a field lies. -/
def place (reversed : Bool) (index length k : ℕ) : ℤ :=
  if reversed then index + k else index + length - 1 - k

variable {v : BitVector} {step dp : ℤ} {index length k : ℕ} {value : BitVec 64} {reversed : Bool}

/-- The accumulator after some turns: the last bit is the lowest one. -/
theorem peekTurns (n : ℕ) :
    (Loop.upTo n (fun _ => v.peekTurn step) (0, dp)).2 = dp + step * n ∧
      ∀ k < 64, (Loop.upTo n (fun _ => v.peekTurn step) (0, dp)).1.getLsbD k =
        (decide (k < n) && v.bit (dp + step * (n - 1 - k))) := by
  induction n with
  | zero => simp
  | succ n ih =>
    obtain ⟨hdp, hbits⟩ := ih
    rw [Loop.upTo_succ]
    refine ⟨?_, fun k hk => ?_⟩
    · rw [peekTurn, hdp]
      push_cast
      ring
    · rw [peekTurn, hdp, BitVec.getLsbD_or, BitVec.getLsbD_shiftLeft, BitVec.getLsbD_setWidth,
        BitVec.getLsbD_and, BitVec.getLsbD_one]
      cases k with
      | zero => simp [bit]
      | succ k =>
        rw [Nat.add_sub_cancel, hbits k (by omega)]
        have hplace : ((n + 1 : ℕ) : ℤ) - 1 - (k + 1 : ℕ) = n - 1 - k := by
          push_cast
          ring
        rw [hplace]
        simp [hk]

/-- The element that a turn writes. -/
def element (b : Bool) : BitVec 8 := if b then 1#8 else 0#8

theorem and_one_setWidth (x : BitVec 64) : (x &&& 1#64).setWidth 8 = element (x.getLsbD 0) := by
  apply BitVec.eq_of_getLsbD_eq
  intro k hk
  rw [BitVec.getLsbD_setWidth, BitVec.getLsbD_and, BitVec.getLsbD_one, element]
  by_cases hk0 : k = 0
  · subst hk0
    cases x.getLsbD 0 <;> simp
  · cases x.getLsbD 0 <;> simp [hk0]

@[simp] theorem getLsbD_element (b : Bool) : (element b).getLsbD 0 = b := by
  cases b <;> rfl

theorem fillTurn_data (s : Fill) :
    (fillTurn step s).data = Function.update s.data s.dp (element (s.value.getLsbD 0)) := by
  rw [fillTurn, and_one_setWidth]

/-- The elements after some turns: bit `t` is where the pointer was in turn `t`. -/
theorem fillTurns (hstep : step ≠ 0) (data : ℤ → BitVec 8) (dp : ℤ) (value : BitVec 64) (n : ℕ) :
    ((Loop.upTo n (fun _ => fillTurn step) ⟨data, dp, value⟩).dp = dp + step * n ∧
      (Loop.upTo n (fun _ => fillTurn step) ⟨data, dp, value⟩).value = value >>> n) ∧
      (∀ t < n, (Loop.upTo n (fun _ => fillTurn step) ⟨data, dp, value⟩).data (dp + step * t) =
        element (value.getLsbD t)) ∧
      ∀ e, (∀ t < n, e ≠ dp + step * t) →
        (Loop.upTo n (fun _ => fillTurn step) ⟨data, dp, value⟩).data e = data e := by
  induction n with
  | zero => exact ⟨⟨by simp, by simp⟩, fun t ht => absurd ht (Nat.not_lt_zero t), fun e _ => rfl⟩
  | succ n ih =>
    obtain ⟨⟨hdp, hvalue⟩, hwritten, hframe⟩ := ih
    rw [Loop.upTo_succ]
    refine ⟨⟨?_, ?_⟩, fun t ht => ?_, fun e he => ?_⟩
    · rw [fillTurn, hdp]
      push_cast
      ring
    · rw [fillTurn, hvalue, BitVec.shiftRight_add]
    · rw [fillTurn_data, hdp, hvalue, BitVec.getLsbD_ushiftRight, Nat.add_zero]
      by_cases htn : t = n
      · rw [htn, Function.update_self]
      · have hne : dp + step * t ≠ dp + step * n := by
          intro heq
          have hmul := mul_left_cancel₀ hstep (add_left_cancel heq)
          exact htn (by exact_mod_cast hmul)
        rw [Function.update_of_ne hne]
        exact hwritten t (by omega)
    · rw [fillTurn_data, hdp, Function.update_of_ne (he n (Nat.lt_succ_self n))]
      exact hframe e fun t ht => he t (Nat.lt_succ_of_lt ht)

/-! ## One field -/

theorem place_mem (reversed : Bool) (index : ℕ) (hk : k < length) :
    (index : ℤ) ≤ place reversed index length k ∧
      place reversed index length k < (index + length : ℕ) := by
  unfold place
  push_cast
  split_ifs <;> omega

/-- Every element of a field is the place of a bit. -/
theorem exists_place {e : ℤ} (h0 : (index : ℤ) ≤ e) (h1 : e < (index + length : ℕ)) :
    ∃ k < length, e = place reversed index length k := by
  unfold place
  push_cast at h1
  cases reversed with
  | false => exact ⟨(index + length - 1 - e).toNat, by omega, by simp; omega⟩
  | true => exact ⟨(e - index).toNat, by omega, by simp; omega⟩

/-- The other direction has the bits in the opposite order. -/
theorem place_not (hk : k < length) :
    place (!reversed) index length k = place reversed index length (length - 1 - k) := by
  unfold place
  cases reversed <;> (simp; omega)

/-- How the loops that fill go on from one bit to the next. -/
def stride (reversed : Bool) : ℤ := if reversed then 1 else -1

theorem stride_ne_zero (reversed : Bool) : stride reversed ≠ 0 := by
  cases reversed <;> decide

theorem place_zero_add (k : ℕ) :
    place reversed index length 0 + stride reversed * k = place reversed index length k := by
  unfold place stride
  cases reversed with
  | false =>
    simp only [Bool.false_eq_true, if_false, Nat.cast_zero]
    ring
  | true =>
    simp only [if_true, Nat.cast_zero]
    ring

/-- Reading starts at the highest bit and filling at the lowest one. -/
theorem peek_eq (hfits : index + length ≤ v.size) :
    peek reversed v index length = some (Loop.upTo length (fun _ => v.peekTurn (-stride reversed))
      (0, place reversed index length 0 + stride reversed * (length - 1))).1 := by
  unfold peek place stride
  cases reversed with
  | false =>
    simp only [Bool.false_eq_true, if_false, peekField, Nat.cast_zero]
    rw [if_pos (by exact_mod_cast hfits), neg_neg,
      show (index : ℤ) + length - 1 - 0 + -1 * (length - 1) = index by ring]
  | true =>
    simp only [if_true, peekFieldReversed, Nat.cast_zero]
    rw [if_pos (by omega),
      show (index : ℤ) + 0 + 1 * ((length : ℤ) - 1) = index + length - 1 by ring]

theorem fill_eq (hfits : index + length ≤ v.size) (value : BitVec 64) :
    fill reversed v index value length = some { v with
      data := (Loop.upTo length (fun _ => fillTurn (stride reversed))
        ⟨v.data, place reversed index length 0, value⟩).data } := by
  unfold fill place stride
  cases reversed with
  | false =>
    simp only [Bool.false_eq_true, if_false, fillField, Nat.cast_zero, sub_zero]
    rw [if_pos (by omega)]
  | true =>
    simp only [if_true, fillFieldReversed, Nat.cast_zero, add_zero]
    rw [if_pos (by omega)]

/-- **A field that is read** has its bits from their places. -/
theorem peek_spec (reversed : Bool) (hfits : index + length ≤ v.size) :
    ∃ r, peek reversed v index length = some r ∧
      ∀ k < 64, r.getLsbD k = (decide (k < length) && v.bit (place reversed index length k)) := by
  refine ⟨_, peek_eq hfits, fun k hk => ?_⟩
  rw [(peekTurns length).2 k hk, ← place_zero_add k]
  congr 2
  ring

/-- **A field that is filled** has its bits in their places, and the other elements stay. -/
theorem fill_spec (reversed : Bool) (value : BitVec 64) (hfits : index + length ≤ v.size) :
    ∃ filled, fill reversed v index value length = some filled ∧ filled.size = v.size ∧
      (∀ k < length, filled.data (place reversed index length k) = element (value.getLsbD k)) ∧
      ∀ e : ℤ, ¬ ((index : ℤ) ≤ e ∧ e < (index + length : ℕ)) → filled.data e = v.data e := by
  obtain ⟨-, hwritten, hframe⟩ := fillTurns (stride_ne_zero reversed) v.data
    (place reversed index length 0) value length
  simp only [place_zero_add] at hwritten hframe
  refine ⟨_, fill_eq hfits value, rfl, hwritten, fun e he => hframe e fun t ht heq => ?_⟩
  exact he (heq ▸ place_mem reversed index ht)

/-- A field is read the way its elements spell it. -/
theorem peek_of_elements (hfits : index + length ≤ v.size) (hmax : length ≤ 64)
    (h : ∀ k < length, v.data (place reversed index length k) = element (value.getLsbD k)) :
    ∃ r, peek reversed v index length = some r ∧ r.toNat = value.toNat % 2 ^ length := by
  obtain ⟨r, hr, hbits⟩ := peek_spec reversed hfits
  refine ⟨r, hr, Nat.eq_of_testBit_eq fun k => ?_⟩
  rw [BitVec.testBit_toNat, Nat.testBit_mod_two_pow, BitVec.testBit_toNat]
  by_cases hk : k < length
  · rw [hbits k (by omega), bit, h k hk, getLsbD_element]
  · by_cases hk64 : k < 64
    · rw [hbits k hk64]
      simp [hk]
    · rw [BitVec.getLsbD_of_ge r k (by omega)]
      simp [hk]

/-- Reading the other way reverses the bits. -/
theorem peek_not_of_elements (hfits : index + length ≤ v.size)
    (h : ∀ k < length, v.data (place reversed index length k) = element (value.getLsbD k)) :
    ∃ r, peek (!reversed) v index length = some r ∧
      r = ((value.setWidth length).reverse).setWidth 64 := by
  obtain ⟨r, hr, hbits⟩ := peek_spec (!reversed) hfits
  refine ⟨r, hr, BitVec.eq_of_getLsbD_eq fun k hk => ?_⟩
  rw [hbits k hk, BitVec.getLsbD_setWidth, BitVec.getLsbD_reverse, BitVec.getMsbD]
  by_cases hkl : k < length
  · rw [place_not hkl, bit, h _ (by omega), getLsbD_element, BitVec.getLsbD_setWidth]
    have hmirror : length - 1 - k < length := by omega
    simp [hk, hkl, hmirror]
  · simp [hkl]

/-- **One field**: what is written is read back, or reversed if it is read the other way, and the
other elements stay. -/
theorem peek_fill (reversed : Bool) (value : BitVec 64) (hfits : index + length ≤ v.size)
    (hmax : length ≤ 64) :
    ∃ filled, fill reversed v index value length = some filled ∧ filled.size = v.size ∧
      (∀ e : ℤ, ¬ ((index : ℤ) ≤ e ∧ e < (index + length : ℕ)) → filled.data e = v.data e) ∧
      (∃ r, peek reversed filled index length = some r ∧ r.toNat = value.toNat % 2 ^ length) ∧
      ∃ r, peek (!reversed) filled index length = some r ∧
        r = ((value.setWidth length).reverse).setWidth 64 := by
  obtain ⟨filled, hfill, hsize, hwritten, hframe⟩ := fill_spec reversed value hfits
  have hfits' : index + length ≤ filled.size := hsize.symm ▸ hfits
  exact ⟨filled, hfill, hsize, hframe, peek_of_elements hfits' hmax hwritten,
    peek_not_of_elements hfits' hwritten⟩

/-! ## Fields in sequence -/

/-- A field with its value and direction. -/
structure Field where
  reversed : Bool
  value : BitVec 64
  length : ℕ

/-- `writeField` or `writeFieldReversed`. -/
def Field.write (f : Field) (v : BitVector) (writeIndex : ℕ) : Option (BitVector × ℕ) :=
  if f.reversed then v.writeFieldReversed writeIndex f.value f.length
  else v.writeField writeIndex f.value f.length

/-- `readField` or `readFieldReversed`, for a field of this length and direction. -/
def Field.read (f : Field) (v : BitVector) (readIndex : ℕ) : Option (BitVec 64 × ℕ) :=
  if f.reversed then v.readFieldReversed readIndex f.length else v.readField readIndex f.length

/-- Fields written one after the other: the vector and the index afterwards. -/
def writeAll : List Field → BitVector → ℕ → Option (BitVector × ℕ)
  | [], v, writeIndex => some (v, writeIndex)
  | f :: fs, v, writeIndex => do
    let (v, writeIndex) ← f.write v writeIndex
    writeAll fs v writeIndex

/-- Fields read one after the other: the numbers and the index afterwards. -/
def readAll : List Field → BitVector → ℕ → Option (List (BitVec 64) × ℕ)
  | [], _, readIndex => some ([], readIndex)
  | f :: fs, v, readIndex => do
    let (retVal, readIndex) ← f.read v readIndex
    let (rest, readIndex) ← readAll fs v readIndex
    some (retVal :: rest, readIndex)

/-- The number of elements that fields take. -/
def span (fs : List Field) : ℕ := (fs.map Field.length).sum

theorem Field.write_eq (f : Field) (v : BitVector) (index : ℕ) :
    f.write v index =
      (fill f.reversed v index f.value f.length).map fun v => (v, index + f.length) := by
  unfold write fill
  split_ifs <;> rfl

theorem Field.read_eq (f : Field) (v : BitVector) (index : ℕ) :
    f.read v index =
      (peek f.reversed v index f.length).map fun retVal => (retVal, index + f.length) := by
  unfold read peek
  split_ifs <;> rfl

/-- **Fields in sequence** are read back as they were written, and the other elements stay. -/
theorem readAll_writeAll (fs : List Field) :
    ∀ (v : BitVector) (index : ℕ), (∀ f ∈ fs, f.length ≤ 64) → index + span fs ≤ v.size →
      ∃ v', writeAll fs v index = some (v', index + span fs) ∧ v'.size = v.size ∧
        (∀ e : ℤ, ¬ ((index : ℤ) ≤ e ∧ e < (index + span fs : ℕ)) → v'.data e = v.data e) ∧
        ∃ rs, readAll fs v' index = some (rs, index + span fs) ∧
          rs.map BitVec.toNat = fs.map fun f => f.value.toNat % 2 ^ f.length := by
  induction fs with
  | nil => exact fun v index _ _ => ⟨v, rfl, rfl, fun _ _ => rfl, [], rfl, rfl⟩
  | cons f fs ih =>
    intro v index hmax hfits
    have hspan : index + f.length + span fs = index + span (f :: fs) := by
      rw [span, span, List.map_cons, List.sum_cons, add_assoc]
    obtain ⟨filled, hfill, hsize, hwritten, hframe⟩ :=
      fill_spec f.reversed f.value (show index + f.length ≤ v.size by omega)
    obtain ⟨v', hrest, hsize', hframe', rs, hread, hvalues⟩ :=
      ih filled (index + f.length) (fun g hg => hmax g (List.mem_cons_of_mem _ hg)) (by omega)
    rw [hspan] at hrest hframe' hread
    have hwrite : f.write v index = some (filled, index + f.length) := by
      rw [Field.write_eq, hfill, Option.map_some]
    -- the fields behind the first one leave it alone
    have helements : ∀ k < f.length, v'.data (place f.reversed index f.length k) =
        element (f.value.getLsbD k) := by
      intro k hk
      have hmem := place_mem f.reversed index hk
      rw [hframe' _ (by omega), hwritten k hk]
    obtain ⟨r, hpeek, hr⟩ := peek_of_elements (by omega) (hmax f List.mem_cons_self) helements
    refine ⟨v', ?_, hsize'.trans hsize, fun e he => ?_, r :: rs, ?_, ?_⟩
    · rw [writeAll, hwrite]
      exact hrest
    · rw [hframe' e (by omega), hframe e (by omega)]
    · have hfield : f.read v' index = some (r, index + f.length) := by
        rw [Field.read_eq, hpeek, Option.map_some]
      rw [readAll, hfield]
      simp only [Option.bind_eq_bind, Option.bind_some, hread]
    · rw [List.map_cons, List.map_cons, hr, hvalues]

/-- **Field access**: one field in either direction, and fields in sequence. -/
theorem fields_roundtrip (hmax : length ≤ 64) (hfits : index + length ≤ v.size)
    (value : BitVec 64) {fs : List Field} (hfields : ∀ f ∈ fs, f.length ≤ 64)
    (hspan : index + span fs ≤ v.size) :
    (∀ reversed, ∃ filled, fill reversed v index value length = some filled ∧
      filled.size = v.size ∧
      (∀ e : ℤ, ¬ ((index : ℤ) ≤ e ∧ e < (index + length : ℕ)) → filled.data e = v.data e) ∧
      (∃ r, peek reversed filled index length = some r ∧ r.toNat = value.toNat % 2 ^ length) ∧
      ∃ r, peek (!reversed) filled index length = some r ∧
        r = ((value.setWidth length).reverse).setWidth 64) ∧
    ∃ v', writeAll fs v index = some (v', index + span fs) ∧ v'.size = v.size ∧
      (∀ e : ℤ, ¬ ((index : ℤ) ≤ e ∧ e < (index + span fs : ℕ)) → v'.data e = v.data e) ∧
      ∃ rs, readAll fs v' index = some (rs, index + span fs) ∧
        rs.map BitVec.toNat = fs.map fun f => f.value.toNat % 2 ^ f.length :=
  ⟨fun reversed => peek_fill reversed value hfits hmax,
    readAll_writeAll fs v index hfields hspan⟩

/-- A field of four bits in a vector of twelve, and two fields after each other. -/
theorem fields_roundtrip_twelve :
    (∃ filled, fill false ⟨fun _ => 0, 12⟩ 4 0xfa 4 = some filled ∧
      ∃ r, peek false filled 4 4 = some r ∧ r.toNat = 0xa) ∧
    ∃ v', writeAll [⟨false, 0x5, 3⟩, ⟨true, 0x1b, 4⟩] ⟨fun _ => 0, 12⟩ 4 = some (v', 11) ∧
      ∃ rs, readAll [⟨false, 0x5, 3⟩, ⟨true, 0x1b, 4⟩] v' 4 = some (rs, 11) ∧
        rs.map BitVec.toNat = [0x5, 0xb] := by
  obtain ⟨hone, v', hwrite, -, -, hread⟩ := fields_roundtrip (v := ⟨fun _ => 0, 12⟩)
    (show 4 ≤ 64 by decide) (show 4 + 4 ≤ 12 by decide) 0xfa
    (show ∀ f ∈ [Field.mk false 0x5 3, Field.mk true 0x1b 4], f.length ≤ 64 by decide)
    (show 4 + 7 ≤ 12 by decide)
  obtain ⟨filled, hfill, -, -, hpeek, -⟩ := hone false
  exact ⟨⟨filled, hfill, hpeek⟩, v', hwrite, hread⟩

end BitVector
end CommonLibs
end OsmoTrx
