import OsmoTrx.CommonLibs.BitVector

/-!
# Packing a bit vector

`pack` and `unpack` of `BitVector.cpp`: eight elements to a byte, the first one most significant,
and the last byte filled up with zeros.  The counters are `unsigned`; `none` is an access outside
of the vector or of the bytes.

* `packLoop_spec`, `unpackLoop_spec` — the whole bytes.
* `unpack_spec`, `pack_spec` — all of a vector of up to 2³² elements.
* `pack_unpack_inverse` — **the two are inverse**, and stay within the bytes and the elements.
* `unpack_wraps`, `pack_wraps` — one element more than 2³² is taken for the first one.
-/

namespace OsmoTrx
namespace CommonLibs
namespace BitVector

/-! ## The code -/

/-- The number of whole bytes, of the elements in them and of the others. -/
def bytes (v : BitVector) : ℕ := v.size / 8 % 2 ^ 32

def whole (v : BitVector) : ℕ := v.bytes * 8 % 2 ^ 32

def rem (v : BitVector) : ℕ := (v.size - v.whole) % 2 ^ 32

/-- `targ[i] = b`. -/
def setByte (targ : List (BitVec 8)) (i : ℕ) (b : BitVec 8) : Option (List (BitVec 8)) :=
  if i < targ.length then some (targ.set i b) else none

def packTurn (v : BitVector) (targ : List (BitVec 8)) (i : ℕ) : Option (List (BitVec 8)) := do
  let b ← v.peekField (i * 8 % 2 ^ 32) 8
  setByte targ i (b.setWidth 8)

def pack (v : BitVector) (targ : List (BitVec 8)) : Option (List (BitVec 8)) := do
  let targ ← (List.range v.bytes).foldlM v.packTurn targ
  if v.rem = 0 then some targ
  else
    let b ← v.peekField v.whole v.rem
    setByte targ v.bytes ((b <<< (8 - v.rem)).setWidth 8)

def unpackTurn (src : List (BitVec 8)) (v : BitVector) (i : ℕ) : Option BitVector := do
  let b ← src[i]?
  v.fillField (i * 8 % 2 ^ 32) (b.setWidth 64) 8

def unpack (v : BitVector) (src : List (BitVec 8)) : Option BitVector := do
  let filled ← (List.range v.bytes).foldlM (unpackTurn src) v
  if v.rem = 0 then some filled
  else
    let b ← src[v.bytes]?
    filled.fillField v.whole ((b >>> (8 - v.rem)).setWidth 64) v.rem

/-! ## Whole bytes -/

/-- Bit `k` of some bytes, the most significant one of each byte first. -/
def byteBit (src : List (BitVec 8)) (k : ℕ) : Bool := (src.getD (k / 8) 0).getLsbD (7 - k % 8)

variable {v : BitVector} {src targ : List (BitVec 8)} {m : ℕ}

theorem byteBit_set (b : BitVec 8) {i : ℕ} (hi : i < targ.length) (k : ℕ) :
    byteBit (targ.set i b) k = if k / 8 = i then b.getLsbD (7 - k % 8) else byteBit targ k := by
  unfold byteBit
  split_ifs with hk
  · rw [hk, List.getD_eq_getElem?_getD, List.getElem?_set_self hi]
    rfl
  · rw [List.getD_eq_getElem?_getD, List.getElem?_set_ne (Ne.symm hk), ← List.getD_eq_getElem?_getD]

/-- The first `m` bytes hold the bits, and the other bytes are what they were. -/
structure Packed (v : BitVector) (targ : List (BitVec 8)) (m : ℕ) (out : List (BitVec 8)) :
    Prop where
  length : out.length = targ.length
  bits : ∀ k < 8 * m, byteBit out k = (decide (k < v.size) && v.bit k)
  others : ∀ j, m ≤ j → out[j]? = targ[j]?

/-- One more byte. -/
theorem Packed.set {out : List (BitVec 8)} (h : Packed v targ m out) (hm : m < targ.length)
    {b : BitVec 8}
    (hb : ∀ j < 8, b.getLsbD (7 - j) = (decide (8 * m + j < v.size) && v.bit (8 * m + j : ℕ))) :
    ∃ out', setByte out m b = some out' ∧ Packed v targ (m + 1) out' := by
  have hm' : m < out.length := h.length.symm ▸ hm
  refine ⟨_, if_pos hm', by rw [List.length_set, h.length], fun k hk => ?_, fun j hj => ?_⟩
  · rw [byteBit_set b hm']
    split_ifs with hkm
    · rw [hb (k % 8) (by omega), show 8 * m + k % 8 = k by omega]
    · exact h.bits k (by omega)
  · rw [List.getElem?_set_ne (by omega), h.others j (by omega)]

theorem getElem?_eq_getD {i : ℕ} (hi : i < src.length) : src[i]? = some (src.getD i 0) := by
  rw [List.getD_eq_getElem?_getD, List.getElem?_eq_getElem hi, Option.getD_some]

theorem bytes_le (v : BitVector) : 8 * v.bytes ≤ v.size := by
  have hle : v.bytes ≤ v.size / 8 := Nat.mod_le _ _
  omega

/-- A field of up to eight elements moved to the top of a byte. -/
theorem byte_of_field {r : BitVec 64} {start n : ℕ} (hn : n ≤ 8)
    (hend : ∀ j < 8, j < n ↔ start + j < v.size)
    (hbits : ∀ k < 64, r.getLsbD k = (decide (k < n) && v.bit (place false start n k))) :
    ∀ j < 8, ((r <<< (8 - n)).setWidth 8).getLsbD (7 - j) =
      (decide (start + j < v.size) && v.bit (start + j : ℕ)) := by
  intro j hj
  rw [BitVec.getLsbD_setWidth, BitVec.getLsbD_shiftLeft, hbits _ (by omega)]
  by_cases hjn : j < n
  · have hplace : place false start n (7 - j - (8 - n)) = (start + j : ℕ) := by
      simp only [place, Bool.false_eq_true, if_false]
      omega
    rw [hplace]
    simp [show 7 - j < 8 by omega, show 7 - j < 64 by omega, show ¬ 7 - j < 8 - n by omega,
      show 7 - j - (8 - n) < n by omega, (hend j hj).mp hjn]
  · have hout : ¬ start + j < v.size := fun h => hjn ((hend j hj).mpr h)
    simp [show 7 - j < 8 - n by omega, hout]

/-- **The loop of `pack`.** -/
theorem packLoop_spec (hm : m ≤ 2 ^ 29) (hfits : 8 * m ≤ v.size) (htarg : m ≤ targ.length) :
    ∃ out, (List.range m).foldlM v.packTurn targ = some out ∧ Packed v targ m out := by
  refine Loop.foldlM_range (P := Packed v targ)
    ⟨rfl, fun k hk => absurd hk (Nat.not_lt_zero k), fun _ _ => rfl⟩ fun i hi out hout => ?_
  have hindex : i * 8 % 2 ^ 32 = 8 * i := by omega
  obtain ⟨r, hpeek, hbits⟩ := peek_spec false (show 8 * i + 8 ≤ v.size by omega)
  have hbyte := byte_of_field le_rfl (fun j hj => iff_of_true hj (by omega)) hbits
  rw [Nat.sub_self, BitVec.shiftLeft_zero] at hbyte
  obtain ⟨out', hset, hout'⟩ := hout.set (by omega) hbyte
  refine ⟨out', ?_, hout'⟩
  rw [packTurn, hindex, show v.peekField (8 * i) 8 = some r from hpeek]
  exact hset

/-- The first `m` elements hold the bits of the bytes, and the other elements are what they were. -/
structure Unpacked (v : BitVector) (src : List (BitVec 8)) (m : ℕ) (filled : BitVector) :
    Prop where
  size : filled.size = v.size
  bits : ∀ k : ℕ, k < m → filled.data k = element (byteBit src k)
  others : ∀ e : ℤ, ¬ (0 ≤ e ∧ e < m) → filled.data e = v.data e

/-- One more field. -/
theorem Unpacked.fill {filled : BitVector} (h : Unpacked v src m filled) {length : ℕ}
    (hfits : m + length ≤ v.size) {value : BitVec 64}
    (hvalue : ∀ j < length, value.getLsbD (length - 1 - j) = byteBit src (m + j)) :
    ∃ filled', filled.fillField m value length = some filled' ∧
      Unpacked v src (m + length) filled' := by
  obtain ⟨filled', hfill, hsize, hwritten, hframe⟩ := fill_spec false value
    (show m + length ≤ filled.size from h.size.symm ▸ hfits)
  refine ⟨filled', hfill, hsize.trans h.size, fun k hk => ?_, fun e he => ?_⟩
  · by_cases hkm : k < m
    · rw [hframe k (by omega), h.bits k hkm]
    · have hplace : place false m length (length - 1 - (k - m)) = k := by
        simp only [place, Bool.false_eq_true, if_false]
        omega
      rw [← hplace, hwritten _ (by omega), hvalue _ (by omega), show m + (k - m) = k by omega]
  · rw [hframe e (by omega), h.others e (by omega)]

/-- **The loop of `unpack`.** -/
theorem unpackLoop_spec (hm : m ≤ 2 ^ 29) (hfits : 8 * m ≤ v.size) (hsrc : m ≤ src.length) :
    ∃ filled, (List.range m).foldlM (unpackTurn src) v = some filled ∧
      Unpacked v src (8 * m) filled := by
  refine Loop.foldlM_range (P := fun i => Unpacked v src (8 * i))
    ⟨rfl, fun k hk => absurd hk (Nat.not_lt_zero k), fun _ _ => rfl⟩ fun i hi filled hfilled => ?_
  have hindex : i * 8 % 2 ^ 32 = 8 * i := by omega
  have hbyte : ∀ j < 8, ((src.getD i 0).setWidth 64).getLsbD (8 - 1 - j) =
      byteBit src (8 * i + j) := by
    intro j hj
    rw [BitVec.getLsbD_setWidth, byteBit, show (8 * i + j) / 8 = i by omega,
      show (8 * i + j) % 8 = j by omega]
    simp [show 8 - 1 - j < 64 by omega]
  obtain ⟨filled', hfill, hfilled'⟩ := hfilled.fill (show 8 * i + 8 ≤ v.size by omega) hbyte
  refine ⟨filled', ?_, hfilled'⟩
  rw [unpackTurn, getElem?_eq_getD (by omega), hindex]
  exact hfill

/-! ## All of a vector -/

/-- `pack` and `unpack` behind their loops. -/
theorem pack_eq (v : BitVector) (hm : v.bytes ≤ 2 ^ 29) (htarg : v.bytes ≤ targ.length) :
    ∃ out, Packed v targ v.bytes out ∧ v.pack targ =
      if v.rem = 0 then some out
      else (v.peekField v.whole v.rem).bind fun b =>
        setByte out v.bytes ((b <<< (8 - v.rem)).setWidth 8) := by
  obtain ⟨out, hloop, hout⟩ := packLoop_spec hm v.bytes_le htarg
  refine ⟨out, hout, ?_⟩
  rw [pack, hloop]
  rfl

theorem unpack_eq (v : BitVector) (hm : v.bytes ≤ 2 ^ 29) (hsrc : v.bytes ≤ src.length) :
    ∃ filled, Unpacked v src (8 * v.bytes) filled ∧ v.unpack src =
      if v.rem = 0 then some filled
      else src[v.bytes]?.bind fun b =>
        filled.fillField v.whole ((b >>> (8 - v.rem)).setWidth 64) v.rem := by
  obtain ⟨filled, hloop, hfilled⟩ := unpackLoop_spec hm v.bytes_le hsrc
  refine ⟨filled, hfilled, ?_⟩
  rw [unpack, hloop]
  rfl

/-- The number of bytes that the elements take. -/
def packedBytes (v : BitVector) : ℕ := (v.size + 7) / 8

section Fits

variable (hsize : v.size ≤ 2 ^ 32)
include hsize

/-- Up to 2³² elements the counters are exact. -/
theorem counters : v.bytes = v.size / 8 ∧ v.rem = v.size % 8 ∧
    (v.rem ≠ 0 → v.whole = 8 * v.bytes ∧ v.packedBytes = v.bytes + 1) ∧
    (v.rem = 0 → v.size = 8 * v.bytes ∧ v.packedBytes = v.bytes) := by
  have hbytes : v.bytes = v.size / 8 := Nat.mod_eq_of_lt (by omega)
  have hrem : v.rem = v.size % 8 := by
    unfold rem whole
    rw [hbytes]
    omega
  unfold whole packedBytes
  omega

/-- **`pack`** writes the bits and fills the last byte up. -/
theorem pack_spec (htarg : v.packedBytes ≤ targ.length) :
    ∃ out, v.pack targ = some out ∧ Packed v targ v.packedBytes out := by
  obtain ⟨hbytes, hrem, hpart, hwhole⟩ := counters hsize
  have hle : v.bytes ≤ v.packedBytes := by
    unfold packedBytes
    omega
  obtain ⟨out, hout, hpack⟩ := pack_eq v (by omega) (hle.trans htarg)
  rw [hpack]
  by_cases h : v.rem = 0
  · rw [if_pos h, (hwhole h).2]
    exact ⟨out, rfl, hout⟩
  · obtain ⟨hstart, hceil⟩ := hpart h
    rw [if_neg h, hceil, hstart]
    obtain ⟨r, hpeek, hbits⟩ := peek_spec false (show 8 * v.bytes + v.rem ≤ v.size by omega)
    have hbyte := byte_of_field (show v.rem ≤ 8 by omega) (fun j _ => by omega) hbits
    obtain ⟨out', hset, hout'⟩ := hout.set (by omega) hbyte
    rw [show v.peekField (8 * v.bytes) v.rem = some r from hpeek]
    exact ⟨out', hset, hout'⟩

/-- **`unpack`** writes the elements, and reads no more bytes than they take. -/
theorem unpack_spec (hsrc : v.packedBytes ≤ src.length) :
    ∃ filled, v.unpack src = some filled ∧ Unpacked v src v.size filled := by
  obtain ⟨hbytes, hrem, hpart, hwhole⟩ := counters hsize
  have hle : v.bytes ≤ v.packedBytes := by
    unfold packedBytes
    omega
  obtain ⟨filled, hfilled, hunpack⟩ := unpack_eq v (by omega) (hle.trans hsrc)
  rw [hunpack]
  by_cases h : v.rem = 0
  · rw [if_pos h, (hwhole h).1]
    exact ⟨filled, rfl, hfilled⟩
  · obtain ⟨hstart, hceil⟩ := hpart h
    rw [if_neg h, getElem?_eq_getD (by omega), hstart, Option.bind_some]
    have hvalue : ∀ j < v.rem,
        ((src.getD v.bytes 0 >>> (8 - v.rem)).setWidth 64).getLsbD (v.rem - 1 - j) =
          byteBit src (8 * v.bytes + j) := by
      intro j hj
      rw [BitVec.getLsbD_setWidth, BitVec.getLsbD_ushiftRight, byteBit,
        show (8 * v.bytes + j) / 8 = v.bytes by omega, show (8 * v.bytes + j) % 8 = j by omega,
        show 8 - v.rem + (v.rem - 1 - j) = 7 - j by omega]
      simp [show v.rem - 1 - j < 64 by omega]
    have hend : 8 * v.bytes + v.rem = v.size := by omega
    have hfill := hfilled.fill hend.le hvalue
    rwa [hend] at hfill

end Fits

theorem Unpacked.unique {src' : List (BitVec 8)} {filled filled' : BitVector}
    (h : Unpacked v src m filled) (h' : Unpacked v src' m filled')
    (hbits : ∀ k < m, byteBit src k = byteBit src' k) : filled = filled' := by
  have hdata : filled.data = filled'.data := by
    funext e
    by_cases he : 0 ≤ e ∧ e < m
    · obtain ⟨k, rfl⟩ := Int.eq_ofNat_of_zero_le he.1
      rw [h.bits k (by omega), h'.bits k (by omega), hbits k (by omega)]
    · rw [h.others e he, h'.others e he]
  obtain ⟨data, size⟩ := filled
  obtain ⟨data', size'⟩ := filled'
  simp only at hdata
  rw [hdata, show size = size' from h.size.trans h'.size.symm]

theorem byteBit_take {c k : ℕ} (h : k < 8 * c) : byteBit (src.take c) k = byteBit src k := by
  unfold byteBit
  rw [List.getD_eq_getElem?_getD, List.getElem?_take, if_pos (by omega),
    ← List.getD_eq_getElem?_getD]

/-- **Packing and unpacking are inverse** up to 2³² elements: bytes come back with zeros behind the
bits, elements come back as their bits, and neither the bytes behind nor the other elements play a
part. -/
theorem pack_unpack_inverse (hsize : v.size ≤ 2 ^ 32) (hsrc : v.packedBytes ≤ src.length)
    (htarg : v.packedBytes ≤ targ.length) :
    (∃ v' out, v.unpack src = some v' ∧ v'.pack targ = some out ∧ out.length = targ.length ∧
      (∀ k < 8 * v.packedBytes, byteBit out k = (decide (k < v.size) && byteBit src k)) ∧
      ∀ j, v.packedBytes ≤ j → out[j]? = targ[j]?) ∧
    (∀ w : BitVector, w.size = v.size → ∃ out w', v.pack targ = some out ∧
      w.unpack out = some w' ∧ ∀ k < v.size, w'.data k = element (v.bit k)) ∧
    ∃ v', v.unpack src = some v' ∧ v.unpack (src.take v.packedBytes) = some v' ∧
      v'.size = v.size ∧ ∀ e : ℤ, ¬ (0 ≤ e ∧ e < v.size) → v'.data e = v.data e := by
  have hceil : v.size ≤ 8 * v.packedBytes := by
    unfold packedBytes
    omega
  obtain ⟨v', hunpack, hfilled⟩ := unpack_spec hsize hsrc
  obtain ⟨v'', hunpack', hfilled'⟩ := unpack_spec hsize (List.length_take_of_le hsrc).ge
  have hsame : v' = v'' := hfilled.unique hfilled' fun k hk => (byteBit_take (by omega)).symm
  have hbytes' : v'.packedBytes = v.packedBytes := by rw [packedBytes, hfilled.size, packedBytes]
  refine ⟨?_, fun w hw => ?_, v', hunpack, hsame ▸ hunpack', hfilled.size, hfilled.others⟩
  · obtain ⟨out, hpack, hout⟩ := pack_spec (hfilled.size.le.trans hsize) (hbytes'.le.trans htarg)
    rw [hbytes'] at hout
    refine ⟨v', out, hunpack, hpack, hout.length, fun k hk => ?_, hout.others⟩
    rw [hout.bits k hk, hfilled.size]
    by_cases hkv : k < v.size
    · rw [bit, hfilled.bits k hkv, getLsbD_element]
    · simp [hkv]
  · obtain ⟨out, hpack, hout⟩ := pack_spec hsize htarg
    have hbytes : w.packedBytes = v.packedBytes := by rw [packedBytes, hw, packedBytes]
    obtain ⟨w', hunpack'', hfilled''⟩ := unpack_spec (hw.le.trans hsize)
      (hbytes.le.trans (htarg.trans hout.length.ge))
    refine ⟨out, w', hpack, hunpack'', fun k hk => ?_⟩
    rw [hfilled''.bits k (by omega), hout.bits k (by omega)]
    simp [hk]

/-- Seventy elements and nine bytes. -/
theorem pack_unpack_seventy :
    ∃ v' out, unpack ⟨fun _ => 0, 70⟩ (List.replicate 9 0xa5) = some v' ∧
      v'.pack (List.replicate 9 0) = some out ∧ out.length = 9 ∧
      ∀ k < 72, byteBit out k = (decide (k < 70) && byteBit (List.replicate 9 0xa5) k) := by
  obtain ⟨⟨v', out, hunpack, hpack, hlength, hbits, -⟩, -⟩ :=
    pack_unpack_inverse (v := ⟨fun _ => 0, 70⟩) (show 70 ≤ 2 ^ 32 by decide)
      (show 9 ≤ (List.replicate 9 0xa5#8).length by decide)
      (show 9 ≤ (List.replicate 9 0#8).length by decide)
  exact ⟨v', out, hunpack, hpack, hlength, hbits⟩

/-! ## Beyond 2³² elements -/

theorem counters_wrap (hsize : v.size = 2 ^ 32 + 1) :
    v.bytes = 2 ^ 29 ∧ v.whole = 0 ∧ v.rem = 1 := by
  have hbytes : v.bytes = 2 ^ 29 := by rw [bytes, hsize]; norm_num
  have hwhole : v.whole = 0 := by rw [whole, hbytes]; norm_num
  exact ⟨hbytes, hwhole, by rw [rem, hwhole, hsize]; norm_num⟩

/-- **With one element more** the last bit is the first element. -/
theorem unpack_wraps (hsize : v.size = 2 ^ 32 + 1) (hsrc : src.length = 2 ^ 29 + 1) :
    ∃ v', v.unpack src = some v' ∧ v'.size = v.size ∧ v'.bit 0 = byteBit src (2 ^ 32) := by
  obtain ⟨hbytes, hwhole, hrem⟩ := counters_wrap hsize
  obtain ⟨filled, hfilled, hunpack⟩ := unpack_eq v hbytes.le (show v.bytes ≤ src.length by omega)
  rw [hrem, if_neg one_ne_zero, hbytes, getElem?_eq_getD (by omega), hwhole,
    Option.bind_some] at hunpack
  obtain ⟨v', hfill, hsize', hwritten, -⟩ := fill_spec false
    ((src.getD (2 ^ 29) 0 >>> (8 - 1)).setWidth 64)
    (show 0 + 1 ≤ filled.size by rw [hfilled.size]; omega)
  refine ⟨v', hunpack.trans hfill, hsize'.trans hfilled.size, ?_⟩
  have hfirst := hwritten 0 one_pos
  rw [show place false 0 1 0 = 0 by rfl] at hfirst
  rw [bit, hfirst, getLsbD_element, BitVec.getLsbD_setWidth, BitVec.getLsbD_ushiftRight, byteBit]
  norm_num

theorem pack_wraps (hsize : v.size = 2 ^ 32 + 1) (htarg : targ.length = 2 ^ 29 + 1) :
    ∃ out, v.pack targ = some out ∧ byteBit out 0 = v.bit 0 := by
  obtain ⟨hbytes, hwhole, hrem⟩ := counters_wrap hsize
  obtain ⟨out, hout, hpack⟩ := pack_eq v hbytes.le (show v.bytes ≤ targ.length by omega)
  obtain ⟨r, hpeek, -⟩ := peek_spec false (show 0 + 1 ≤ v.size by omega)
  have hpeek' : v.peekField 0 1 = some r := hpeek
  have hlast : v.bytes < out.length := by rw [hout.length]; omega
  rw [hrem, if_neg one_ne_zero, hwhole, hpeek', Option.bind_some, setByte, if_pos hlast] at hpack
  refine ⟨_, hpack, ?_⟩
  rw [byteBit_set _ hlast, if_neg (by omega), hout.bits 0 (by omega)]
  simp [hsize]

/-- A first byte of `0x80` and zeros behind it come back as zeros. -/
theorem pack_unpack_lost :
    byteBit (0x80 :: List.replicate (2 ^ 29) 0) 0 = true ∧
      ∃ v' out, unpack ⟨fun _ => 0, 2 ^ 32 + 1⟩ (0x80 :: List.replicate (2 ^ 29) 0) = some v' ∧
        v'.pack (List.replicate (2 ^ 29 + 1) 0) = some out ∧ byteBit out 0 = false := by
  obtain ⟨v', hunpack, hsize, hbit⟩ := unpack_wraps (v := ⟨fun _ => 0, 2 ^ 32 + 1⟩) rfl
    (show (0x80 :: List.replicate (2 ^ 29) 0).length = 2 ^ 29 + 1 by
      rw [List.length_cons, List.length_replicate])
  obtain ⟨out, hpack, hbit'⟩ := pack_wraps hsize
    (show (List.replicate (2 ^ 29 + 1) 0#8).length = 2 ^ 29 + 1 from List.length_replicate)
  refine ⟨rfl, v', out, hunpack, hpack, ?_⟩
  rw [hbit', hbit, byteBit, show 2 ^ 32 / 8 = (2 ^ 29 - 1) + 1 by norm_num, List.getD_cons_succ,
    List.getD_eq_getElem?_getD, List.getElem?_replicate, if_pos (by norm_num)]
  rfl

end BitVector
end CommonLibs
end OsmoTrx
