import OsmoTrx.Lib.EightPhases
import OsmoTrx.Trx.Detection

/-!
# Demodulation

The last part of `sigProcLib.cpp`: a burst is moved back by its time of arrival, divided by its
gain, rotated back and turned into soft bits.  `none` is a null pointer that is followed or a read
outside of a table, `some none` is NULL.

* `demodCommon`, `demodGmskBurst`, `demodEdgeBurst`, `softSliceEdgeBurst`, `demodAnyBurst` — the
  functions.
* `demodAnyBurst_gmsk` — **GMSK comes back**: a burst that has been rotated without a pulse, with any
  gain and any whole delay, gives its bits, if the error of each sample is smaller than the gain.
* `softSliceEdgeBurst_nearest` — **8-PSK decides for the nearest symbol**.
* `demodAnyBurst_edge` — **the bits of 8-PSK come back**, if the equaliser leaves an error that is
  smaller than half the distance of two symbols.
-/

namespace OsmoTrx
namespace Trx

open Dsp GSM SignalVector

variable {K : Type} [Field K] [LinearOrder K]

/-! ## The code -/

/-- `rotateBurst2`, with the rotation for its phase. -/
def rotateBurst2 (burst : SignalVector K) (rot : K × K) : SignalVector K :=
  { burst with
    data := Loop.upTo burst.size (fun k data =>
      Loop.storePair data (2 * k) (cmul (Loop.loadPair data (2 * k)) rot)) burst.data }

/-- The samples folded into the first quadrant. -/
def foldQuadrant (burst : SignalVector K) : SignalVector K :=
  { burst with
    data := Loop.upTo burst.size (fun k data =>
      let s := Loop.loadPair data (2 * k)
      Loop.storePair data (2 * k) (|s.1|, |s.2|)) burst.data }

/-- `signalToSoftVector`: the real parts. -/
def signalToSoftVector (dec : SignalVector K) : List K :=
  (List.range dec.size).map fun (i : ℕ) => (dec.sample i).1

namespace Receiver

variable (s : Receiver K)

/-- `GMSKReverseRotate`: the loop reads as many entries of a table as the vector has samples. -/
def GMSKReverseRotate (x : SignalVector K) (sps : ℕ) : Option (Bool × SignalVector K) :=
  if sps = 1 ∨ sps = 4 then
    let len := if sps = 1 then s.GMSKRotation1Len else s.GMSKRotation4Len
    let table := if sps = 1 then s.GMSKReverseRotation1 else s.GMSKReverseRotation4
    if x.size ≤ len then
      some (true,
        { x with
          data := Loop.upTo x.size (fun k data =>
            let rot := Loop.loadPair table (2 * k)
            let sample := Loop.loadPair data (2 * k)
            Loop.storePair data (2 * k) (if x.real then (rot.1 * sample.1, rot.2 * sample.1)
              else cmul rot sample)) x.data })
    else none
  else some (false, x)

/-- `derotateEdgeBurst`; the phases repeat after 16 symbols. -/
def derotateEdgeBurst (symbols : SignalVector K) (sps : ℕ) : Option (SignalVector K) :=
  if symbols.size % sps ≠ 0 then none
  else
    let burst : SignalVector K := .new (symbols.size / sps)
    some { burst with
      data := Loop.upTo burst.size (fun i data =>
        Loop.storePair data (2 * i)
          (cmul (symbols.sample (sps * i : ℕ)) (s.edgeDerotation (i % 16)))) burst.data }

/-- `softSliceEdgeBurst`: the first two bits of a symbol after a rotation by an eighth, the third one
in the first quadrant after a rotation by a quarter of π. -/
def softSliceEdgeBurst (burst : SignalVector K) : Option (List K) :=
  let nsyms := 148
  if burst.size < nsyms then none
  else
    let first := rotateBurst2 burst s.rotation8
    let third := rotateBurst2 (foldQuadrant first) s.rotation4
    some ((List.range (nsyms * 3)).map fun (j : ℕ) =>
      match j % 3 with
      | 0 => -(first.sample (j / 3 : ℕ)).2
      | 1 => (first.sample (j / 3 : ℕ)).1
      | _ => -(third.sample (j / 3 : ℕ)).2)

/-- `demodCommon`. -/
def demodCommon (burst : SignalVector K) (sps : ℕ) (chan : K × K) (toa : ℚ) :
    Option (Option (SignalVector K)) :=
  if sps ≠ 1 ∧ sps ≠ 4 then some none
  else do
    let delay ← ← delayVector s.cpu s.mem s.delayFilters burst none (roundFloat (-toa * sps))
    let delay := scaleVector delay (cdiv (1, 0) chan)
    if sps = 1 then some (some delay) else s.downsampleBurst delay

/-- `demodGmskBurst`. -/
def demodGmskBurst (rxBurst : SignalVector K) (sps : ℕ) (channel : K × K) (TOA : ℚ) :
    Option (Option (List K)) := do
  match ← s.demodCommon rxBurst sps channel TOA with
  | none => some none
  | some dec => do
    let (_, dec) ← s.GMSKReverseRotate dec 1
    some (some (signalToSoftVector dec))

/-- `demodEdgeBurst`. -/
def demodEdgeBurst (burst : SignalVector K) (sps : ℕ) (chan : K × K) (toa : ℚ) :
    Option (Option (List K)) := do
  match ← s.demodCommon burst sps chan toa with
  | none => some none
  | some dec => do
    let eq ← convolve s.cpu s.mem dec s.c0_inv none .NO_DELAY 0 0
    let rot ← s.derotateEdgeBurst eq 1
    some (s.softSliceEdgeBurst rot)

/-- `demodAnyBurst`. -/
def demodAnyBurst (burst : SignalVector K) (sps : ℕ) (amp : K × K) (toa : ℚ) (type : CorrType) :
    Option (Option (List K)) :=
  if type = .EDGE then s.demodEdgeBurst burst sps amp toa
  else s.demodGmskBurst burst sps amp toa

end Receiver

/-! ## Loops over the samples -/

section Samples

omit [Field K] [LinearOrder K] in
/-- The sample after a loop that replaces each sample by a function of it. -/
theorem sample_map (x : SignalVector K) (f : ℕ → K × K → K × K) {i : ℕ} (hi : i < x.size) :
    SignalVector.sample { x with
      data := Loop.upTo x.size (fun k data =>
        Loop.storePair data (2 * k) (f k (Loop.loadPair data (2 * k)))) x.data } i =
      f i (x.sample i) := by
  have hloop : Loop.upTo x.size (fun k data =>
      Loop.storePair data (2 * k) (f k (Loop.loadPair data (2 * k)))) x.data =
      Loop.pairs x.size (fun k => f k (x.sample k)) x.data :=
    Loop.upTo_fill fun k _ m' hm' => by
      rw [hm']
      rfl
  simp only [SignalVector.sample, hloop]
  exact Loop.loadPair_pairs _ _ hi

omit [LinearOrder K] in
theorem sample_scaleVector {x : SignalVector K} (hreal : x.real = false) (scale : K × K) {i : ℕ}
    (hi : i < x.size) : (scaleVector x scale).sample i = cmul (x.sample i) scale := by
  have h := sample_map x (fun _ s => if x.real then (s.1 * scale.1, s.1 * scale.2)
    else cmul s scale) hi
  rw [hreal] at h
  simpa [scaleVector, hreal] using h

omit [LinearOrder K] in
theorem sample_rotateBurst2 (x : SignalVector K) (rot : K × K) {i : ℕ} (hi : i < x.size) :
    (rotateBurst2 x rot).sample i = cmul (x.sample i) rot :=
  sample_map x (fun _ s => cmul s rot) hi

theorem sample_foldQuadrant (x : SignalVector K) {i : ℕ} (hi : i < x.size) :
    (foldQuadrant x).sample i = (|(x.sample i).1|, |(x.sample i).2|) :=
  sample_map x (fun _ s => (|s.1|, |s.2|)) hi

omit [Field K] [LinearOrder K] in
/-- Symbols that are written one after the other. -/
theorem sample_writeSymbols (symbols : List (K × K)) (x y : SignalVector K) (itr itr' : ℕ)
    (h : writeSymbols 1 symbols x itr = some (y, itr')) (i : ℕ) :
    y.sample i = if itr ≤ i then (symbols[i - itr]?).getD (x.sample i) else x.sample i := by
  induction symbols generalizing x itr with
  | nil =>
    rw [writeSymbols, Option.some_inj, Prod.mk.injEq] at h
    rw [← h.1]
    simp
  | cons s symbols ih =>
    rw [writeSymbols] at h
    obtain ⟨z, hz, hrest⟩ := Option.bind_eq_some_iff.mp h
    obtain ⟨-, rfl⟩ := write_eq_some_iff.mp hz
    rw [ih _ _ hrest]
    simp only [SignalVector.sample, Loop.loadPair_storePair_mul]
    rcases lt_trichotomy i itr with hlt | rfl | hgt
    · rw [if_neg (by omega), if_neg (by omega), if_neg (by omega)]
    · simp
    · rw [if_pos (by omega), if_neg (by omega), if_pos hgt.le,
        show i - itr = (i - (itr + 1)) + 1 by omega, List.getElem?_cons_succ]

omit [Field K] [LinearOrder K] in
theorem writeSymbols_keeps {sps : ℕ} (symbols : List (K × K)) (x y : SignalVector K)
    (itr itr' : ℕ) (h : writeSymbols sps symbols x itr = some (y, itr')) :
    y.size = x.size ∧ y.real = x.real := by
  induction symbols generalizing x itr with
  | nil =>
    rw [writeSymbols, Option.some_inj, Prod.mk.injEq] at h
    rw [← h.1]
    exact ⟨rfl, rfl⟩
  | cons s symbols ih =>
    rw [writeSymbols] at h
    obtain ⟨z, hz, hrest⟩ := Option.bind_eq_some_iff.mp h
    obtain ⟨-, rfl⟩ := write_eq_some_iff.mp hz
    exact ih { x with data := Loop.storePair x.data (2 * itr) s } _ hrest

omit [LinearOrder K] in
/-- A rotation of a complex vector at one sample a symbol. -/
theorem GMSKRotate_sample {s : SigProcLib K} {x y : SignalVector K}
    (h : s.GMSKRotate x 1 = some y) (hreal : x.real = false) :
    y.size = x.size ∧ ∀ i < x.size, y.sample i =
      cmul (Loop.loadPair s.GMSKRotation1 (2 * (i : ℕ))) (x.sample (i : ℕ)) := by
  simp only [SigProcLib.GMSKRotate, hreal, Bool.false_eq_true, if_false, if_true] at h
  split_ifs at h
  obtain rfl := Option.some.inj h
  exact ⟨rfl, fun i hi =>
    sample_map x (fun k s' => cmul (Loop.loadPair s.GMSKRotation1 (2 * k)) s') hi⟩

omit [LinearOrder K] in
/-- A pulse of a single one shapes nothing. -/
theorem convolve_empty {sse3 : Bool} {mem : ℤ → K} {x y h : SignalVector K} (hsize : h.size = 1)
    (hfew : x.size ≤ 2 ^ 29) (htap : h.tap 0 = (1, 0))
    (hy : convolve (convolveInit sse3) mem x h none .START_ONLY 0 0 = some y) {i : ℕ}
    (hi : i < x.size) : y.sample i = x.sample i := by
  have hspan : Span.of x h 0 0 .START_ONLY =
      some ⟨h.size - 1, 0, 0, x.size, x.start < h.size - 1⟩ := rfl
  have hfits : FitsInt x h none .START_ONLY 0 0 :=
    .fresh (by omega) (by decide)
  obtain ⟨r, hr, -, hinto⟩ := convolve_within sse3 mem (y := none) (by omega) hfits hspan
    (show 1 ≤ x.size by omega) (fun z hz => by cases hz) (by
      rw [Span.padded_size]
      split_ifs <;> omega)
  rw [hy, Option.some_inj] at hr
  rw [hr, hinto.sample_eq i hi, hsize, Finset.sum_range_one, extended, if_pos (by
    push_cast
    omega)]
  simp [htap, cmul]

end Samples

/-! ## Gains -/

section Gains

omit [LinearOrder K]

theorem norm2_cmul (a b : K × K) : norm2 (cmul a b) = norm2 a * norm2 b := by
  simp only [norm2, cmul]
  ring

theorem cmul_sub (a b c : K × K) : cmul a c - cmul b c = cmul (a - b) c := by
  simp only [cmul, Prod.mk_sub_mk, Prod.fst_sub, Prod.snd_sub, Prod.mk.injEq]
  constructor <;> ring

/-- The gain is divided out. -/
theorem cmul_cdiv {amp : K × K} (h : norm2 amp ≠ 0) (x : K × K) :
    cmul (cmul amp x) (cdiv (1, 0) amp) = x := by
  have hnorm : amp.2 ^ 2 + amp.1 ^ 2 ≠ 0 := by
    rw [norm2, ← sq, ← sq] at h
    exact h
  simp only [cmul, cdiv, Dsp.Complex.div, Dsp.Complex.mul, Dsp.Complex.inv, Dsp.Complex.norm2]
  refine Prod.ext ?_ ?_ <;> simp only <;> field_simp <;> ring

theorem norm2_cdiv {amp : K × K} (h : norm2 amp ≠ 0) : norm2 (cdiv (1, 0) amp) * norm2 amp = 1 := by
  rw [mul_comm, ← norm2_cmul]
  have hone := cmul_cdiv h (1, 0)
  rw [show cmul amp (1, 0) = amp by simp [cmul]] at hone
  rw [hone]
  simp [norm2]

end Gains

/-! ## GMSK -/

section Gmsk

variable (f : FloatValues K) (v : ReceiveValues K) (sse3 : Bool)

/-- The rotations back are the conjugates of the rotations, which have length one. -/
def TurnsBack : Prop :=
  ∀ i < 157, norm2 (Loop.loadPair f.GMSKRotation1 (2 * (i : ℕ))) = 1 ∧
    Loop.loadPair v.GMSKReverseRotation1 (2 * (i : ℕ)) =
      ((Loop.loadPair f.GMSKRotation1 (2 * (i : ℕ))).1,
        -(Loop.loadPair f.GMSKRotation1 (2 * (i : ℕ))).2)

omit [LinearOrder K] in
/-- The samples of a burst that is rotated without a pulse. -/
theorem rotateBurst_sample {bits : List UInt8} (hlow : 1 ≤ bits.length) (hhigh : bits.length ≤ 157)
    {x : SignalVector K}
    (hx : (sigProcLibSetup f (convolveInit sse3)).rotateBurst bits 0 1 = some (some x)) {i : ℕ}
    (hi : i < bits.length) :
    x.sample i = cmul (Loop.loadPair f.GMSKRotation1 (2 * i)) (SigProcLib.symbol bits[i]) := by
  set s := sigProcLibSetup f (convolveInit sse3) with hs
  have hlen : ((1 : ℕ) : ℤ) * (bits.length + 0) = bits.length := by ring
  simp only [SigProcLib.rotateBurst, hlen, if_neg (show ¬ (bits.length : ℤ) < 0 by omega),
    Int.toNat_natCast] at hx
  obtain ⟨⟨w, itr⟩, hw, hx⟩ := Option.bind_eq_some_iff.mp hx
  obtain ⟨r, hr, hx⟩ := Option.bind_eq_some_iff.mp hx
  obtain ⟨hwsize, hwreal⟩ := writeSymbols_keeps _ _ _ _ _ hw
  obtain ⟨hrsize, hrsample⟩ := GMSKRotate_sample hr hwreal
  have hwsize' : w.size = bits.length := hwsize
  have hrsize' : r.size = w.size := hrsize
  have hi' : i < r.size := by omega
  have hshaped := convolve_empty (x := { r with real := false }) (h := s.GSMPulse1.empty) rfl
    (show r.size ≤ 2 ^ 29 by omega) rfl (Option.some.inj hx) hi'
  rw [hshaped]
  refine (hrsample i (by omega)).trans ?_
  rw [sample_writeSymbols _ _ _ _ _ hw, if_pos (Nat.zero_le i), Nat.sub_zero, List.getElem?_map,
    List.getElem?_eq_getElem hi, Option.map_some, Option.getD_some]
  rfl

/-- At one sample a symbol a whole delay and the gain are taken out exactly. -/
theorem demodCommon_whole {d : ℤ} (hd : |d| < 2 ^ 16) {rx : SignalVector K} (hreal : rx.real = false)
    (hsize : 10 ≤ rx.size) (hfew : rx.size ≤ 2 ^ 29) (amp : K × K) :
    ∃ dec, (Receiver.setup f v (convolveInit sse3)).demodCommon rx 1 amp d = some (some dec) ∧
      dec.size = rx.size ∧ dec.real = false ∧
      ∀ i : ℕ, i < rx.size → dec.sample i = cmul (delayed rx (-d) i) (cdiv (1, 0) amp) := by
  set s := Receiver.setup f v (convolveInit sse3) with hs
  rw [abs_lt] at hd
  have hdelay : roundFloat (-(d : ℚ) * (1 : ℕ)) = ((-(512 * d) : ℤ) : ℚ) / 512 := by
    have hround := roundFloat_intCast (n := -d) (by omega)
    push_cast at hround ⊢
    rw [mul_one, hround]
    ring
  obtain ⟨shift, y, hshift, hy, hysize, hyreal, hsample⟩ :=
    Receiver.delayVector_place f v sse3 (n := -(512 * d)) (by omega) hsize hfew
  have hmod : (-(512 * d)) % 512 = 0 := by omega
  rw [hmod, if_pos (by norm_num), copy_eq_some (by omega), Option.some_inj] at hshift
  have hyreal' : y.real = false := by
    rw [hyreal, ← hshift]
    exact hreal
  refine ⟨scaleVector y (cdiv (1, 0) amp), ?_, hysize, hyreal', fun i hi => ?_⟩
  · rw [Receiver.demodCommon, if_neg (by norm_num), hdelay, hy]
    rfl
  · have hwhole : -(512 * d) / 512 = -d := by omega
    rw [sample_scaleVector hyreal' _ (by omega), hsample i (by omega) (by omega), hwhole, ← hshift]
    rw [delayed, delayed, show (rx.withRoom rx.start 0).size = rx.size from rfl]
    by_cases hin : 0 ≤ (i : ℤ) - -d ∧ (i : ℤ) - -d < rx.size
    · rw [if_pos hin, if_pos hin, sample_withRoom_of_lt rx _ _ hin.1 hin.2]
    · rw [if_neg hin, if_neg hin]

omit [LinearOrder K] in
/-- The sample that a whole delay moves to a place. -/
theorem delayed_of_mem {rx : SignalVector K} {d i : ℤ} (h0 : 0 ≤ i + d) (h1 : i + d < rx.size) :
    delayed rx (-d) i = rx.sample (i + d) := by
  rw [delayed, sub_neg_eq_add, if_pos ⟨h0, h1⟩]

omit [Field K] [LinearOrder K] in
theorem getElem_signalToSoftVector (dec : SignalVector K) {i : ℕ} (hi : i < dec.size) :
    (signalToSoftVector dec)[i]? = some (dec.sample i).1 := by
  simp [signalToSoftVector, hi]

/-- The soft value of a symbol that has been rotated, from a sample that is closer to it than the
gain, has the sign of the symbol. -/
theorem sign_of_close [IsStrictOrderedRing K] {rot w b : K × K} (hrot : norm2 rot = 1)
    (hb : b = (1, 0) ∨ b = (-1, 0)) (hclose : norm2 (w - cmul rot b) < 1) :
    0 < b.1 * (cmul (rot.1, -rot.2) w).1 := by
  set e := w - cmul rot b with he
  have hw : w = cmul rot b + e := by rw [he]; ring
  have hpart : (cmul (rot.1, -rot.2) w).1 = b.1 + (rot.1 * e.1 + rot.2 * e.2) := by
    have hb2 : b.2 = 0 := by rcases hb with rfl | rfl <;> rfl
    rw [norm2] at hrot
    rw [hw]
    simp only [cmul, Prod.fst_add, Prod.snd_add, hb2]
    linear_combination b.1 * hrot
  -- the error in the direction of the symbol is not greater than the error
  have hcauchy : (rot.1 * e.1 + rot.2 * e.2) * (rot.1 * e.1 + rot.2 * e.2) ≤ norm2 e := by
    have hcross := mul_self_nonneg (rot.1 * e.2 - rot.2 * e.1)
    have hprod : norm2 rot * norm2 e = norm2 e := by rw [hrot, one_mul]
    rw [← hprod]
    simp only [norm2]
    linarith
  have hsmall : (rot.1 * e.1 + rot.2 * e.2) ^ 2 < 1 ^ 2 := by
    rw [sq, one_pow]
    exact hcauchy.trans_lt hclose
  obtain ⟨hlow, hhigh⟩ := abs_lt_of_sq_lt_sq' hsmall zero_le_one
  rw [hpart]
  rcases hb with rfl | rfl
  · linarith
  · simp only
    linarith

theorem low_bit_cases (bit : UInt8) : bit &&& 1 = 0 ∨ bit &&& 1 = 1 := by
  have hand := UInt8.toNat_and bit 1
  have hmod := Nat.and_one_is_mod bit.toNat
  rw [← UInt8.toNat_inj, ← UInt8.toNat_inj, hand]
  simp only [UInt8.toNat_one, UInt8.toNat_zero, hmod]
  omega

omit [LinearOrder K] in
/-- The symbol of a bit. -/
theorem symbol_eq (bit : UInt8) :
    SigProcLib.symbol (R := K) bit = (if bit &&& 1 = 1 then 1 else -1, 0) := by
  rcases low_bit_cases bit with h | h
  · rw [SigProcLib.symbol, bipolar, h, if_neg (by decide), UInt8.toNat_zero]
    norm_num
  · rw [SigProcLib.symbol, bipolar, h, if_pos rfl, UInt8.toNat_one]
    norm_num

/-- **GMSK comes back.**  Bits are rotated without a pulse, and arrive with any gain and any whole
delay; if every sample is closer to its symbol than the gain, the demodulator, given this gain and
delay, returns soft bits that all speak for the bits. -/
theorem demodAnyBurst_gmsk [IsStrictOrderedRing K] (hback : TurnsBack f v) {bits : List UInt8}
    (hlow : 1 ≤ bits.length) (hhigh : bits.length ≤ 157) {x : SignalVector K}
    (hx : (sigProcLibSetup f (convolveInit sse3)).modulateBurst bits 0 1 true = some (some x))
    {rx : SignalVector K} (hreal : rx.real = false) (hmin : 10 ≤ rx.size) (hmax : rx.size ≤ 157)
    {d : ℤ} (hd : |d| < 2 ^ 16) {amp : K × K} (hamp : norm2 amp ≠ 0) {type : CorrType}
    (htype : type ≠ .EDGE)
    (hrx : ∀ i : ℕ, i < bits.length → i < rx.size ∧ 0 ≤ i + d ∧ i + d < rx.size ∧
      norm2 (rx.sample (i + d) - cmul amp (x.sample i)) < norm2 amp) :
    ∃ soft, (Receiver.setup f v (convolveInit sse3)).demodAnyBurst rx 1 amp d type =
        some (some soft) ∧ soft.length = rx.size ∧
      ∀ i (hi : i < bits.length), ∃ w, soft[i]? = some w ∧
        EightPhases.Speaks (decide (bits[i] &&& 1 = 1)) w := by
  set s := Receiver.setup f v (convolveInit sse3) with hs
  obtain ⟨dec, hdec, hsize, hdreal, hsample⟩ := demodCommon_whole f v sse3 hd hreal hmin (hmax.trans (by decide)) amp
  set y : SignalVector K := { dec with
    data := Loop.upTo dec.size (fun k data => Loop.storePair data (2 * k)
      (cmul (Loop.loadPair v.GMSKReverseRotation1 (2 * k)) (Loop.loadPair data (2 * k))))
      dec.data } with hy
  have hrotate : s.GMSKReverseRotate dec 1 = some (true, y) := by
    have hlen : dec.size ≤ s.GMSKRotation1Len := show dec.size ≤ 157 by omega
    simp only [Receiver.GMSKReverseRotate, true_or, if_true, if_pos hlen, hdreal,
      Bool.false_eq_true, if_false, hy]
    rfl
  have hysample {i : ℕ} (hi : i < dec.size) : y.sample i =
      cmul (Loop.loadPair v.GMSKReverseRotation1 (2 * i)) (dec.sample i) :=
    sample_map dec (fun k s' => cmul (Loop.loadPair v.GMSKReverseRotation1 (2 * k)) s') hi
  refine ⟨signalToSoftVector y, ?_, ?_, fun i hi => ?_⟩
  · rw [Receiver.demodAnyBurst, if_neg htype, Receiver.demodGmskBurst, hdec]
    simp only [Option.bind_eq_bind, Option.bind_some, hrotate]
  · simp [signalToSoftVector, hy, hsize]
  · obtain ⟨hirx, h0, h1, hclose⟩ := hrx i hi
    have hidec : i < dec.size := by omega
    refine ⟨_, getElem_signalToSoftVector y hidec, ?_⟩
    obtain ⟨hunit, hconj⟩ := hback i (by omega)
    rw [hysample hidec, hconj]
    rw [SigProcLib.modulateBurst, if_pos rfl] at hx
    have hx' := rotateBurst_sample f sse3 hlow hhigh hx hi
    -- dividing by the gain leaves an error that is smaller than one
    have herror : norm2 (dec.sample i -
        cmul (Loop.loadPair f.GMSKRotation1 (2 * i)) (SigProcLib.symbol bits[i])) < 1 := by
      have hpos : 0 < norm2 amp := lt_of_le_of_ne
        (add_nonneg (mul_self_nonneg _) (mul_self_nonneg _)) hamp.symm
      have hsplit : dec.sample i -
          cmul (Loop.loadPair f.GMSKRotation1 (2 * i)) (SigProcLib.symbol bits[i]) =
          cmul (rx.sample (i + d) - cmul amp (x.sample i)) (cdiv (1, 0) amp) := by
        rw [← cmul_sub, cmul_cdiv hamp, hsample i hirx, delayed_of_mem h0 h1, hx']
      have hinv := norm2_cdiv hamp
      have hinvpos : 0 < norm2 (cdiv (1, 0) amp) :=
        pos_of_mul_pos_left (by rw [hinv]; exact one_pos) hpos.le
      rw [hsplit, norm2_cmul, mul_comm]
      exact (mul_lt_mul_of_pos_left hclose hinvpos).trans_eq hinv
    have hsign := sign_of_close hunit (b := SigProcLib.symbol bits[i]) (by
      rw [symbol_eq]
      split_ifs
      · exact Or.inl rfl
      · exact Or.inr rfl) herror
    rw [symbol_eq] at hsign
    rw [EightPhases.Speaks]
    by_cases hbit : bits[i] &&& 1 = 1
    · simpa [hbit] using hsign
    · simpa [hbit] using hsign

/-- Rotations by a quarter of a turn for each symbol. -/
def quarterTurns : FloatValues ℚ :=
  { noRationals with
    GMSKRotation1 := fun j =>
      if j % 2 = 0 then [1, 0, -1, 0].getD (j / 2 % 4).toNat 0
      else [0, 1, 0, -1].getD (j / 2 % 4).toNat 0 }

/-- The rotations back. -/
def quarterTurnsBack : ReceiveValues ℚ :=
  { noReceiveValues with
    GMSKReverseRotation1 := fun j =>
      if j % 2 = 0 then [1, 0, -1, 0].getD (j / 2 % 4).toNat 0
      else [0, -1, 0, 1].getD (j / 2 % 4).toNat 0 }

theorem turnsBack_quarterTurns : TurnsBack quarterTurns quarterTurnsBack := by
  intro i _
  have heven : (2 * (i : ℤ)) % 2 = 0 := by omega
  have hodd : ¬ (2 * (i : ℤ) + 1) % 2 = 0 := by omega
  have hhalf : 2 * (i : ℤ) / 2 % 4 = ((i % 4 : ℕ) : ℤ) := by omega
  have hhalf' : (2 * (i : ℤ) + 1) / 2 % 4 = ((i % 4 : ℕ) : ℤ) := by omega
  simp only [Loop.loadPair, quarterTurns, quarterTurnsBack, if_pos heven, if_neg hodd, hhalf, hhalf',
    Int.toNat_natCast]
  have hlt : i % 4 < 4 := Nat.mod_lt i (by norm_num)
  interval_cases i % 4 <;> simp [norm2]

/-- Ten bits come back after a quarter of a turn and a gain of two. -/
theorem demodAnyBurst_gmsk_ten :
    ∃ (x : SignalVector ℚ) (soft : List ℚ),
      (sigProcLibSetup quarterTurns (convolveInit true)).modulateBurst
        [1, 0, 1, 1, 0, 0, 1, 0, 1, 1] 0 1 true = some (some x) ∧
      (Receiver.setup quarterTurns quarterTurnsBack (convolveInit true)).demodAnyBurst
        (scaleVector { x with real := false } (0, 2)) 1 (0, 2) ((0 : ℤ) : ℚ) .TSC =
          some (some soft) ∧ soft.length = x.size ∧
      ∀ i (hi : i < 10), ∃ w, soft[i]? = some w ∧ EightPhases.Speaks
        (decide (([1, 0, 1, 1, 0, 0, 1, 0, 1, 1] : List UInt8)[i] &&& 1 = 1)) w := by
  obtain ⟨x, hx, hsize⟩ := SigProcLib.rotateBurst_makes quarterTurns (convolveInit true)
    (show 1 ≤ ([1, 0, 1, 1, 0, 0, 1, 0, 1, 1] : List UInt8).length by decide) (by decide)
  have hsize' : x.size = 10 := hsize
  have hx : (sigProcLibSetup quarterTurns (convolveInit true)).modulateBurst
      [1, 0, 1, 1, 0, 0, 1, 0, 1, 1] 0 1 true = some (some x) := by
    rw [SigProcLib.modulateBurst, if_pos rfl, hx]
  set rx := scaleVector { x with real := false } (0, (2 : ℚ)) with hrx
  have hrxsize : rx.size = 10 := hsize'
  obtain ⟨soft, hsoft, hlen, hspeaks⟩ := demodAnyBurst_gmsk quarterTurns quarterTurnsBack true
    turnsBack_quarterTurns (by decide) (by decide) hx (show rx.real = false from rfl) (by omega)
    (by omega)
    (show |(0 : ℤ)| < 2 ^ 16 by decide) (show norm2 ((0 : ℚ), (2 : ℚ)) ≠ 0 by norm_num [norm2])
    (show CorrType.TSC ≠ .EDGE by decide) (by
      intro i hi
      have hi' : i < 10 := hi
      refine ⟨by omega, by omega, by omega, ?_⟩
      have hsample := sample_scaleVector (x := { x with real := false }) rfl ((0 : ℚ), (2 : ℚ))
        (show i < x.size by omega)
      have hcomm : cmul (x.sample i) ((0 : ℚ), (2 : ℚ)) = cmul (0, 2) (x.sample i) := by
        simp [cmul, mul_comm]
      rw [add_zero, hrx, hsample, show SignalVector.sample { x with real := false } i = x.sample i
        from rfl, hcomm, sub_self]
      norm_num [norm2])
  exact ⟨x, soft, hx, hsoft, by omega, hspeaks⟩

end Gmsk

/-! ## 8-PSK -/

section Edge

open EightPhases

variable (f : FloatValues K) (v : ReceiveValues K) (sse3 : Bool)

/-- The index of a symbol in the table. -/
def psk8Index (b : Bits) : ℕ := b.1.toNat <<< 0 ||| b.2.1.toNat <<< 1 ||| b.2.2.toNat <<< 2

/-- The bits of a symbol of a burst. -/
def psk8Bits (bits : List UInt8) (i : ℕ) : Bits :=
  (decide (bits.getD (3 * i) 0 &&& 1 = 1), decide (bits.getD (3 * i + 1) 0 &&& 1 = 1),
    decide (bits.getD (3 * i + 2) 0 &&& 1 = 1))

/-- The tables of 8-PSK without their rounding: the symbols and the rotations of the slicer for some
angles, and rotations of length one that are turned back by their conjugates. -/
structure ExactEdge (A : Angles K) : Prop where
  symbols : ∀ b, f.psk8_table (psk8Index b) = symbol A b
  rotation8 : v.rotation8 = (A.c, -A.s)
  rotation4 : v.rotation4 = (A.h, -A.h)
  unit : ∀ i < 148, norm2 (f.edgeRotation i) = 1
  back : ∀ i < 148, v.edgeDerotation (i % 16) = ((f.edgeRotation i).1, -(f.edgeRotation i).2)

omit [LinearOrder K] in
theorem toNat_low_bit (bit : UInt8) :
    (bit &&& 1).toNat = (decide (bit &&& 1 = 1)).toNat := by
  rcases low_bit_cases bit with h | h <;> simp [h]

/-- The index that the modulator computes. -/
theorem mapEdgeSymbols_getElem (bits : List UInt8) {i : ℕ} (hi : i < bits.length / 3) :
    (Trx.mapEdgeSymbols bits)[i]? = some (psk8Index (psk8Bits bits i)) := by
  simp only [Trx.mapEdgeSymbols, psk8Index, psk8Bits, toNat_low_bit]
  rw [List.getElem?_map, List.getElem?_range hi]
  rfl

omit [LinearOrder K] in
/-- The samples of a burst that is rotated without a pulse. -/
theorem modulateEdgeBurst_sample {cpu : ConvolveCpuContext K} {bits : List UInt8}
    {x : SignalVector K}
    (hx : (sigProcLibSetup f cpu).modulateEdgeBurst bits 1 true = some (some x)) {i : ℕ}
    (hi : i < bits.length / 3) :
    x.sample i = cmul (f.psk8_table (psk8Index (psk8Bits bits i))) (f.edgeRotation i) := by
  rw [SigProcLib.modulateEdgeBurst, if_neg (by simp), SigProcLib.mapEdgeSymbols] at hx
  by_cases hthree : bits.length % 3 ≠ 0
  · rw [if_pos hthree] at hx
    cases hx
  · simp only [if_neg hthree, if_true, SigProcLib.rotateEdgeBurst, Option.map_map] at hx
    obtain ⟨⟨w, itr⟩, hw, hsome⟩ := Option.map_eq_some_iff.mp hx
    obtain rfl : w = x := Option.some.inj hsome
    rw [sample_writeSymbols _ _ _ _ _ hw, if_pos (Nat.zero_le i), Nat.sub_zero,
      SigProcLib.rotateSymbols, List.getElem?_mapIdx, SigProcLib.psk8Symbols, List.getElem?_map,
      mapEdgeSymbols_getElem bits hi]
    rfl

/-- **The slicer decides for the nearest symbol.**  The three soft bits of each of the 148 symbols
speak for some bits exactly if the symbol of these bits is the nearest. -/
theorem softSliceEdgeBurst_nearest [IsStrictOrderedRing K] {s : Receiver K} {A : Angles K}
    (h8 : s.rotation8 = (A.c, -A.s)) (h4 : s.rotation4 = (A.h, -A.h)) {burst : SignalVector K}
    (hsize : 148 ≤ burst.size) :
    ∃ soft, s.softSliceEdgeBurst burst = some soft ∧ soft.length = 444 ∧
      ∀ i < 148, ∃ w0 w1 w2, soft[3 * i]? = some w0 ∧ soft[3 * i + 1]? = some w1 ∧
        soft[3 * i + 2]? = some w2 ∧
        ∀ b, Decides b (w0, w1, w2) ↔ Nearest A b (burst.sample (i : ℕ)) := by
  set first := rotateBurst2 burst s.rotation8 with hfirst
  set third := rotateBurst2 (foldQuadrant first) s.rotation4 with hthird
  refine ⟨_, if_neg (by omega), by simp, fun i hi => ⟨-(first.sample (i : ℕ)).2,
    (first.sample (i : ℕ)).1, -(third.sample (i : ℕ)).2, ?_, ?_, ?_, fun b => ?_⟩⟩
  · have hdiv : 3 * i / 3 = i := by omega
    have hmod : 3 * i % 3 = 0 := by omega
    rw [List.getElem?_map, List.getElem?_range (by omega), Option.map_some, hmod, hdiv]
    rfl
  · have hdiv : (3 * i + 1) / 3 = i := by omega
    have hmod : (3 * i + 1) % 3 = 1 := by omega
    rw [List.getElem?_map, List.getElem?_range (by omega), Option.map_some, hmod, hdiv]
    rfl
  · have hdiv : (3 * i + 2) / 3 = i := by omega
    have hmod : (3 * i + 2) % 3 = 2 := by omega
    rw [List.getElem?_map, List.getElem?_range (by omega), Option.map_some, hmod, hdiv]
    rfl
  · have hfirst' : first.sample (i : ℕ) = turned A (burst.sample (i : ℕ)) := by
      rw [hfirst, sample_rotateBurst2 burst _ (by omega), h8, turned, cmul]
      refine Prod.ext ?_ ?_ <;> simp only <;> ring
    have hthird' : -(third.sample (i : ℕ)).2 =
        A.h * (|(turned A (burst.sample (i : ℕ))).1| - |(turned A (burst.sample (i : ℕ))).2|) := by
      have hi' : i < (foldQuadrant first).size := show i < burst.size by omega
      rw [hthird, sample_rotateBurst2 _ _ hi', sample_foldQuadrant first hi', hfirst', h4, cmul]
      simp only
      ring
    rw [← slice_iff_nearest, slice, hfirst', hthird']

/-- What the equaliser makes of a burst that is moved back by a whole delay. -/
def equalised (rx : SignalVector K) (d : ℤ) (i : ℕ) : K × K :=
  ∑ k ∈ Finset.range 5,
    cmul (if 0 ≤ (i : ℤ) - 2 + k ∧ (i : ℤ) - 2 + k < rx.size then delayed rx (-d) (i - 2 + k) else 0)
      (invertC0Taps.getD k 0, 0)

/-- The equaliser after the gain has been taken out. -/
theorem convolve_c0_inv {rx dec : SignalVector K} {d : ℤ} {z : K × K} (hsize : dec.size = rx.size)
    (hmin : 5 ≤ rx.size) (hfew : rx.size ≤ 2 ^ 29)
    (hdec : ∀ i : ℕ, i < rx.size → dec.sample i = cmul (delayed rx (-d) i) z) :
    ∃ eq, convolve (convolveInit sse3) f.mem dec (Receiver.setup f v (convolveInit sse3)).c0_inv none
        .NO_DELAY 0 0 = some eq ∧ eq.size = rx.size ∧
      ∀ i < rx.size, eq.sample (i : ℕ) = cmul (equalised rx d i) z := by
  set h := (Receiver.setup f v (convolveInit sse3)).c0_inv with hh
  have hfive : h.size = 5 := rfl
  have hspan : Span.of dec h 0 0 .NO_DELAY = some ⟨2, 2, 2, dec.size, true⟩ := by
    rw [Span.of, hfive]
  have hfits : FitsInt dec h none .NO_DELAY 0 0 :=
    .fresh (by omega) (by decide)
  obtain ⟨r, hr, hrsize, hinto⟩ := convolve_within sse3 f.mem (y := none) (by omega) hfits hspan
    (show 1 ≤ dec.size by omega) (fun z hz => by cases hz) (by
      rw [Span.padded_size]
      simp only [if_true]
      omega)
  have hrsize' : r.size = dec.size := hrsize
  refine ⟨r, hr, by omega, fun i hi => ?_⟩
  have hdist (a b : K × K) : cmul (cmul a z) b = cmul (cmul a b) z := by
    simp only [cmul]
    refine Prod.ext ?_ ?_ <;> simp only <;> ring
  have hsum : cmul (equalised rx d i) z = ∑ k ∈ Finset.range 5, cmul (cmul
      (if 0 ≤ (i : ℤ) - 2 + k ∧ (i : ℤ) - 2 + k < rx.size then delayed rx (-d) (i - 2 + k) else 0)
      (invertC0Taps.getD k 0, 0)) z := by
    simp only [equalised, cmul, Prod.fst_sum, Prod.snd_sum]
    refine Prod.ext ?_ ?_ <;>
      simp only [Prod.fst_sum, Prod.snd_sum, Finset.sum_mul, ← Finset.sum_sub_distrib,
        ← Finset.sum_add_distrib]
  rw [hinto.sample_eq i (by show i < dec.size; omega), hsum, hfive]
  refine Finset.sum_congr rfl fun k hk => ?_
  have htap : h.tap k = (invertC0Taps.getD k 0, 0) := by
    have heven : (2 * (k : ℤ)) % 2 = 0 := by omega
    have hhalf : (2 * (k : ℤ) / 2).toNat = k := by omega
    show ((if (2 * (k : ℤ)) % 2 = 0 then invertC0Taps.getD (2 * (k : ℤ) / 2).toNat 0 else 0), (0 : K))
      = _
    rw [if_pos heven, hhalf]
  have hplace : (i : ℤ) + (2 : ℕ) - ((5 : ℕ) - 1) + k = i - 2 + k := by
    push_cast
    ring
  rw [htap, ← hdist, hplace]
  congr 1
  rw [extended, hsize]
  by_cases hin : 0 ≤ (i : ℤ) - 2 + k ∧ (i : ℤ) - 2 + k < rx.size
  · have hnat : (i : ℤ) - 2 + k = ((i - 2 + k : ℤ).toNat : ℕ) := (Int.toNat_of_nonneg hin.1).symm
    rw [if_pos hin, if_pos hin, hnat, hdec _ (by omega)]
  · rw [if_neg hin, if_neg hin, if_neg (by rintro ⟨h, -⟩; cases h)]
    exact Prod.ext (by simp [cmul]) (by simp [cmul])

omit [LinearOrder K] in
/-- The samples after the rotations back, at one sample a symbol. -/
theorem derotateEdgeBurst_sample (s : Receiver K) (symbols : SignalVector K) :
    ∃ rot, s.derotateEdgeBurst symbols 1 = some rot ∧ rot.size = symbols.size ∧
      ∀ i < symbols.size, rot.sample (i : ℕ) =
        cmul (symbols.sample (i : ℕ)) (s.edgeDerotation (i % 16)) := by
  refine ⟨_, if_neg (by rw [Nat.mod_one]; simp), Nat.div_one _, fun i hi => ?_⟩
  have hloop : Loop.upTo symbols.size (fun i data => Loop.storePair data (2 * i)
      (cmul (symbols.sample (1 * i : ℕ)) (s.edgeDerotation (i % 16))))
      (SignalVector.new (R := K) (symbols.size / 1)).data =
      Loop.pairs symbols.size (fun i => cmul (symbols.sample (1 * i : ℕ)) (s.edgeDerotation (i % 16)))
        (SignalVector.new (R := K) (symbols.size / 1)).data :=
    Loop.upTo_fill fun k _ m' hm' => rfl
  have hsize : (SignalVector.new (R := K) (symbols.size / 1)).size = symbols.size := Nat.div_one _
  rw [SignalVector.sample]
  simp only [hsize]
  rw [hloop, Loop.loadPair_pairs _ _ hi, one_mul]

/-- After the gain and the rotation have been taken out, the error is smaller than the sine. -/
theorem dist2_back [IsStrictOrderedRing K] {amp e rot sym : K × K} {t : K} (hamp : norm2 amp ≠ 0)
    (hrot : norm2 rot = 1) (hclose : norm2 (e - cmul amp (cmul sym rot)) < norm2 amp * (t * t)) :
    dist2 (cmul (cmul e (cdiv (1, 0) amp)) (rot.1, -rot.2)) sym < t * t := by
  have hpos : 0 < norm2 amp := lt_of_le_of_ne
    (add_nonneg (mul_self_nonneg _) (mul_self_nonneg _)) hamp.symm
  have hinv := norm2_cdiv hamp
  have hinvpos : 0 < norm2 (cdiv (1, 0) amp) :=
    pos_of_mul_pos_left (by rw [hinv]; exact one_pos) hpos.le
  have hback : cmul (cmul sym rot) (rot.1, -rot.2) = sym := by
    rw [norm2] at hrot
    refine Prod.ext ?_ ?_ <;> simp only [cmul]
    · linear_combination sym.1 * hrot
    · linear_combination sym.2 * hrot
  have hsplit : cmul (cmul e (cdiv (1, 0) amp)) (rot.1, -rot.2) - sym =
      cmul (cmul (e - cmul amp (cmul sym rot)) (cdiv (1, 0) amp)) (rot.1, -rot.2) := by
    rw [← cmul_sub, ← cmul_sub, cmul_cdiv hamp, hback]
  have hconj : norm2 (rot.1, -rot.2) = 1 := by
    rw [← hrot, norm2, norm2]
    ring
  calc dist2 (cmul (cmul e (cdiv (1, 0) amp)) (rot.1, -rot.2)) sym
      = norm2 (cmul (cmul e (cdiv (1, 0) amp)) (rot.1, -rot.2) - sym) := by
        simp only [dist2, norm2, Prod.fst_sub, Prod.snd_sub]
        ring
    _ = norm2 (e - cmul amp (cmul sym rot)) * norm2 (cdiv (1, 0) amp) := by
        rw [hsplit, norm2_cmul, norm2_cmul, hconj, mul_one]
    _ < norm2 amp * (t * t) * norm2 (cdiv (1, 0) amp) := mul_lt_mul_of_pos_right hclose hinvpos
    _ = t * t := by linear_combination t * t * hinv

/-- **The bits of 8-PSK come back.**  The 148 symbols of 444 bits are rotated without a pulse, and
arrive with any gain and any whole delay; if the equaliser leaves an error that is smaller than the
gain times the sine of an eighth of π, the demodulator, given this gain and delay, returns 444 soft
bits that all speak for the bits. -/
theorem demodAnyBurst_edge [IsStrictOrderedRing K] {A : Angles K} (hexact : ExactEdge f v A)
    {bits : List UInt8} (hbits : bits.length = 444) {x : SignalVector K}
    (hx : (sigProcLibSetup f (convolveInit sse3)).modulateEdgeBurst bits 1 true = some (some x))
    {rx : SignalVector K} (hreal : rx.real = false) (hmin : 148 ≤ rx.size)
    (hfew : rx.size ≤ 2 ^ 29) {d : ℤ} (hd : |d| < 2 ^ 16) {amp : K × K} (hamp : norm2 amp ≠ 0)
    (hrx : ∀ i < 148, norm2 (equalised rx d i - cmul amp (x.sample (i : ℕ))) <
      norm2 amp * (A.s * A.s)) :
    ∃ soft, (Receiver.setup f v (convolveInit sse3)).demodAnyBurst rx 1 amp d .EDGE =
        some (some soft) ∧ soft.length = 444 ∧
      ∀ i (hi : i < bits.length), ∃ w, soft[i]? = some w ∧
        Speaks (decide (bits[i] &&& 1 = 1)) w := by
  set s := Receiver.setup f v (convolveInit sse3) with hs
  obtain ⟨dec, hdec, hsize, -, hsample⟩ := demodCommon_whole f v sse3 hd hreal (by omega) hfew amp
  obtain ⟨eq, heq, heqsize, heqsample⟩ := convolve_c0_inv f v sse3 hsize (by omega) hfew hsample
  obtain ⟨rot, hrot, hrotsize, hrotsample⟩ := derotateEdgeBurst_sample s eq
  obtain ⟨soft, hsoft, hlen, hdecides⟩ := softSliceEdgeBurst_nearest (s := s) (A := A)
    hexact.rotation8 hexact.rotation4 (show 148 ≤ rot.size by omega)
  refine ⟨soft, ?_, hlen, fun j hj => ?_⟩
  · rw [Receiver.demodAnyBurst, if_pos rfl, Receiver.demodEdgeBurst, hdec]
    simp only [Option.bind_eq_bind, Option.bind_some]
    rw [show s.cpu = convolveInit sse3 from rfl, show s.mem = f.mem from rfl, heq,
      Option.bind_some, hrot, Option.bind_some, hsoft]
  · have hnear : ∀ i < 148, Nearest A (psk8Bits bits i) (rot.sample (i : ℕ)) := by
      intro i hi
      have hunit := hexact.unit i hi
      have hxi : x.sample (i : ℕ) = cmul (symbol A (psk8Bits bits i)) (f.edgeRotation i) := by
        rw [modulateEdgeBurst_sample f hx (by omega), hexact.symbols]
      refine nearest_of_close A one_pos ?_
      rw [one_mul, one_mul, one_mul, hrotsample i (by omega),
        show s.edgeDerotation (i % 16) = _ from hexact.back i hi, heqsample i (by omega)]
      exact dist2_back hamp hunit (by rw [← hxi]; exact hrx i hi)
    obtain ⟨i, r, hr, rfl⟩ : ∃ i r, r < 3 ∧ j = 3 * i + r := ⟨j / 3, j % 3, by omega, by omega⟩
    obtain ⟨w0, w1, w2, h0, h1, h2, hiff⟩ := hdecides i (by omega)
    obtain ⟨hb0, hb1, hb2⟩ := (hiff _).mpr (hnear i (by omega))
    rw [psk8Bits] at hb0 hb1 hb2
    have hget : bits.getD (3 * i + r) 0 = bits[3 * i + r] := by
      rw [List.getD_eq_getElem?_getD, List.getElem?_eq_getElem hj, Option.getD_some]
    rw [← hget]
    match r, hr with
    | 0, _ => exact ⟨w0, h0, hb0⟩
    | 1, _ => exact ⟨w1, h1, hb1⟩
    | 2, _ => exact ⟨w2, h2, hb2⟩

/-! ### The rotations of 8-PSK -/

/-- The angles of `rotateEdgeBurst`, and the symbols on the circle. -/
noncomputable def edgeTurns : FloatValues ℝ where
  pulse1_c0 _ := 0
  pulse4_c0 _ := 0
  pulse4_c1 _ := 0
  GMSKRotation1 _ := 0
  GMSKRotation4 _ := 0
  edgeRotation i := (Real.cos (turnAngle i), Real.sin (turnAngle i))
  psk8_table n := symbol realAngles (n.testBit 0, n.testBit 1, n.testBit 2)
  mem _ := 0

/-- The rotations back, and those of the slicer. -/
noncomputable def edgeTurnsBack : ReceiveValues ℝ where
  sinc _ := 0
  sqrt _ := 0
  delayTaps _ _ := 0
  proto _ := 0
  scale := 0
  GMSKReverseRotation1 _ := 0
  GMSKReverseRotation4 _ := 0
  edgeDerotation i := (Real.cos (-turnAngle i), Real.sin (-turnAngle i))
  rotation8 := (realAngles.c, -realAngles.s)
  rotation4 := (realAngles.h, -realAngles.h)

/-- Sixteen symbols are three turns. -/
theorem exactEdge_edgeTurns : ExactEdge edgeTurns edgeTurnsBack realAngles where
  symbols := by
    rintro ⟨_ | _, _ | _, _ | _⟩ <;> rfl
  rotation8 := rfl
  rotation4 := rfl
  unit i _ := by
    have h := Real.cos_sq_add_sin_sq (turnAngle i)
    simp only [edgeTurns, norm2]
    linarith
  back i _ := by
    have hturns : 3 * Real.pi / 8 * (i : ℝ) =
        3 * Real.pi / 8 * (i % 16 : ℕ) + (3 * (i / 16) : ℕ) * (2 * Real.pi) := by
      have hdiv : (i : ℝ) = 16 * (i / 16 : ℕ) + (i % 16 : ℕ) := by
        exact_mod_cast (Nat.div_add_mod i 16).symm
      push_cast at hdiv ⊢
      linear_combination 3 * Real.pi / 8 * hdiv
    simp only [edgeTurns, edgeTurnsBack, turnAngle, Real.cos_neg, Real.sin_neg]
    rw [hturns, Real.cos_add_nat_mul_two_pi, Real.sin_add_nat_mul_two_pi]

/-- The symbols in the order of their angles. -/
def circle : List Bits :=
  [(true, true, true), (false, true, true), (false, true, false), (false, false, false),
    (false, false, true), (true, false, true), (true, false, false), (true, true, false)]

theorem symbol_circle {k : ℕ} (hk : k < 8) :
    symbol realAngles (circle.getD k (true, true, true)) =
      (Real.cos (k * (Real.pi / 4)), Real.sin (k * (Real.pi / 4))) := by
  have h2 : (2 : ℝ) * (Real.pi / 4) = Real.pi / 2 := by ring
  have h3 : (3 : ℝ) * (Real.pi / 4) = Real.pi - Real.pi / 4 := by ring
  have h4 : (4 : ℝ) * (Real.pi / 4) = Real.pi := by ring
  have h5 : (5 : ℝ) * (Real.pi / 4) = Real.pi / 4 + Real.pi := by ring
  have h6 : (6 : ℝ) * (Real.pi / 4) = Real.pi / 2 + Real.pi := by ring
  have h7 : (7 : ℝ) * (Real.pi / 4) = Real.pi - Real.pi / 4 + Real.pi := by ring
  interval_cases k <;>
    simp [circle, symbol, realAngles, h2, h3, h4, h5, h6, h7, Real.cos_pi_sub, Real.sin_pi_sub,
      Real.cos_add_pi, Real.sin_add_pi]

/-- The symbols that the rotations take to two phases in turn. -/
def turn (i : ℕ) : ℕ := if i % 2 = 0 then 5 * (i / 2) % 8 else (5 * (i / 2) + 3) % 8

/-- Bit `r` of symbol `i`. -/
def turningBit (i r : ℕ) : Bool :=
  let b := circle.getD (turn i) (true, true, true)
  [b.1, b.2.1, b.2.2].getD r false

def turningBits : List UInt8 :=
  (List.range 444).map fun (j : ℕ) => if turningBit (j / 3) (j % 3) then 1 else 0

theorem length_turningBits : turningBits.length = 444 := by simp [turningBits]

theorem low_bit_turningBits {i r : ℕ} (hi : i < 148) (hr : r < 3) :
    decide (turningBits.getD (3 * i + r) 0 &&& 1 = 1) = turningBit i r := by
  have hdiv : (3 * i + r) / 3 = i := by omega
  have hmod : (3 * i + r) % 3 = r := by omega
  rw [turningBits, List.getD_eq_getElem?_getD, List.getElem?_map,
    List.getElem?_range (show 3 * i + r < 444 by omega), Option.map_some, Option.getD_some, hdiv,
    hmod]
  cases turningBit i r <;> decide

theorem psk8Bits_turningBits {i : ℕ} (hi : i < 148) :
    psk8Bits turningBits i = circle.getD (turn i) (true, true, true) := by
  rw [psk8Bits, ← Nat.add_zero (3 * i), Nat.add_assoc, Nat.add_assoc,
    low_bit_turningBits hi (by norm_num), low_bit_turningBits hi (by norm_num),
    low_bit_turningBits hi (by norm_num)]
  rfl

/-- The two phases. -/
noncomputable def turningSample (t : ℤ) : ℝ × ℝ :=
  if t % 2 = 0 then (1, 0) else (-realAngles.c, -realAngles.s)

theorem cmul_cos_sin (a b : ℝ) :
    cmul (Real.cos a, Real.sin a) (Real.cos b, Real.sin b) =
      (Real.cos (a + b), Real.sin (a + b)) := by
  rw [cmul, Real.cos_add, Real.sin_add]
  refine Prod.ext rfl ?_
  simp only
  ring

/-- A symbol with its rotation. -/
theorem turn_rotated (i : ℕ) :
    cmul (symbol realAngles (circle.getD (turn i) (true, true, true))) (edgeTurns.edgeRotation i) =
      turningSample i := by
  have hlt : turn i < 8 := by
    unfold turn
    split_ifs <;> exact Nat.mod_lt _ (by norm_num)
  have hrotation : edgeTurns.edgeRotation i =
      (Real.cos (3 * Real.pi / 8 * i), Real.sin (3 * Real.pi / 8 * i)) := rfl
  rw [symbol_circle hlt, hrotation, cmul_cos_sin, turningSample]
  by_cases heven : i % 2 = 0
  · obtain ⟨n, hn⟩ : ∃ n : ℕ, 2 * turn i + 3 * i = 16 * n := by
      refine ⟨i / 2 - 5 * (i / 2) / 8, ?_⟩
      rw [turn, if_pos heven]
      omega
    have hangle : (turn i : ℝ) * (Real.pi / 4) + 3 * Real.pi / 8 * i = 0 + n * (2 * Real.pi) := by
      have hn : (2 : ℝ) * turn i + 3 * i = 16 * n := by exact_mod_cast hn
      linear_combination Real.pi / 8 * hn
    rw [hangle, Real.cos_add_nat_mul_two_pi, Real.sin_add_nat_mul_two_pi, if_pos (by omega)]
    simp
  · obtain ⟨n, hn⟩ : ∃ n : ℕ, 2 * turn i + 3 * i = 16 * n + 9 := by
      refine ⟨i / 2 - (5 * (i / 2) + 3) / 8, ?_⟩
      rw [turn, if_neg heven]
      omega
    have hangle : (turn i : ℝ) * (Real.pi / 4) + 3 * Real.pi / 8 * i =
        Real.pi / 8 + Real.pi + n * (2 * Real.pi) := by
      have hn : (2 : ℝ) * turn i + 3 * i = 16 * n + 9 := by exact_mod_cast hn
      linear_combination Real.pi / 8 * hn
    rw [hangle, Real.cos_add_nat_mul_two_pi, Real.sin_add_nat_mul_two_pi, Real.cos_add_pi,
      Real.sin_add_pi, if_neg (by omega)]
    rfl

theorem sin_sq_lower : (14 / 100 : ℝ) < realAngles.s * realAngles.s := by
  have hsum := realAngles.unit
  have hdiff := realAngles.cos_double
  have hsq := realAngles.h_sq
  have hpos := realAngles.h_pos
  nlinarith

theorem cos_lower : (9 / 10 : ℝ) < realAngles.c := by
  have hsum := realAngles.unit
  have hdiff := realAngles.cos_double
  have hsq := realAngles.h_sq
  have hpos := realAngles.h_pos
  have hh : (7 / 10 : ℝ) < realAngles.h := by nlinarith
  have hc := realAngles.pos.trans realAngles.lt
  nlinarith

/-- A burst of the two phases that starts two samples late. -/
noncomputable def turningBurst : SignalVector ℝ where
  data j := if j % 2 = 0 then (turningSample (j / 2)).1 else (turningSample (j / 2)).2
  size := 150
  start := 0
  real := false
  aligned := false

theorem delayed_turningBurst (t : ℤ) : delayed turningBurst (-2) t =
    if -2 ≤ t ∧ t < 148 then turningSample t else 0 := by
  have heven : 2 * (t + 2) % 2 = 0 := by omega
  have hodd : ¬ (2 * (t + 2) + 1) % 2 = 0 := by omega
  have hhalf : 2 * (t + 2) / 2 = t + 2 := by omega
  have hhalf' : (2 * (t + 2) + 1) / 2 = t + 2 := by omega
  have hparity : turningSample (t + 2) = turningSample t := by
    simp only [turningSample, show (t + 2) % 2 = t % 2 by omega]
  have hsize : (turningBurst.size : ℤ) = 150 := rfl
  rw [delayed, sub_neg_eq_add, hsize]
  by_cases hin : -2 ≤ t ∧ t < 148
  · rw [if_pos hin, if_pos (by omega)]
    simp only [SignalVector.sample, Loop.loadPair, turningBurst, if_pos heven, if_neg hodd, hhalf,
      hhalf', hparity]
  · rw [if_neg hin, if_neg (by omega)]
    rfl

/-- What the equaliser adds up: the taps that meet a sample, for the phase of the sample and for the
other one. -/
theorem equalised_turning {i : ℕ} (hi : i < 148) :
    ∃ a b : ℝ, equalised turningBurst 2 i =
        (a * (turningSample i).1 - b * (turningSample (i + 1)).1,
          a * (turningSample i).2 - b * (turningSample (i + 1)).2) ∧
      (114 / 100 ≤ a ∧ a ≤ 131 / 100) ∧ 42 / 100 ≤ b ∧ b ≤ 86 / 100 := by
  have hsize : (turningBurst.size : ℤ) = 150 := rfl
  set g : ℕ → ℝ := fun k =>
    if 0 ≤ (i : ℤ) - 2 + k ∧ (i : ℤ) - 2 + k < 148 then invertC0Taps.getD k 0 else 0 with hg
  have hterm (k : ℕ) : cmul (if 0 ≤ (i : ℤ) - 2 + k ∧ (i : ℤ) - 2 + k < turningBurst.size
      then delayed turningBurst (-2) (i - 2 + k) else 0) (invertC0Taps.getD k 0, 0) =
      (g k * (turningSample (i + k)).1, g k * (turningSample (i + k)).2) := by
    have hparity : turningSample (i - 2 + k) = turningSample (i + k) := by
      simp only [turningSample, show ((i : ℤ) - 2 + k) % 2 = (i + k) % 2 by omega]
    rw [hsize, delayed_turningBurst, hparity, hg]
    by_cases hin : 0 ≤ (i : ℤ) - 2 + k ∧ (i : ℤ) - 2 + k < 148
    · simp only [if_pos hin, if_pos (show 0 ≤ (i : ℤ) - 2 + k ∧ (i : ℤ) - 2 + k < 150 by omega),
        if_pos (show -2 ≤ (i : ℤ) - 2 + k ∧ (i : ℤ) - 2 + k < 148 by omega), cmul]
      refine Prod.ext ?_ ?_ <;> simp only <;> ring
    · simp only [if_neg hin]
      split_ifs <;> first | omega | simp [cmul]
  have hsame (k : ℕ) (hk : k % 2 = 0) : turningSample (i + k) = turningSample i := by
    simp only [turningSample, show ((i : ℤ) + k) % 2 = i % 2 by omega]
  have hother (k : ℕ) (hk : k % 2 = 1) : turningSample (i + k) = turningSample (i + 1) := by
    simp only [turningSample, show ((i : ℤ) + k) % 2 = (i + 1) % 2 by omega]
  refine ⟨g 0 + g 2 + g 4, -(g 1 + g 3), ?_, ?_, ?_⟩
  · simp only [equalised, hterm, Finset.sum_range_succ, Finset.sum_range_zero, zero_add]
    rw [hsame 0 rfl, hother 1 rfl, hsame 2 rfl, hother 3 rfl, hsame 4 rfl]
    refine Prod.ext ?_ ?_ <;> simp only [Prod.fst_add, Prod.snd_add] <;> ring
  · simp only [hg, invertC0Taps]
    constructor <;> split_ifs <;> first | omega | norm_num
  · simp only [hg, invertC0Taps]
    constructor <;> split_ifs <;> first | omega | norm_num

/-- The error that the equaliser leaves of the two phases, which have an angle of `7 / 8 * π`. -/
theorem close_of_turning {p q : ℝ × ℝ} (hp : norm2 p = 1) (hq : norm2 q = 1)
    (hpq : p.1 * q.1 + p.2 * q.2 = -realAngles.c) {a b : ℝ} (ha : 114 / 100 ≤ a ∧ a ≤ 131 / 100)
    (hb : 42 / 100 ≤ b ∧ b ≤ 86 / 100) :
    norm2 ((a * p.1 - b * q.1, a * p.2 - b * q.2) - cmul (9 / 5, 0) p) <
      norm2 ((9 / 5 : ℝ), (0 : ℝ)) * (realAngles.s * realAngles.s) := by
  have hsin := sin_sq_lower
  have hcos := cos_lower
  set u := a - 9 / 5 with hu
  have herror : norm2 ((a * p.1 - b * q.1, a * p.2 - b * q.2) - cmul (9 / 5, 0) p) =
      u * u + b * b + 2 * (u * b) * realAngles.c := by
    simp only [norm2] at hp hq
    simp only [norm2, cmul, Prod.fst_sub, Prod.snd_sub, hu]
    linear_combination u * u * hp + b * b * hq - 2 * (u * b) * hpq
  have hulow : -66 / 100 ≤ u := by linarith [ha.1]
  have huhigh : u ≤ -49 / 100 := by linarith [ha.2]
  have huu : u * u ≤ -115 / 100 * u - 3234 / 10000 := by nlinarith
  have hbb : b * b ≤ 128 / 100 * b - 3612 / 10000 := by nlinarith [hb.1, hb.2]
  have hub : u * b ≤ 42 / 100 * u - 49 / 100 * b + 2058 / 10000 := by nlinarith [hb.1]
  have hneg : u * b ≤ 0 := mul_nonpos_of_nonpos_of_nonneg (by linarith) (by linarith [hb.1])
  have hcross : u * b * realAngles.c ≤ u * b * (9 / 10) :=
    mul_le_mul_of_nonpos_left hcos.le hneg
  rw [herror]
  norm_num [norm2]
  linarith [hb.1, hb.2]

/-- 444 bits come back after a delay of two symbols. -/
theorem demodAnyBurst_edge_turning :
    ∃ (x : SignalVector ℝ) (soft : List ℝ),
      (sigProcLibSetup edgeTurns (convolveInit true)).modulateEdgeBurst turningBits 1 true =
        some (some x) ∧
      (Receiver.setup edgeTurns edgeTurnsBack (convolveInit true)).demodAnyBurst turningBurst 1
        (9 / 5, 0) ((2 : ℤ) : ℚ) .EDGE = some (some soft) ∧ soft.length = 444 ∧
      ∀ i (hi : i < turningBits.length), ∃ w, soft[i]? = some w ∧
        Speaks (decide (turningBits[i] &&& 1 = 1)) w := by
  have hlength := length_turningBits
  obtain ⟨x, hx, -⟩ := SigProcLib.modulateEdgeBurst_empty_makes edgeTurns (convolveInit true)
    (show turningBits.length % 3 = 0 by rw [hlength])
  obtain ⟨soft, hsoft, hlen, hspeaks⟩ := demodAnyBurst_edge edgeTurns edgeTurnsBack true
    exactEdge_edgeTurns hlength hx (show turningBurst.real = false from rfl)
    (show 148 ≤ 150 by decide) (show 150 ≤ 2 ^ 29 by decide)
    (show |(2 : ℤ)| < 2 ^ 16 by decide)
    (show norm2 ((9 / 5 : ℝ), (0 : ℝ)) ≠ 0 by norm_num [norm2]) (by
      intro i hi
      obtain ⟨a, b, heq, ha, hb⟩ := equalised_turning hi
      have hsample : x.sample (i : ℕ) = turningSample i := by
        rw [modulateEdgeBurst_sample edgeTurns hx (by omega), exactEdge_edgeTurns.symbols,
          psk8Bits_turningBits hi, turn_rotated]
      have hunit := realAngles.unit
      rw [heq, hsample]
      refine close_of_turning ?_ ?_ ?_ ha hb <;>
        · simp only [turningSample, norm2]
          split_ifs <;> first | omega | (simp only; linarith))
  exact ⟨x, soft, hx, hsoft, hlen, hspeaks⟩

end Edge

/-! ## Bursts that have been found -/

section Found

open Receiver

variable (f : FloatValues K) (v : ReceiveValues K) (sse3 : Bool)

/-- A slot's worth of samples. -/
def SlotSize (sps : ℕ) (burst : SignalVector K) : Prop :=
  sps = 1 ∧ 156 ≤ burst.size ∧ burst.size ≤ 157 ∨ sps = 4 ∧ burst.size = 625

/-- The symbols of a burst that has been demodulated. -/
def symbols (sps : ℕ) (burst : SignalVector K) : ℕ := if sps = 1 then burst.size else 156

/-- The soft bits of a burst. -/
def softLength (sps : ℕ) (burst : SignalVector K) (type : CorrType) : ℕ :=
  if type = .EDGE then 444 else symbols sps burst

omit [Field K] [LinearOrder K] in
theorem SlotSize.symbols {sps : ℕ} {burst : SignalVector K} (h : SlotSize sps burst) :
    156 ≤ symbols sps burst ∧ symbols sps burst ≤ 157 := by
  unfold Trx.symbols
  rcases h with ⟨rfl, hlow, hhigh⟩ | ⟨rfl, -⟩
  · exact ⟨hlow, hhigh⟩
  · exact ⟨by norm_num, by norm_num⟩

variable {max_toa : ℤ} {r : Detection K} {sps : ℕ} {burst : SignalVector K}

/-- The delay is compensated, and one sample for each symbol is left. -/
theorem demodCommon_found (hr : Arrives max_toa r) (hmax : MaxSearch max_toa)
    (hburst : SlotSize sps burst) (chan : K × K) :
    ∃ dec, (Receiver.setup f v (convolveInit sse3)).demodCommon burst sps chan r.toa =
      some (some dec) ∧ dec.size = symbols sps burst := by
  have hsps : sps = 1 ∨ sps = 4 := hburst.imp And.left And.left
  have hmin : 156 ≤ burst.size ∧ burst.size ≤ 625 := by
    rcases hburst with ⟨-, hlow, hhigh⟩ | ⟨-, hsize⟩ <;> omega
  obtain ⟨n, hn26, -, hdelay⟩ := hr.delay hmax hsps
  obtain ⟨shift, y, -, hy, hysize, -⟩ := delayVector_place f v sse3 hn26 (by omega : 10 ≤ burst.size)
    (by omega)
  have hscaled : (scaleVector y (cdiv (1, 0) chan)).size = burst.size := hysize
  rcases hburst with ⟨rfl, -⟩ | ⟨rfl, hsize⟩
  · refine ⟨_, ?_, hscaled⟩
    rw [demodCommon, if_neg (by norm_num), hdelay, hy]
    rfl
  · have hwhole : DOWNSAMPLE_IN_LEN ≤ (scaleVector y (cdiv (1, 0) chan)).size := by
      rw [hscaled, hsize]
      decide
    obtain ⟨out, hout, houtsize⟩ := setup_downsampleBurst f v sse3 hwhole
    refine ⟨out, ?_, houtsize⟩
    rw [demodCommon, if_neg (by norm_num), hdelay, hy]
    exact hout

/-- **A burst that has been found is demodulated**, without a read outside of a vector or a table. -/
theorem demodAnyBurst_found (hr : Arrives max_toa r) (hmax : MaxSearch max_toa)
    (hburst : SlotSize sps burst) (amp : K × K) (type : CorrType) :
    ∃ soft, (Receiver.setup f v (convolveInit sse3)).demodAnyBurst burst sps amp r.toa type =
      some (some soft) ∧ soft.length = softLength sps burst type := by
  set s := Receiver.setup f v (convolveInit sse3) with hs
  obtain ⟨dec, hdec, hsize⟩ := demodCommon_found f v sse3 hr hmax hburst amp
  rw [← hs] at hdec
  have hsymbols := hburst.symbols
  by_cases htype : type = .EDGE
  · have hself : ∀ i : ℕ, i < dec.size → dec.sample i = cmul (delayed dec (-0) i) (1, 0) := by
      intro i hi
      have hin : (0 : ℤ) ≤ i + 0 ∧ (i : ℤ) + 0 < dec.size := by omega
      rw [delayed_of_mem hin.1 hin.2, add_zero]
      simp [cmul]
    obtain ⟨eq, heq, heqsize, -⟩ := convolve_c0_inv f v sse3 rfl (by omega) (by omega) hself
    obtain ⟨rot, hrot, hrotsize, -⟩ := derotateEdgeBurst_sample s eq
    obtain ⟨soft, hsoft, hlen⟩ : ∃ soft, s.softSliceEdgeBurst rot = some soft ∧
        soft.length = 444 := ⟨_, if_neg (by omega), by simp⟩
    refine ⟨soft, ?_, by rw [hlen, softLength, if_pos htype]⟩
    rw [demodAnyBurst, if_pos htype, demodEdgeBurst, hdec]
    simp only [Option.bind_eq_bind, Option.bind_some]
    rw [show s.cpu = convolveInit sse3 from rfl, show s.mem = f.mem from rfl, heq,
      Option.bind_some, hrot, Option.bind_some, hsoft]
  · obtain ⟨y, hrotate, hysize⟩ : ∃ y, s.GMSKReverseRotate dec 1 = some (true, y) ∧
        y.size = dec.size := by
      have hlen : dec.size ≤ s.GMSKRotation1Len := show dec.size ≤ 157 by omega
      simp only [GMSKReverseRotate, true_or, if_true, if_pos hlen]
      exact ⟨_, rfl, rfl⟩
    refine ⟨signalToSoftVector y, ?_, ?_⟩
    · rw [demodAnyBurst, if_neg htype, demodGmskBurst, hdec]
      simp only [Option.bind_eq_bind, Option.bind_some, hrotate]
    · simp [signalToSoftVector, hysize, hsize, softLength, htype]

end Found

end Trx
end OsmoTrx
