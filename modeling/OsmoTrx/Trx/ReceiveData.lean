import OsmoTrx.GSM.Time
import OsmoTrx.Lib.Bytes
import OsmoTrx.Lib.Loop
import OsmoTrx.Lib.Mem

/-!
# Received data bursts

The datagrams for the GSM core: `driveReceiveFIFO` writes a demodulated burst into an array on the
stack and sends it.  Soft values, levels and the timing offset are rational numbers; the array
starts with whatever the stack held.

* `vectorSlicer`, `burstString`, `driveReceiveFIFO` — the code.
* `ReceiveData` — the fields of a datagram, as the README describes them.
* `driveReceiveFIFO_eq` — the datagram, byte by byte.
* `receiveData_decodes` — the timeslot, the frame number and the soft values can be decoded, and the
  timing offset if it is not negative once a half is added, or half way between two steps.
* `not_encodes` — **no burst is encoded**: the last byte but one of a datagram is never written.
-/

namespace OsmoTrx
namespace Trx

open GSM

/-! ## The code -/

/-- What `pullRadioVector` has for a burst: its time, the soft bits, the level in dBFS and the
timing offset in symbols. -/
structure RxBurst where
  burstTime : Time
  softBits : List ℚ
  RSSI : ℚ
  TOA : ℚ

/-- The turn of `vectorSlicer`: `-1..+1` to `0..1`. -/
def slice01 (x : ℚ) : ℚ :=
  let x := 1 / 2 * (x + 1)
  let x := if x > 1 then 1 else x
  if x < 0 then 0 else x

/-- `vectorSlicer`. -/
def vectorSlicer (x : List ℚ) : List ℚ := x.map slice01

namespace RxBurst

/-- The demodulated bits that are sent: those of a normal burst, or three times as many if that is
the size of the vector. -/
def nbits (b : RxBurst) : ℕ := if b.softBits.length = gSlotLen * 3 then gSlotLen * 3 else gSlotLen

/-- The timing offset in 1/256 symbols. -/
def TOAint (b : RxBurst) : ℤ := truncate (b.TOA * 256 + 1 / 2)

/-- A soft bit as a byte. -/
def softByte (b : RxBurst) (i : ℕ) : UInt8 :=
  byteOf (roundAway ((vectorSlicer b.softBits).getD i 0 * 255))

/-- The array `burstString`; `junk` is what was in it. -/
def burstString (junk : ℕ → UInt8) (rssiOffset : ℚ) (b : RxBurst) : ℕ → UInt8 :=
  let dBm := b.RSSI + rssiOffset
  let s := Function.update junk 0 (byteOf b.burstTime.TN)
  let s := Loop.upTo 4 (fun i s =>
    Function.update s (1 + i) (byteOf (b.burstTime.FN >>> ((3 - i) * 8)))) s
  let s := Function.update s 5 (byteOf (truncate dBm))
  let s := Function.update s 6 (byteOf (b.TOAint >>> (8 : ℕ)))
  let s := Function.update s 7 (byteOf b.TOAint)
  let s := Loop.upTo b.nbits (fun i s => Function.update s (8 + i) (b.softByte i)) s
  Function.update s (b.nbits + 9) 0

end RxBurst

/-- `driveReceiveFIFO` on a demodulated burst; `none` if it reads past the end of the soft bits. -/
def driveReceiveFIFO (junk : ℕ → UInt8) (rssiOffset : ℚ) (b : RxBurst) : Option (List UInt8) :=
  if b.nbits ≤ b.softBits.length then
    some (Mem.slice (b.burstString junk rssiOffset) 0 (b.nbits + 10))
  else none

/-! ## The format -/

/-- The fields of a datagram: timeslot, frame number, level, timing offset in 1/256 symbols and soft
symbol estimates. -/
structure ReceiveData where
  timeslot : ℕ
  frame : ℕ
  level : ℕ
  offset : ℤ
  soft : List ℕ
  deriving DecidableEq

/-- The layout.  Two bytes after the estimates are not part of it. -/
def ReceiveData.ofMessage (msg : List UInt8) : ReceiveData where
  timeslot := (msg.getD 0 0).toNat
  frame := ofBytes ((msg.drop 1).take 4)
  level := (msg.getD 5 0).toNat
  offset := ofBytesSigned ((msg.drop 6).take 2)
  soft := ((msg.drop 8).take (msg.length - 10)).map UInt8.toNat

/-- **A burst is encoded**: its datagram depends on nothing else, and has its time, its soft bits
to the nearest 1/255 and its timing offset to the nearest 1/256. -/
structure Encodes (rssiOffset : ℚ) (b : RxBurst) : Prop where
  determined : ∀ junk junk',
    driveReceiveFIFO junk rssiOffset b = driveReceiveFIFO junk' rssiOffset b
  decodes : ∀ junk, ∃ msg, driveReceiveFIFO junk rssiOffset b = some msg ∧
    let d := ReceiveData.ofMessage msg
    (d.timeslot : ℤ) = b.burstTime.mTN ∧ (d.frame : ℤ) = b.burstTime.mFN ∧
      List.Forall₂ (fun (k : ℕ) v => |(k : ℚ) / 255 - v| ≤ 1 / 510) d.soft
        ((vectorSlicer b.softBits).take b.nbits) ∧
      |(d.offset : ℚ) / 256 - b.TOA| ≤ 1 / 512

/-! ## The datagram -/

theorem slice01_mem (x : ℚ) : 0 ≤ slice01 x ∧ slice01 x ≤ 1 := by
  simp only [slice01]
  split_ifs <;> constructor <;> linarith

theorem RxBurst.burstString_apply (junk : ℕ → UInt8) (rssiOffset : ℚ) (b : RxBurst) (j : ℕ) :
    b.burstString junk rssiOffset j =
      if j = b.nbits + 9 then 0
      else if 8 ≤ j ∧ j < 8 + b.nbits then b.softByte (j - 8)
      else if j = 7 then byteOf b.TOAint
      else if j = 6 then byteOf (b.TOAint >>> (8 : ℕ))
      else if j = 5 then byteOf (truncate (b.RSSI + rssiOffset))
      else if 1 ≤ j ∧ j < 1 + 4 then byteOf (b.burstTime.FN >>> ((3 - (j - 1)) * 8))
      else if j = 0 then byteOf b.burstTime.TN
      else junk j := by
  simp only [burstString, Loop.upTo_update, Function.update_apply]

/-- The bytes of a datagram. -/
theorem driveReceiveFIFO_eq {b : RxBurst} (h : b.nbits ≤ b.softBits.length) (junk : ℕ → UInt8)
    (rssiOffset : ℚ) :
    driveReceiveFIFO junk rssiOffset b = some ([byteOf b.burstTime.TN] ++
      toBytes 4 b.burstTime.FN ++ [byteOf (truncate (b.RSSI + rssiOffset))] ++
      toBytes 2 b.TOAint ++ (List.range b.nbits).map b.softByte ++ [junk (b.nbits + 8), 0]) := by
  have hlen : b.nbits + 10 = 1 + 4 + 1 + 2 + b.nbits + 2 := by omega
  rw [driveReceiveFIFO, if_pos h, hlen]
  simp only [Mem.slice_append, Nat.zero_add]
  have hhead : Mem.slice (b.burstString junk rssiOffset) 0 1 = [byteOf b.burstTime.TN] := by
    simp [Mem.slice, RxBurst.burstString_apply]
  have hframe : Mem.slice (b.burstString junk rssiOffset) 1 4 = toBytes 4 b.burstTime.FN := by
    simp [Mem.slice, List.range_succ, RxBurst.burstString_apply, toBytes, ← Int.shiftRight_add]
  have hlevel : Mem.slice (b.burstString junk rssiOffset) 5 1 =
      [byteOf (truncate (b.RSSI + rssiOffset))] := by
    simp [Mem.slice, RxBurst.burstString_apply]
  have hoffset : Mem.slice (b.burstString junk rssiOffset) 6 2 = toBytes 2 b.TOAint := by
    simp [Mem.slice, List.range_succ, RxBurst.burstString_apply, toBytes]
  have hsoft : Mem.slice (b.burstString junk rssiOffset) 8 b.nbits =
      (List.range b.nbits).map b.softByte := by
    refine List.map_congr_left fun i hi => ?_
    have hi := List.mem_range.mp hi
    rw [RxBurst.burstString_apply, if_neg (by omega), if_pos (by omega), Nat.add_sub_cancel_left]
  have htail : Mem.slice (b.burstString junk rssiOffset) (8 + b.nbits) 2 =
      [junk (b.nbits + 8), 0] := by
    -- the cell after the last soft bit is in no branch
    have hjunk : b.burstString junk rssiOffset (8 + b.nbits) = junk (b.nbits + 8) := by
      rw [RxBurst.burstString_apply, add_comm]
      repeat rw [if_neg (by omega)]
    have hzero : b.burstString junk rssiOffset (8 + b.nbits + 1) = 0 := by
      rw [RxBurst.burstString_apply, if_pos (by omega)]
    simp [Mem.slice, List.range_succ, hjunk, hzero]
  rw [hhead, hframe, hlevel, hoffset, hsoft, htail]

/-! ## Decoding -/

/-- A burst as the demodulator has it: at a valid time, with enough soft bits, and with a timing
offset that fits 16 bits. -/
structure Demodulated (b : RxBurst) : Prop where
  valid : b.burstTime.Valid
  enough : b.nbits ≤ b.softBits.length
  offset : |256 * b.TOA| < 32767

theorem vectorSlicer_getD_mem (x : List ℚ) (i : ℕ) :
    0 ≤ (vectorSlicer x).getD i 0 ∧ (vectorSlicer x).getD i 0 ≤ 1 := by
  rw [List.getD_eq_getElem?_getD, vectorSlicer, List.getElem?_map]
  cases x[i]? with
  | none => simp
  | some v => exact slice01_mem v

/-- A byte is a soft bit to the nearest 1/255. -/
theorem softByte_near (b : RxBurst) (i : ℕ) :
    |((b.softByte i).toNat : ℚ) / 255 - (vectorSlicer b.softBits).getD i 0| ≤ 1 / 510 := by
  obtain ⟨hlo, hhi⟩ := vectorSlicer_getD_mem b.softBits i
  rw [RxBurst.softByte]
  generalize (vectorSlicer b.softBits).getD i 0 = v at hlo hhi
  have hnear := abs_le.mp (abs_roundAway_sub_le (v * 255))
  have hnonneg : -1 < roundAway (v * 255) := by
    have h : ((-1 : ℤ) : ℚ) < roundAway (v * 255) := by
      push_cast
      linarith
    exact_mod_cast h
  have hle : roundAway (v * 255) < 256 := by
    have h : (roundAway (v * 255) : ℚ) < (256 : ℤ) := by
      push_cast
      linarith
    exact_mod_cast h
  have hbyte : ((byteOf (roundAway (v * 255))).toNat : ℤ) = roundAway (v * 255) := by
    rw [byteOf_toNat]
    omega
  have hcast : ((byteOf (roundAway (v * 255))).toNat : ℚ) = roundAway (v * 255) := by
    exact_mod_cast hbyte
  rw [hcast, abs_le]
  constructor <;> linarith

namespace RxBurst

variable {b : RxBurst}

theorem byteOf_TN (h : b.burstTime.Valid) :
    (byteOf b.burstTime.TN).toNat = b.burstTime.mTN.toNat := by
  obtain ⟨-, hlo, hhi⟩ := h
  have hbyte := byteOf_toNat b.burstTime.TN
  rw [Time.TN, u32_eq_self hlo (by omega)] at hbyte ⊢
  omega

theorem ofBytes_FN (h : b.burstTime.Valid) :
    ofBytes (toBytes 4 b.burstTime.FN) = b.burstTime.mFN.toNat := by
  obtain ⟨⟨hlo, hhi⟩, -⟩ := h
  rw [gHyperframe_eq] at hhi
  have hbytes := ofBytes_toBytes 4 b.burstTime.FN
  rw [Time.FN, Int.emod_eq_of_lt hlo (by omega)] at hbytes
  rw [Time.FN]
  omega

/-- The fields of a datagram; of the timing offset there are 16 bits. -/
theorem fields (hvalid : b.burstTime.Valid) (henough : b.nbits ≤ b.softBits.length)
    (junk : ℕ → UInt8) (rssiOffset : ℚ) :
    ∃ msg, driveReceiveFIFO junk rssiOffset b = some msg ∧ ReceiveData.ofMessage msg =
      { timeslot := b.burstTime.mTN.toNat
        frame := b.burstTime.mFN.toNat
        level := (byteOf (truncate (b.RSSI + rssiOffset))).toNat
        offset := ofBytesSigned (toBytes 2 b.TOAint)
        soft := (List.range b.nbits).map fun i => (b.softByte i).toNat } := by
  refine ⟨_, driveReceiveFIFO_eq henough junk rssiOffset, ?_⟩
  obtain ⟨f₀, f₁, f₂, f₃, hframe⟩ : ∃ f₀ f₁ f₂ f₃, toBytes 4 b.burstTime.FN = [f₀, f₁, f₂, f₃] :=
    ⟨_, _, _, _, rfl⟩
  obtain ⟨o₀, o₁, hoffset⟩ : ∃ o₀ o₁, toBytes 2 b.TOAint = [o₀, o₁] := ⟨_, _, rfl⟩
  rw [← byteOf_TN hvalid, ← ofBytes_FN hvalid, hframe, hoffset]
  simp [ReceiveData.ofMessage, Function.comp_def]

end RxBurst

namespace Demodulated

variable {b : RxBurst}

theorem ofBytesSigned_TOAint (h : Demodulated b) :
    ofBytesSigned (toBytes 2 b.TOAint) = b.TOAint := by
  have habs : |(b.TOAint : ℚ)| < 32768 :=
    calc |(b.TOAint : ℚ)| ≤ |b.TOA * 256 + 1 / 2| := abs_truncate_le _
      _ ≤ |256 * b.TOA| + |1 / 2| := by rw [mul_comm]; exact abs_add_le _ _
      _ < 32768 := by
        have hhalf : |(1 / 2 : ℚ)| = 1 / 2 := by norm_num
        have hoffset := h.offset
        linarith
  obtain ⟨hlo, hhi⟩ := abs_lt.mp habs
  have hlo' : -32768 < b.TOAint := by exact_mod_cast hlo
  have hhi' : b.TOAint < 32768 := by exact_mod_cast hhi
  exact ofBytesSigned_toBytes (by norm_num; omega) (by norm_num; omega)

/-- The soft bits that are sent, to the nearest 1/255. -/
theorem soft_near (h : Demodulated b) :
    List.Forall₂ (fun (k : ℕ) v => |(k : ℚ) / 255 - v| ≤ 1 / 510)
      ((List.range b.nbits).map fun i => (b.softByte i).toNat)
      ((vectorSlicer b.softBits).take b.nbits) := by
  have henough := h.enough
  have htake : (vectorSlicer b.softBits).take b.nbits =
      (List.range b.nbits).map fun i => (vectorSlicer b.softBits).getD i 0 := by
    refine List.ext_getElem (by simp [vectorSlicer, henough]) fun i hi _ => ?_
    have hlen : i < (vectorSlicer b.softBits).length := by
      rw [List.length_take] at hi
      omega
    simp [List.getElem?_eq_getElem hlen]
  rw [htake, List.forall₂_map_left_iff, List.forall₂_map_right_iff, List.forall₂_same]
  exact fun i _ => softByte_near b i

/-- The timing offset is the nearest step, if it is not negative when a half is added, or if it is
half way between two steps. -/
theorem offset_near_iff (b : RxBurst) : |(b.TOAint : ℚ) / 256 - b.TOA| ≤ 1 / 512 ↔
    0 ≤ b.TOA * 256 + 1 / 2 ∨ (⌈b.TOA * 256 + 1 / 2⌉ : ℚ) = b.TOA * 256 + 1 / 2 := by
  rw [← truncate_add_half_iff, RxBurst.TOAint, abs_le, abs_le]
  constructor <;> rintro ⟨hlo, hhi⟩ <;> constructor <;> linarith

/-- **What can be decoded from a datagram**: all of the documented fields, up to the timing offset
of a burst that is early. -/
theorem receiveData_decodes (h : Demodulated b) (junk : ℕ → UInt8) (rssiOffset : ℚ) :
    ∃ msg, driveReceiveFIFO junk rssiOffset b = some msg ∧
      let d := ReceiveData.ofMessage msg
      (d.timeslot : ℤ) = b.burstTime.mTN ∧ (d.frame : ℤ) = b.burstTime.mFN ∧
        List.Forall₂ (fun (k : ℕ) v => |(k : ℚ) / 255 - v| ≤ 1 / 510) d.soft
          ((vectorSlicer b.softBits).take b.nbits) ∧
        (|(d.offset : ℚ) / 256 - b.TOA| ≤ 1 / 512 ↔
          0 ≤ b.TOA * 256 + 1 / 2 ∨ (⌈b.TOA * 256 + 1 / 2⌉ : ℚ) = b.TOA * 256 + 1 / 2) := by
  obtain ⟨⟨hfn, -⟩, htn, -⟩ := h.valid
  obtain ⟨msg, hmsg, hfields⟩ := RxBurst.fields h.valid h.enough junk rssiOffset
  refine ⟨msg, hmsg, ?_⟩
  rw [hfields, h.ofBytesSigned_TOAint]
  exact ⟨Int.toNat_of_nonneg htn, Int.toNat_of_nonneg hfn, h.soft_near, offset_near_iff b⟩

end Demodulated

/-! ## The byte that is not written -/

/-- The byte after the soft bits is what the stack held. -/
theorem driveReceiveFIFO_junk {b : RxBurst} (h : b.nbits ≤ b.softBits.length) (rssiOffset : ℚ) :
    driveReceiveFIFO (fun _ => 0) rssiOffset b ≠ driveReceiveFIFO (fun _ => 1) rssiOffset b := by
  rw [driveReceiveFIFO_eq h, driveReceiveFIFO_eq h, ne_eq, Option.some.injEq]
  intro hsame
  simp at hsame

/-- **No burst is encoded.** -/
theorem not_encodes (rssiOffset : ℚ) (b : RxBurst) : ¬ Encodes rssiOffset b := by
  intro h
  by_cases henough : b.nbits ≤ b.softBits.length
  · exact driveReceiveFIFO_junk henough rssiOffset (h.determined _ _)
  · obtain ⟨msg, hmsg, -⟩ := h.decodes fun _ => 0
    rw [driveReceiveFIFO, if_neg henough] at hmsg
    cases hmsg

/-- A normal burst of ones in the first slot, on time. -/
def onTime : RxBurst := ⟨⟨0, 0⟩, List.replicate 148 1, 50, 0⟩

/-- Two datagrams for it differ. -/
theorem onTime_not_determined : ¬ Encodes 0 onTime := fun h =>
  driveReceiveFIFO_junk (by simp [onTime, RxBurst.nbits, gSlotLen]) 0 (h.determined _ _)

end Trx
end OsmoTrx
