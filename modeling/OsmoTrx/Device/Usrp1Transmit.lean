import OsmoTrx.Lib.Bytes
import OsmoTrx.Lib.Loop
import OsmoTrx.Lib.Mem
import OsmoTrx.Lib.Rounding

/-!
# Packets to the USRP1

`USRPDevice::writeSamples` cuts a burst into USB packets of 512 bytes, in a buffer of 20 packets
that is kept from call to call.  `Inband.decode` reads a packet as `inband-signaling-usb` lays it
out.  Memory is bytes: `host_to_usrp_short` and `host_to_usrp_u32` see to it that a number lies
there with its least significant byte first, whatever the order of the host is.

* `header_eq`, `decode_packet` — the shifts put every field where the layout has it.
* `Packed` — the invariant of the loop: the packets that are complete, and what comes next.
* `numPkts_eq` — the number of packets, computed in single precision, is the number of turns.
* `writeSamples_packets` — **nothing is lost**: the packets of a burst that fits carry its flags,
  its times and its samples.
-/

namespace OsmoTrx
namespace Device
namespace Usrp1

/-! ## The in-band format -/

/-- A packet of the in-band format. -/
structure Inband where
  overrun : Bool
  underrun : Bool
  dropped : Bool
  startOfBurst : Bool
  endOfBurst : Bool
  rssi : ℕ
  chan : ℕ
  mbz : ℕ
  tag : ℕ
  payloadLen : ℕ
  timestamp : ℕ
  payload : List UInt8
  deriving DecidableEq, Repr

/-- The layout: two words, the fields of the first from the top down, and the payload. -/
def Inband.decode (pkt : List UInt8) : Inband :=
  let word0 := ofBytesLE (pkt.take 4)
  let payloadLen := word0 % 2 ^ 9
  { overrun := word0.testBit 31
    underrun := word0.testBit 30
    dropped := word0.testBit 29
    startOfBurst := word0.testBit 28
    endOfBurst := word0.testBit 27
    rssi := word0 / 2 ^ 21 % 2 ^ 6
    chan := word0 / 2 ^ 16 % 2 ^ 5
    mbz := word0 / 2 ^ 13 % 2 ^ 3
    tag := word0 / 2 ^ 9 % 2 ^ 4
    payloadLen := payloadLen
    timestamp := ofBytesLE ((pkt.drop 4).take 4)
    payload := (pkt.drop 8).take payloadLen }

/-! ## `writeSamples` -/

/-- Bytes of `outData`, an array of `128 * 20` words. -/
def outDataSize : ℕ := 4 * (128 * 20)

/-- The first word of a packet. -/
def header (isStart isEnd : Bool) (RSSI CHAN payloadLen : ℕ) : ℕ :=
  (isStart.toNat <<< 12 ||| isEnd.toNat <<< 11 ||| (RSSI &&& 0x3f) <<< 5 ||| CHAN) <<< 16 |||
    payloadLen

/-- `CHAN`: the channel for control, or the first one. -/
def channel (isControl : Bool) : ℕ := if isControl then 0x1f else 0

theorem channel_cases (isControl : Bool) : channel isControl = 0 ∨ channel isControl = 0x1f := by
  cases isControl
  · exact Or.inl rfl
  · exact Or.inr rfl

/-- What the loop changes. -/
structure Packing where
  outData : ℕ → UInt8
  numWritten : ℕ
  timestamp : ℕ
  isStart : Bool
  pktNum : ℕ

/-- A turn of the loop over a burst of `len` bytes, `buf` being the bytes of the samples; `none` is
an access outside `outData` or `buf`. -/
def packTurn (buf : List UInt8) (CHAN len : ℕ) (s : Packing) : Option Packing :=
  let pkt := 4 * (s.pktNum * 128)
  let isEnd := decide (len - s.numWritten ≤ 504)
  let payloadLen := if len - s.numWritten < 504 then len - s.numWritten else 504
  let src := 2 * (s.numWritten / 2)
  if pkt + 8 + payloadLen ≤ outDataSize ∧ src + payloadLen ≤ buf.length then
    some
      { outData := Mem.blit (Mem.blit (Mem.blit s.outData pkt
            (toBytesLE 4 (header s.isStart isEnd 0 CHAN payloadLen)))
            (pkt + 4) (toBytesLE 4 (s.timestamp % 2 ^ 32 : ℕ)))
            (pkt + 8) ((buf.drop src).take payloadLen)
        numWritten := s.numWritten + payloadLen
        timestamp := add64 s.timestamp (payloadLen / 2 / 2)
        isStart := false
        pktNum := s.pktNum + 1 }
  else none

/-- The number of packets. -/
def numPkts (len : ℕ) : ℤ := ⌈roundFloat (roundFloat len / roundFloat 504)⌉

/-- The part of `USRPDevice` that sends.  `outData` is static. -/
structure Transmitter where
  m_uTx : Bool
  writeLock : Bool
  samplesWritten : ℕ
  outData : ℕ → UInt8

/-- The samples in the order of the wire. -/
def wireBytes (samples : List (BitVec 16)) : List UInt8 :=
  samples.flatMap fun s => toBytesLE 2 s.toNat

/-- `writeSamples`: the bytes that go to the USB, the result, and the device, which keeps its lock
where there is no transmitter.  `none` is an access outside the buffers, and a length whose bytes
no `int` counts. -/
def writeSamples (d : Transmitter) (bufs : List (List (BitVec 16))) (len timestamp : ℕ)
    (isControl : Bool) : Option (List UInt8 × ℕ × Transmitter) :=
  if ¬ d.m_uTx then some ([], 0, { d with writeLock := true })
  else
    match bufs with
    | [] => none
    | buf :: _ =>
      let bytes := 2 * len * 2
      if buf.length < 2 * len ∨ 2 ^ 31 ≤ bytes then none
      else do
        let s ← Loop.whileM (fun s => decide (s.numWritten < bytes))
          (packTurn (wireBytes (buf.take (2 * len))) (channel isControl) bytes) bytes
          ⟨d.outData, 0, timestamp, true, 0⟩
        let written := 4 * 128 * (numPkts bytes).toNat
        if written ≤ outDataSize then
          some (Mem.slice s.outData 0 written, bytes / 2 / 2,
            { d with
              writeLock := false
              samplesWritten := add64 d.samplesWritten (bytes / 2 / 2)
              outData := s.outData })
        else none

/-- The samples that bytes in the order of the wire stand for. -/
def wireSamples : List UInt8 → List (BitVec 16)
  | a :: b :: rest => BitVec.ofNat 16 (ofBytesLE [a, b]) :: wireSamples rest
  | _ => []

theorem length_wireBytes (samples : List (BitVec 16)) :
    (wireBytes samples).length = 2 * samples.length := by
  induction samples with
  | nil => rfl
  | cons s samples ih =>
    rw [wireBytes, List.flatMap_cons, List.length_append, length_toBytesLE, ← wireBytes, ih,
      List.length_cons]
    ring

theorem wireSamples_wireBytes (samples : List (BitVec 16)) :
    wireSamples (wireBytes samples) = samples := by
  induction samples with
  | nil => rfl
  | cons s samples ih =>
    obtain ⟨a, b, hab⟩ := List.length_eq_two.mp (length_toBytesLE 2 s.toNat)
    have hs : ofBytesLE (toBytesLE 2 s.toNat) = s.toNat := ofBytesLE_toBytesLE_of_lt s.isLt
    rw [wireBytes, List.flatMap_cons, ← wireBytes, hab]
    simp only [List.cons_append, List.nil_append, wireSamples, ih]
    rw [← hab, hs, BitVec.ofNat_toNat, BitVec.setWidth_eq]

/-! ## The header -/

/-- **The header** is the sum of its fields in their places. -/
theorem header_eq (isStart isEnd : Bool) {CHAN payloadLen : ℕ} (hc : CHAN = 0 ∨ CHAN = 0x1f)
    (hp : payloadLen < 2 ^ 16) :
    header isStart isEnd 0 CHAN payloadLen =
      2 ^ 28 * isStart.toNat + 2 ^ 27 * isEnd.toNat + 2 ^ 16 * CHAN + payloadLen := by
  rw [header, ← Nat.shiftLeft_add_eq_or_of_lt hp, Nat.add_right_cancel_iff]
  rcases hc with rfl | rfl <;> cases isStart <;> cases isEnd <;> rfl

/-- Fields of an OUT packet, as the loop means them. -/
structure IsOut (p : Inband) (isStart isEnd : Bool) (CHAN : ℕ) (timestamp : ℕ)
    (payload : List UInt8) : Prop where
  flags : p.overrun = false ∧ p.underrun = false ∧ p.dropped = false
  startOfBurst : p.startOfBurst = isStart
  endOfBurst : p.endOfBurst = isEnd
  zeros : p.rssi = 0 ∧ p.mbz = 0 ∧ p.tag = 0
  chan : p.chan = CHAN
  payloadLen : p.payloadLen = payload.length
  timestamp : p.timestamp = timestamp
  payload : p.payload = payload

/-- The fields of a first word. -/
theorem word_fields {a b CHAN len : ℕ} (ha : a ≤ 1) (hb : b ≤ 1) (hc : CHAN < 2 ^ 5)
    (hlen : len < 2 ^ 9) {w : ℕ} (hw : w = 2 ^ 28 * a + 2 ^ 27 * b + 2 ^ 16 * CHAN + len) :
    (w / 2 ^ 31 % 2 = 0 ∧ w / 2 ^ 30 % 2 = 0 ∧ w / 2 ^ 29 % 2 = 0) ∧ w / 2 ^ 28 % 2 = a ∧
      w / 2 ^ 27 % 2 = b ∧ (w / 2 ^ 21 % 2 ^ 6 = 0 ∧ w / 2 ^ 13 % 2 ^ 3 = 0 ∧
      w / 2 ^ 9 % 2 ^ 4 = 0) ∧ w / 2 ^ 16 % 2 ^ 5 = CHAN ∧ w % 2 ^ 9 = len := by
  omega

theorem decide_toNat_eq_one (b : Bool) : decide (b.toNat = 1) = b := by
  cases b <;> rfl

/-- **A packet decodes** to the fields it was made of. -/
theorem decode_packet {m : ℕ → UInt8} {pkt CHAN timestamp : ℕ} (isStart isEnd : Bool)
    {payload : List UInt8} (hc : CHAN = 0 ∨ CHAN = 0x1f) (hp : payload.length ≤ 504)
    (h0 : Mem.slice m pkt 4 = toBytesLE 4 (header isStart isEnd 0 CHAN payload.length))
    (h1 : Mem.slice m (pkt + 4) 4 = toBytesLE 4 (timestamp % 2 ^ 32 : ℕ))
    (h2 : Mem.slice m (pkt + 8) payload.length = payload) :
    IsOut (Inband.decode (Mem.slice m pkt 512)) isStart isEnd CHAN (timestamp % 2 ^ 32)
      payload := by
  have heq := header_eq isStart isEnd hc (show payload.length < 2 ^ 16 by omega)
  have ha := isStart.toNat_le
  have hb := isEnd.toNat_le
  have hchan : CHAN < 2 ^ 5 := by omega
  have hword0 : ofBytesLE ((Mem.slice m pkt 512).take 4) =
      2 ^ 28 * isStart.toNat + 2 ^ 27 * isEnd.toNat + 2 ^ 16 * CHAN + payload.length := by
    have htake : ((Mem.slice m pkt 512).drop 0).take 4 = Mem.slice m (pkt + 0) 4 :=
      Mem.take_drop_slice m pkt (by omega)
    rw [List.drop_zero, Nat.add_zero] at htake
    rw [htake, h0, heq]
    exact ofBytesLE_toBytesLE_of_lt (by omega)
  have hword1 : ofBytesLE (((Mem.slice m pkt 512).drop 4).take 4) = timestamp % 2 ^ 32 := by
    rw [Mem.take_drop_slice m pkt (by omega), h1]
    exact ofBytesLE_toBytesLE_of_lt (Nat.mod_lt timestamp (by decide : 0 < 256 ^ 4))
  obtain ⟨⟨h31, h30, h29⟩, h28, h27, hzeros, h16, hlen⟩ :=
    word_fields ha hb hchan (show payload.length < 2 ^ 9 by omega) hword0
  refine ⟨?_, ?_, ?_, ?_, ?_, ?_, ?_, ?_⟩
  · simp only [Inband.decode, Nat.testBit_eq_decide_div_mod_eq, h31, h30, h29]
    decide
  · simp only [Inband.decode, Nat.testBit_eq_decide_div_mod_eq, h28, decide_toNat_eq_one]
  · simp only [Inband.decode, Nat.testBit_eq_decide_div_mod_eq, h27, decide_toNat_eq_one]
  · simp only [Inband.decode]
    exact hzeros
  · simp only [Inband.decode, h16]
  · simp only [Inband.decode, hlen]
  · simp only [Inband.decode, hword1]
  · simp only [Inband.decode, hlen]
    rw [Mem.take_drop_slice m pkt (by omega), h2]

/-! ## The number of packets -/

/-- The count in single precision is the number of turns of the loop. -/
theorem numPkts_eq {len : ℕ} (h : len < 2 ^ 24) : numPkts len = ((len + 503) / 504 : ℕ) := by
  have hlen : roundFloat len = len := @roundFloat_intCast len (by simpa using h)
  have h504 : roundFloat 504 = 504 := @roundFloat_intCast 504 (by decide)
  have hceil := ceil_roundFloat_div (show 0 < 504 by decide) h (by decide)
  rw [Nat.cast_ofNat] at hceil
  have hlo : 504 * ((len + 503) / 504) < len + 504 := by omega
  have hhi : len ≤ 504 * ((len + 503) / 504) := by omega
  generalize (len + 503) / 504 = n at hlo hhi ⊢
  have hlo' : (504 : ℚ) * n < len + 504 := by exact_mod_cast hlo
  have hhi' : (len : ℚ) ≤ 504 * n := by exact_mod_cast hhi
  rw [numPkts, hlen, h504, hceil, Int.ceil_eq_iff, Int.cast_natCast, lt_div_iff₀ (by norm_num),
    div_le_iff₀ (by norm_num)]
  constructor <;> linarith

/-! ## The loop -/

/-- The bytes of a burst that packet `j` carries. -/
def piece (buf : List UInt8) (j : ℕ) : List UInt8 := (buf.drop (504 * j)).take 504

@[simp] theorem length_piece (buf : List UInt8) (j : ℕ) :
    (piece buf j).length = min 504 (buf.length - 504 * j) := by
  rw [piece, List.length_take, List.length_drop]

/-- Packet `j` of a burst that begins at `ts` lies in its place. -/
structure PacketAt (m : ℕ → UInt8) (buf : List UInt8) (CHAN ts j : ℕ) : Prop where
  word0 : Mem.slice m (512 * j) 4 = toBytesLE 4
    (header (decide (j = 0)) (decide (buf.length ≤ 504 * (j + 1))) 0 CHAN (piece buf j).length)
  word1 : Mem.slice m (512 * j + 4) 4 = toBytesLE 4 ((ts + 126 * j) % 2 ^ 32 : ℕ)
  payload : Mem.slice m (512 * j + 8) (piece buf j).length = piece buf j

/-- Packets in front of what is written stay. -/
theorem PacketAt.blit {m : ℕ → UInt8} {buf : List UInt8} {CHAN ts j off : ℕ}
    (h : PacketAt m buf CHAN ts j) (xs : List UInt8) (hoff : 512 * (j + 1) ≤ off) :
    PacketAt (Mem.blit m off xs) buf CHAN ts j where
  word0 := by rw [Mem.slice_blit_of_disjoint (by omega), h.word0]
  word1 := by rw [Mem.slice_blit_of_disjoint (by omega), h.word1]
  payload := by
    have hlen : (piece buf j).length ≤ 504 := by rw [length_piece]; omega
    rw [Mem.slice_blit_of_disjoint (by omega), h.payload]

/-- The packet that a turn writes. -/
theorem packetAt_blit (m : ℕ → UInt8) {buf w0 w1 : List UInt8} {CHAN ts j : ℕ}
    (h0 : w0 = toBytesLE 4 (header (decide (j = 0)) (decide (buf.length ≤ 504 * (j + 1))) 0 CHAN
      (piece buf j).length))
    (h1 : w1 = toBytesLE 4 ((ts + 126 * j) % 2 ^ 32 : ℕ)) :
    PacketAt (Mem.blit (Mem.blit (Mem.blit m (512 * j) w0) (512 * j + 4) w1) (512 * j + 8)
      (piece buf j)) buf CHAN ts j := by
  have hw0 : w0.length = 4 := by rw [h0, length_toBytesLE]
  have hw1 : w1.length = 4 := by rw [h1, length_toBytesLE]
  refine ⟨?_, ?_, Mem.slice_blit _ _ _⟩
  · rw [Mem.slice_blit_of_disjoint (by omega), Mem.slice_blit_of_disjoint (by omega), ← h0, ← hw0]
    exact Mem.slice_blit _ _ _
  · rw [Mem.slice_blit_of_disjoint (by omega), ← h1, ← hw1]
    exact Mem.slice_blit _ _ _

/-- After `pktNum` turns that many packets are complete. -/
structure Packed (buf : List UInt8) (CHAN ts : ℕ) (s : Packing) : Prop where
  numWritten : s.numWritten = min (504 * s.pktNum) buf.length
  count : 504 * s.pktNum < buf.length + 504
  timestamp : s.timestamp = (ts + s.numWritten / 4) % 2 ^ 64
  isStart : s.isStart = decide (s.pktNum = 0)
  packets : ∀ j < s.pktNum, PacketAt s.outData buf CHAN ts j

/-- **A turn** writes the next packet, inside `outData` if the burst fits into 20. -/
theorem Packed.step {buf : List UInt8} {CHAN ts : ℕ} {s : Packing} (hfit : buf.length ≤ 504 * 20)
    (h : Packed buf CHAN ts s) (hmore : s.numWritten < buf.length) :
    ∃ s', packTurn buf CHAN buf.length s = some s' ∧ Packed buf CHAN ts s' ∧
      buf.length - s'.numWritten < buf.length - s.numWritten := by
  obtain ⟨hnum, hcount, htime, hstart, hpackets⟩ := h
  have hnum' : s.numWritten = 504 * s.pktNum := by omega
  have hlen : (if buf.length - s.numWritten < 504 then buf.length - s.numWritten else 504) =
      (piece buf s.pktNum).length := by
    rw [length_piece]
    split_ifs <;> omega
  have hbytes : (buf.drop (2 * (s.numWritten / 2))).take (piece buf s.pktNum).length =
      piece buf s.pktNum := by
    rw [show 2 * (s.numWritten / 2) = 504 * s.pktNum by omega, piece, List.take_eq_take_iff,
      List.length_take, List.length_drop]
    omega
  have hend : decide (buf.length - s.numWritten ≤ 504) =
      decide (buf.length ≤ 504 * (s.pktNum + 1)) := by
    rw [decide_eq_decide]
    omega
  have hroom : 4 * (s.pktNum * 128) + 8 + (piece buf s.pktNum).length ≤ outDataSize ∧
      2 * (s.numWritten / 2) + (piece buf s.pktNum).length ≤ buf.length := by
    rw [length_piece, outDataSize]
    omega
  refine ⟨_, by rw [packTurn]; simp only [hlen]; rw [if_pos hroom], ?_, ?_⟩
  · have hplen := length_piece buf s.pktNum
    refine ⟨?_, ?_, ?_, ?_, ?_⟩
    · simp only []
      omega
    · simp only []
      omega
    · simp only [htime, add64]
      omega
    · simp
    · intro j hj
      simp only [] at hj ⊢
      rw [show 4 * (s.pktNum * 128) = 512 * s.pktNum by ring, hbytes]
      rcases Nat.lt_succ_iff_lt_or_eq.mp hj with hlt | rfl
      · exact (((hpackets j hlt).blit _ (by omega)).blit _ (by omega)).blit _ (by omega)
      · refine packetAt_blit s.outData ?_ ?_
        · rw [hstart, hend]
        · rw [htime, hnum', show 504 * s.pktNum / 4 = 126 * s.pktNum by omega,
            Nat.mod_mod_of_dvd _ (by decide : 2 ^ 32 ∣ 2 ^ 64)]
  · simp only [length_piece]
    omega

/-- The loop packs the whole burst. -/
theorem packLoop {buf : List UInt8} (CHAN : ℕ) {ts : ℕ} (hfit : buf.length ≤ 504 * 20)
    (hts : ts < 2 ^ 64) (outData : ℕ → UInt8) :
    ∃ s, Loop.whileM (fun s => decide (s.numWritten < buf.length))
        (packTurn buf CHAN buf.length) buf.length ⟨outData, 0, ts, true, 0⟩ = some s ∧
      ∀ j < (buf.length + 503) / 504, PacketAt s.outData buf CHAN ts j := by
  have hstart : Packed buf CHAN ts ⟨outData, 0, ts, true, 0⟩ :=
    ⟨by simp, by simp only []; omega, by simp only []; omega, rfl,
      fun j hj => absurd hj (Nat.not_lt_zero j)⟩
  obtain ⟨s, hloop, hpacked, hend⟩ := Loop.whileM_spec (Packed buf CHAN ts)
    (fun s => buf.length - s.numWritten)
    (fun s hs hmore => hs.step hfit (of_decide_eq_true hmore)) hstart (Nat.sub_le _ _)
  refine ⟨s, hloop, fun j hj => hpacked.packets j ?_⟩
  have hdone := of_decide_eq_false hend
  have hnum := hpacked.numWritten
  omega

/-- Packet `i` of those that go to the USB, of 512 bytes each. -/
def packet (usb : List UInt8) (i : ℕ) : Inband := Inband.decode ((usb.drop (512 * i)).take 512)

section Burst

variable {d : Transmitter} (hd : d.m_uTx = true) {buf : List (BitVec 16)}
  (bufs : List (List (BitVec 16))) {len timestamp : ℕ} (isControl : Bool) (h0 : 0 < len)
  (hlen : len ≤ 2520) (hbuf : 2 * len ≤ buf.length) (hts : timestamp < 2 ^ 64)
include hd h0 hlen hbuf hts

/-- The packets of a burst, one for each piece of its bytes. -/
theorem writeSamples_out :
    ∃ usb d', writeSamples d (buf :: bufs) len timestamp isControl = some (usb, len, d') ∧
      usb.length = 512 * ((4 * len + 503) / 504) ∧
      ∀ i < (4 * len + 503) / 504,
        IsOut (packet usb i) (decide (i = 0)) (decide (4 * len ≤ 504 * (i + 1)))
          (channel isControl) ((timestamp + 126 * i) % 2 ^ 32)
          (piece (wireBytes (buf.take (2 * len))) i) := by
  set wire := wireBytes (buf.take (2 * len)) with hwire
  have hbytes : wire.length = 2 * len * 2 := by
    rw [hwire, length_wireBytes, List.length_take, Nat.min_eq_left hbuf]
    ring
  obtain ⟨s, hloop, hpackets⟩ := packLoop (channel isControl)
    (show wire.length ≤ 504 * 20 by omega) hts d.outData
  rw [hbytes] at hloop hpackets
  have hpkts : (numPkts (2 * len * 2)).toNat = (4 * len + 503) / 504 := by
    rw [numPkts_eq (by omega), Int.toNat_natCast, show 2 * len * 2 = 4 * len by ring]
  have hroom : 4 * 128 * ((4 * len + 503) / 504) ≤ outDataSize := by
    rw [outDataSize]
    omega
  refine ⟨Mem.slice s.outData 0 (4 * 128 * ((4 * len + 503) / 504)),
    ⟨d.m_uTx, false, add64 d.samplesWritten len, s.outData⟩, ?_, Mem.length_slice _ _ _, ?_⟩
  · rw [writeSamples, if_neg (by simp [hd])]
    simp only []
    rw [if_neg (by omega)]
    simp only [← hwire, hloop, Option.bind_eq_bind, Option.bind_some, hpkts,
      if_pos hroom]
    rw [show 2 * len * 2 / 2 / 2 = len by omega]
  · intro i hi
    have hp := hpackets i (by omega)
    have hle : (piece wire i).length ≤ 504 := by
      rw [length_piece]
      omega
    have hword0 := hp.word0
    rw [hbytes, show 2 * len * 2 = 4 * len by ring] at hword0
    rw [packet, Mem.take_drop_slice _ _ (by omega), Nat.zero_add]
    exact decode_packet _ _ (channel_cases isControl) hle hword0 hp.word1 hp.payload

end Burst

/-- **Nothing is lost on the way to the USB.**  A burst of at most 2520 samples becomes as many
packets as it has pieces of 504 bytes.  The first packet has the start flag and the last the end
flag; all have the channel, at most 504 bytes, and the time of their first sample; and the payloads
are the samples. -/
theorem writeSamples_packets (d : Transmitter) (hd : d.m_uTx = true) (buf : List (BitVec 16))
    (bufs : List (List (BitVec 16))) (len timestamp : ℕ) (isControl : Bool) (h0 : 0 < len)
    (hlen : len ≤ 2520) (hbuf : 2 * len ≤ buf.length) (hts : timestamp < 2 ^ 64) :
    ∃ usb d', writeSamples d (buf :: bufs) len timestamp isControl = some (usb, len, d') ∧
      usb.length = 512 * ((4 * len + 503) / 504) ∧
      (∀ i < (4 * len + 503) / 504,
        let p := packet usb i
        p.startOfBurst = decide (i = 0) ∧
        p.endOfBurst = decide (i + 1 = (4 * len + 503) / 504) ∧
        p.chan = (if isControl then 0x1f else 0) ∧ p.payloadLen ≤ 504 ∧
        p.timestamp =
          (timestamp + ∑ j ∈ Finset.range i, (packet usb j).payloadLen / 4) % 2 ^ 32 ∧
        p.overrun = false ∧ p.underrun = false ∧ p.dropped = false ∧
        p.rssi = 0 ∧ p.mbz = 0 ∧ p.tag = 0) ∧
      wireSamples ((List.range ((4 * len + 503) / 504)).flatMap fun i => (packet usb i).payload) =
        buf.take (2 * len) := by
  obtain ⟨usb, d', hwrite, husb, hout⟩ :=
    writeSamples_out hd bufs isControl h0 hlen hbuf hts
  have hbytes : (wireBytes (buf.take (2 * len))).length = 4 * len := by
    rw [length_wireBytes, List.length_take, Nat.min_eq_left hbuf]
    ring
  refine ⟨usb, d', hwrite, husb, fun i hi => ?_, ?_⟩
  · have hp := hout i hi
    -- the packets in front of this one are full
    have hfull : ∀ j ∈ Finset.range i, (packet usb j).payloadLen / 4 = 126 := by
      intro j hj
      have hji := Finset.mem_range.mp hj
      rw [(hout j (hji.trans hi)).payloadLen, length_piece, hbytes]
      omega
    refine ⟨hp.startOfBurst, ?_, hp.chan, ?_, ?_, hp.flags.1, hp.flags.2.1, hp.flags.2.2,
      hp.zeros.1, hp.zeros.2.1, hp.zeros.2.2⟩
    · rw [hp.endOfBurst, decide_eq_decide]
      omega
    · rw [hp.payloadLen, length_piece]
      omega
    · rw [hp.timestamp, Finset.sum_congr rfl hfull, Finset.sum_const, Finset.card_range,
        smul_eq_mul, mul_comm 126]
  · have hpayloads : ((List.range ((4 * len + 503) / 504)).flatMap fun i =>
        (packet usb i).payload) = wireBytes (buf.take (2 * len)) := by
      rw [List.flatMap_congr fun i hi => (hout i (List.mem_range.mp hi)).payload]
      exact Mem.flatMap_pieces (by omega)
    rw [hpayloads, wireSamples_wireBytes]

/-- A burst of 127 samples: a full packet and one of a single sample. -/
theorem writeSamples_packets_two :
    ∃ usb d', writeSamples ⟨true, false, 0, fun _ => 0⟩ [List.replicate 254 0xBEEF] 127
        (2 ^ 32 - 1) false = some (usb, 127, d') ∧ usb.length = 512 * 2 := by
  obtain ⟨usb, d', hw, hlen, -⟩ := writeSamples_packets ⟨true, false, 0, fun _ => 0⟩ rfl
    (List.replicate 254 0xBEEF) [] 127 (2 ^ 32 - 1) false (by decide) (by decide)
    (by rw [List.length_replicate]) (by decide)
  exact ⟨usb, d', hw, hlen⟩

end Usrp1
end Device
end OsmoTrx
