import OsmoTrx.Lib.Bytes
import OsmoTrx.Lib.Loop
import OsmoTrx.Lib.Run
import OsmoTrx.Lib.StreamRing
import OsmoTrx.Lib.Word

/-!
# Packets from the USRP1

`USRPDevice::readSamples` takes packets of 512 bytes from the USB until it has the samples that it
was asked for, and keeps them in a ring of `2^20` samples.  A call is split where the receiver
waits for the USB: the packets of one `m_uRx->read` are `packet` events, one for each turn of the
`for` loop, and `again` is the next turn of the `while` loop.  Memory is bytes.  Positions are
computed in 32 bits, as in the source, and every `memcpy` and `memset` reports where it reads and
writes.

* `reconstructed_iff` — the 64-bit times of packets are the true ones as long as no low word wraps
  around before the first read has ended.
* `inBounds_iff` — accesses stay in the ring, the packet and the buffer just if the positions that
  the times give lie in the ring after all.
-/

namespace OsmoTrx
namespace Device
namespace Usrp1

open StreamRing

/-! ## The packet -/

/-- A packet as it lies in `readBuf`. -/
structure RxPacket where
  bytes : ℤ → UInt8

namespace RxPacket

/-- The packet with two words in front of its payload. -/
def make (word0 word1 : ℕ) (payload : ℤ → UInt8) : RxPacket where
  bytes i :=
    if i < 4 then (toBytesLE 4 word0).getD i.toNat 0
    else if i < 8 then (toBytesLE 4 word1).getD (i - 4).toNat 0
    else payload (i - 8)

/-- `usrp_to_host_u32(tmpBuf[k])`. -/
def word (p : RxPacket) (k : ℤ) : ℤ :=
  ofBytesLE [p.bytes (4 * k), p.bytes (4 * k + 1), p.bytes (4 * k + 2), p.bytes (4 * k + 3)]

def chan (p : RxPacket) : ℤ := p.word 0 / 2 ^ 16 % 2 ^ 5

/-- `payloadSz`, in bytes. -/
def payloadSz (p : RxPacket) : ℤ := p.word 0 % 2 ^ 9

/-- `(word0 >> 28) & 0x04`. -/
def underrun (p : RxPacket) : Bool := decide (p.word 0 / 2 ^ 30 % 2 = 1)

def RSSI (p : RxPacket) : ℤ := p.word 0 / 2 ^ 21 % 2 ^ 6

/-- A control reply with the code of a ping. -/
def isPingReply (p : RxPacket) : Bool := decide (p.chan = 0x1f ∧ p.word 2 / 2 ^ 16 = 0x0102)

theorem payloadSz_range (p : RxPacket) : 0 ≤ p.payloadSz ∧ p.payloadSz < 2 ^ 9 :=
  ⟨Int.emod_nonneg _ (by decide), Int.emod_lt_of_pos _ (by decide)⟩

end RxPacket

/-! ## The receiver -/

/-- The variables of a call of `readSamples` that waits for the USB. -/
structure Call where
  timestamp : ℤ
  len : ℤ
  buf : ℤ → UInt8
  underrun : Option Bool
  RSSI : Option ℤ

/-- The part of `USRPDevice` that receives. -/
structure Receiver where
  m_uRx : Bool
  data : ℤ → UInt8
  dataStart : ℤ
  timeStart : ℤ
  timeEnd : ℤ
  isAligned : Bool
  timestampOffset : ℤ
  pingTimestamp : ℤ
  pingOffset : ℤ
  hi32Timestamp : ℤ
  lastPktTimestamp : ℤ
  call : Option Call

/-- `currDataSize`, in values of 16 bits. -/
def currDataSize : ℤ := 2 ^ 21

/-- What `start` sets once it has both USBs.  `new short[currDataSize]` is not cleared, so `data` is
anything. -/
def start (d : Receiver) (data : ℤ → UInt8) : Receiver :=
  { d with
    data := data, dataStart := 0, timeStart := 0, timeEnd := 0, timestampOffset := 0,
    lastPktTimestamp := 0, hi32Timestamp := 0, isAligned := false, call := none }

/-- What copies touch. -/
inductive Region where
  | data
  | packet
  | buf
  deriving DecidableEq

/-- Bytes that a `memcpy` or `memset` touches. -/
structure Access where
  region : Region
  offset : ℤ
  length : ℤ

/-- Bytes of a region in a call for `len` samples. -/
def Region.size (len : ℤ) : Region → ℤ
  | .data => 2 * currDataSize
  | .packet => 512
  | .buf => 4 * len

def Access.InBounds (len : ℤ) (a : Access) : Prop :=
  0 ≤ a.length ∧ (a.length = 0 ∨ 0 ≤ a.offset ∧ a.offset + a.length ≤ a.region.size len)

instance (len : ℤ) (a : Access) : Decidable (a.InBounds len) :=
  inferInstanceAs (Decidable (_ ∧ _))

/-- What a call returns. -/
structure Result where
  ret : ℤ
  buf : ℤ → UInt8
  underrun : Option Bool
  RSSI : Option ℤ

structure Effect where
  next : Receiver
  accesses : List Access
  result : Option Result

/-- Accesses of `memcpy(dst + i, src + j, n)`. -/
def copies (dst : Region) (i : ℤ) (src : Region) (j n : ℤ) : List Access :=
  [⟨dst, i, n⟩, ⟨src, j, n⟩]

/-! ## `readSamples` -/

/-- `hi32Timestamp` after a packet. -/
def nextHi32 (d : Receiver) (p : RxPacket) : ℤ :=
  let incrementHi32 := d.lastPktTimestamp % 2 ^ 32 > p.word 1
  if incrementHi32 ∧ d.timeStart ≠ 0 then u64 (d.hi32Timestamp + 1) else d.hi32Timestamp

/-- `pktTimestamp`; the words that `|` joins have no bits in common. -/
def pktTimestamp (d : Receiver) (p : RxPacket) : ℤ := u64 (nextHi32 d p * 2 ^ 32) + p.word 1

/-- The receiver that has taken note of the time of a packet. -/
def stamp (d : Receiver) (p : RxPacket) : Receiver :=
  { d with hi32Timestamp := nextHi32 d p, lastPktTimestamp := pktTimestamp d p }

/-- `while (cursorStart*2 > currDataSize) cursorStart -= currDataSize/2`. -/
def reduceCursor (cursorStart : ℤ) : ℤ :=
  (Loop.whileM (fun c => decide (u32 (c * 2) > currDataSize))
    (fun c => some (u32 (c - currDataSize / 2))) (2 ^ 12) cursorStart).getD cursorStart

/-- `cursorStart` of the packet that was noted last, in samples. -/
def cursorStart (d : Receiver) : ℤ := u32 (d.lastPktTimestamp - d.timeStart + d.dataStart)

/-- The samples of a packet go to the ring.  `tmpBuf+2+(currDataSize/2-cursorStart)` is behind the
packet if the difference is negative. -/
def store (d : Receiver) (c : Call) (p : RxPacket) : Effect :=
  let cursorStart := reduceCursor (cursorStart d)
  let at2 := u32 (cursorStart * 2)
  let timeEnd := u64 (d.lastPktTimestamp + p.payloadSz / 2 / 2)
  let d := { d with call := some c, timeEnd := if timeEnd > d.timeEnd then timeEnd else d.timeEnd }
  if u32 (at2 + p.payloadSz / 2) > currDataSize then
    let first := u64 ((currDataSize - at2) * 2)
    let second := 8 + 4 * (currDataSize / 2 - cursorStart)
    { next := { d with
        data := memcpy (memcpy d.data (2 * at2) p.bytes 8 first) 0 p.bytes second
          (u64 (p.payloadSz - first)) }
      accesses := copies .data (2 * at2) .packet 8 first ++
        copies .data 0 .packet second (u64 (p.payloadSz - first))
      result := none }
  else
    { next := { d with data := memcpy d.data (2 * at2) p.bytes 8 p.payloadSz }
      accesses := copies .data (2 * at2) .packet 8 p.payloadSz
      result := none }

/-- What a packet of data says about the transmitter and the signal. -/
def noted (c : Call) (p : RxPacket) : Call :=
  { c with
    underrun := if p.underrun then c.underrun.map fun _ => true else c.underrun
    RSSI := c.RSSI.map fun _ => p.RSSI }

/-- `timestampOffset` after a ping reply. -/
def newOffset (d : Receiver) (p : RxPacket) : ℤ :=
  u64 (pktTimestamp d p - d.pingTimestamp + d.pingOffset)

/-- A turn of the `for` loop. -/
def receive (d₀ : Receiver) (c : Call) (p : RxPacket) : Effect :=
  let d := stamp d₀ p
  if p.chan = 0x1f then
    if p.isPingReply then
      let offset := newOffset d₀ p
      let timestamp := u64 (u64 (c.timestamp - d.timestampOffset) + offset)
      ⟨{ d with timestampOffset := offset, isAligned := true,
                call := some { c with timestamp := timestamp } }, [], none⟩
    else ⟨d, [], none⟩
  else if p.chan ≠ 0 then ⟨d, [], none⟩
  else if d.isAligned = false then ⟨{ d with call := some (noted c p) }, [], none⟩
  else store d (noted c p) p

/-- `bufStart`, in samples. -/
def bufStart (d : Receiver) (c : Call) : ℤ := u32 (d.dataStart + u64 (c.timestamp - d.timeStart))

/-- The samples that were asked for go to the caller, and their places are cleared. -/
def finish (d : Receiver) (c : Call) : Effect :=
  let start := bufStart d c
  let at2 := u32 (start * 2)
  let d' := { d with
    dataStart := u32 (start + c.len) % (currDataSize / 2)
    timeStart := u64 (c.timestamp + c.len)
    call := none }
  if u32 (start + c.len) < currDataSize / 2 then
    let n := u64 (c.len * 2 * 2)
    { next := { d' with data := memset d.data (2 * at2) 0 n }
      accesses := copies .buf 0 .data (2 * at2) n ++ [⟨.data, 2 * at2, n⟩]
      result := some ⟨c.len, memcpy c.buf 0 d.data (2 * at2) n, c.underrun, c.RSSI⟩ }
  else
    let firstLength := u32 (currDataSize / 2 - start)
    let n1 := u32 (firstLength * 2) * 2
    let n2 := u32 (u32 (c.len - firstLength) * 2) * 2
    let data1 := memset d.data (2 * at2) 0 n1
    { next := { d' with data := memset data1 0 0 n2 }
      accesses := copies .buf 0 .data (2 * at2) n1 ++ [⟨.data, 2 * at2, n1⟩] ++
        copies .buf n1 .data 0 n2 ++ [⟨.data, 0, n2⟩]
      result := some ⟨c.len, memcpy (memcpy c.buf 0 d.data (2 * at2) n1) n1 data1 0 n2,
        c.underrun, c.RSSI⟩ }

/-- `numSamplesNeeded`, which ends the `while` loop unless it is positive. -/
def numSamplesNeeded (d : Receiver) (c : Call) : ℤ := i32 (u64 (c.timestamp + c.len - d.timeEnd))

/-- A turn of the `while` loop, up to the USB. -/
def turn (d : Receiver) (c : Call) : Effect :=
  if numSamplesNeeded d c ≤ 0 then finish d c else ⟨{ d with call := some c }, [], none⟩

/-- `readSamples`, up to the USB.  `underrun` and `RSSI` are `none` for null pointers. -/
def readSamples (d : Receiver) (timestamp len : ℤ) (buf : ℤ → UInt8) (underrun : Option Bool)
    (RSSI : Option ℤ) : Effect :=
  if d.m_uRx = false then ⟨d, [], some ⟨0, buf, underrun, RSSI⟩⟩
  else
    let timestamp := u64 (timestamp + d.timestampOffset)
    if u64 (timestamp + len) < d.timeStart then
      let n := u64 (len * 2 * 2)
      ⟨d, [⟨.buf, 0, n⟩], some ⟨len, memset buf 0 0 n, underrun, RSSI⟩⟩
    else turn d ⟨timestamp, len, buf, underrun.map fun _ => false, RSSI⟩

/-- What happens to the receiver.  `updateAlignment` sends a ping for a time. -/
inductive Event where
  | call (timestamp len : ℤ) (buf : ℤ → UInt8) (underrun : Option Bool) (RSSI : Option ℤ)
  | packet (p : RxPacket)
  | again
  | updateAlignment (timestamp : ℤ) (written : Bool)

/-- A call begins if none is under way, and takes packets while one is. -/
def effect (d : Receiver) : Event → Effect
  | .call timestamp len buf underrun RSSI =>
    if d.call.isSome then ⟨d, [], none⟩ else readSamples d timestamp len buf underrun RSSI
  | .packet p => d.call.elim ⟨d, [], none⟩ fun c => receive d c p
  | .again => d.call.elim ⟨d, [], none⟩ fun c => turn d c
  | .updateAlignment timestamp written =>
    ⟨if written then { d with pingTimestamp := timestamp } else d, [], none⟩

def readStep (d : Receiver) (e : Event) : Receiver := (effect d e).next

/-- The packet that an event delivers to a call. -/
def delivered (d : Receiver) : Event → Option RxPacket
  | .packet p => if d.call.isSome then some p else none
  | _ => none

/-! ## What stores and reads leave alone -/

/-- A packet that is stored changes the ring and the time that it reaches to. -/
theorem store_frame (d : Receiver) (c : Call) (p : RxPacket) :
    ∃ data timeEnd,
      (store d c p).next = { d with data := data, timeEnd := timeEnd, call := some c } ∧
      (store d c p).result = none := by
  unfold store
  simp only []
  split_ifs <;> exact ⟨_, _, rfl, rfl⟩

/-- A read that ends changes the ring and moves on. -/
theorem finish_frame (d : Receiver) (c : Call) :
    ∃ data, (finish d c).next =
      { d with
        data := data
        dataStart := u32 (bufStart d c + c.len) % (currDataSize / 2)
        timeStart := u64 (c.timestamp + c.len)
        call := none } := by
  unfold finish
  simp only []
  split_ifs <;> exact ⟨_, rfl⟩

/-! ## The times of packets -/

/-- What an event leaves of the times of packets. -/
structure SameClock (d d' : Receiver) : Prop where
  hi32Timestamp : d'.hi32Timestamp = d.hi32Timestamp
  lastPktTimestamp : d'.lastPktTimestamp = d.lastPktTimestamp

theorem sameClock_refl (d : Receiver) : SameClock d d := ⟨rfl, rfl⟩

theorem sameClock_store (d : Receiver) (c : Call) (p : RxPacket) :
    SameClock d (store d c p).next := by
  obtain ⟨data, timeEnd, hnext, -⟩ := store_frame d c p
  rw [hnext]
  exact ⟨rfl, rfl⟩

theorem sameClock_receive (d : Receiver) (c : Call) (p : RxPacket) :
    SameClock (stamp d p) (receive d c p).next := by
  unfold receive
  simp only []
  split_ifs
  · exact ⟨rfl, rfl⟩
  · exact ⟨rfl, rfl⟩
  · exact ⟨rfl, rfl⟩
  · exact ⟨rfl, rfl⟩
  · exact sameClock_store _ _ _

theorem sameClock_finish (d : Receiver) (c : Call) : SameClock d (finish d c).next := by
  obtain ⟨data, hnext⟩ := finish_frame d c
  rw [hnext]
  exact ⟨rfl, rfl⟩

theorem sameClock_turn (d : Receiver) (c : Call) : SameClock d (turn d c).next := by
  unfold turn
  split_ifs
  · exact sameClock_finish d c
  · exact ⟨rfl, rfl⟩

theorem sameClock_readSamples (d : Receiver) (timestamp len : ℤ) (buf : ℤ → UInt8)
    (underrun : Option Bool) (RSSI : Option ℤ) :
    SameClock d (readSamples d timestamp len buf underrun RSSI).next := by
  unfold readSamples
  simp only []
  split_ifs
  · exact sameClock_refl d
  · exact sameClock_refl d
  · exact sameClock_turn d _

/-- **Times are noted** as packets are delivered. -/
theorem sameClock_readStep (d : Receiver) (e : Event) :
    SameClock ((delivered d e).elim d (stamp d)) (readStep d e) := by
  unfold readStep
  cases e with
  | call timestamp len buf underrun RSSI =>
    simp only [delivered, effect, Option.elim_none]
    split_ifs
    · exact sameClock_refl d
    · exact sameClock_readSamples d timestamp len buf underrun RSSI
  | packet p =>
    simp only [delivered, effect]
    cases d.call with
    | none => exact sameClock_refl d
    | some c => exact sameClock_receive d c p
  | again =>
    simp only [delivered, effect, Option.elim_none]
    cases d.call with
    | none => exact sameClock_refl d
    | some c => exact sameClock_turn d c
  | updateAlignment timestamp written =>
    simp only [delivered, effect, Option.elim_none]
    split_ifs <;> exact ⟨rfl, rfl⟩

/-- A receiver beside the true time of the packet that was delivered last. -/
abbrev Timed := Receiver × ℤ

/-- An event, with the true time of its packet. -/
abbrev TimedEvent := Event × ℤ

def timedStep (t : Timed) (e : TimedEvent) : Timed :=
  (readStep t.1 e.1, if (delivered t.1 e.1).isSome then e.2 else t.2)

/-- Packets carry the low words of times that do not go back, and never on by `2^32`. -/
def TrueTime (t : Timed) (e : TimedEvent) : Prop :=
  ∀ p ∈ delivered t.1 e.1,
    t.2 ≤ e.2 ∧ e.2 < t.2 + 2 ^ 32 ∧ e.2 < 2 ^ 64 ∧ p.word 1 = e.2 % 2 ^ 32

/-- The time that the receiver makes of a packet is the true one. -/
def Reconstructed (t : Timed) (e : TimedEvent) : Prop :=
  ∀ p ∈ delivered t.1 e.1, pktTimestamp t.1 p = e.2

/-- No low word wraps around while `timeStart` is 0. -/
def WrapsCounted (t : Timed) (e : TimedEvent) : Prop :=
  ∀ p ∈ delivered t.1 e.1, t.1.timeStart = 0 → e.2 / 2 ^ 32 = t.2 / 2 ^ 32

instance (t : Timed) (e : TimedEvent) : Decidable (TrueTime t e) :=
  inferInstanceAs (Decidable (∀ p ∈ delivered t.1 e.1, _))

instance (t : Timed) (e : TimedEvent) : Decidable (Reconstructed t e) :=
  inferInstanceAs (Decidable (∀ p ∈ delivered t.1 e.1, _))

instance (t : Timed) (e : TimedEvent) : Decidable (WrapsCounted t e) :=
  inferInstanceAs (Decidable (∀ p ∈ delivered t.1 e.1, _))

/-- The high word and the time of the last packet are the true ones. -/
structure Synchronous (t : Timed) : Prop where
  range : 0 ≤ t.2 ∧ t.2 < 2 ^ 64
  hi32Timestamp : t.1.hi32Timestamp = t.2 / 2 ^ 32
  lastPktTimestamp : t.1.lastPktTimestamp = t.2

theorem synchronous_start (d : Receiver) (data : ℤ → UInt8) : Synchronous (start d data, 0) :=
  ⟨⟨le_rfl, by norm_num⟩, rfl, rfl⟩

/-- A packet's time is right if its wrap is counted. -/
theorem pktTimestamp_eq_iff {d : Receiver} {last τ : ℤ} {p : RxPacket}
    (h : Synchronous (d, last)) (hlo : last ≤ τ) (hhi : τ < last + 2 ^ 32) (hmax : τ < 2 ^ 64)
    (hp : p.word 1 = τ % 2 ^ 32) :
    pktTimestamp d p = τ ↔ (d.timeStart = 0 → τ / 2 ^ 32 = last / 2 ^ 32) := by
  have hrange := h.range
  have hhi32 := h.hi32Timestamp
  have hlast := h.lastPktTimestamp
  simp only at hrange hhi32 hlast
  rw [pktTimestamp, nextHi32, hp, hhi32, hlast]
  simp only [u64]
  split_ifs with hbump
  · constructor
    · intro _ h0
      exact absurd h0 hbump.2
    · intro _
      omega
  · constructor
    · intro heq _
      omega
    · intro hsame
      by_cases h0 : d.timeStart = 0
      · have := hsame h0
        omega
      · have hword : ¬ last % 2 ^ 32 > τ % 2 ^ 32 := fun hgt => hbump ⟨hgt, h0⟩
        omega

/-- A time that is right leaves the high word right. -/
theorem nextHi32_eq {d : Receiver} {last τ : ℤ} {p : RxPacket} (h : Synchronous (d, last))
    (hlo : last ≤ τ) (hhi : τ < last + 2 ^ 32) (hmax : τ < 2 ^ 64) (hp : p.word 1 = τ % 2 ^ 32)
    (heq : pktTimestamp d p = τ) : nextHi32 d p = τ / 2 ^ 32 := by
  have hrange := h.range
  have hhi32 := h.hi32Timestamp
  simp only at hrange hhi32
  have hword : 0 ≤ nextHi32 d p ∧ nextHi32 d p < 2 ^ 32 := by
    rw [nextHi32, hhi32]
    simp only [u64]
    split_ifs with hbump
    · have hgt := hbump.1
      rw [hp, h.lastPktTimestamp] at hgt
      simp only at hgt
      omega
    · omega
  rw [pktTimestamp, hp, u64] at heq
  omega

theorem Synchronous.step {t : Timed} {e : TimedEvent} (h : Synchronous t) (hok : TrueTime t e)
    (heq : Reconstructed t e) : Synchronous (timedStep t e) := by
  have hclock := sameClock_readStep t.1 e.1
  cases hp : delivered t.1 e.1 with
  | none =>
    rw [hp] at hclock
    refine ⟨?_, ?_, ?_⟩ <;> simp only [timedStep, hp, Option.isSome_none, Bool.false_eq_true,
      if_false]
    · exact h.range
    · exact hclock.hi32Timestamp.trans h.hi32Timestamp
    · exact hclock.lastPktTimestamp.trans h.lastPktTimestamp
  | some p =>
    obtain ⟨hlo, hhi, hmax, hword⟩ := hok p hp
    have htime := heq p hp
    rw [hp] at hclock
    refine ⟨?_, ?_, ?_⟩ <;> simp only [timedStep, hp, Option.isSome_some, if_true]
    · exact ⟨h.range.1.trans hlo, hmax⟩
    · exact hclock.hi32Timestamp.trans (nextHi32_eq h hlo hhi hmax hword htime)
    · exact hclock.lastPktTimestamp.trans htime

/-- **Times are unwrapped.**  Whatever the pattern of reads, the 64-bit times of all packets since
`start` are the true ones, if none whose low word has wrapped around is taken while `timeStart` is
0, and only then. -/
theorem reconstructed_iff (d : Receiver) (data : ℤ → UInt8) (es : List TimedEvent)
    (h : Run.Along timedStep TrueTime (start d data, 0) es) :
    Run.Along timedStep Reconstructed (start d data, 0) es ↔
      Run.Along timedStep WrapsCounted (start d data, 0) es := by
  refine Run.along_congr_of_invariant (fun t e => Synchronous.step) (fun t e ht hok => ?_)
    (synchronous_start d data) h
  refine forall_congr' fun p => forall_congr' fun hp => ?_
  obtain ⟨hlo, hhi, hmax, hword⟩ := hok p hp
  exact pktTimestamp_eq_iff ht hlo hhi hmax hword

/-- A receiver for one sample a symbol. -/
def sps1 : Receiver where
  m_uRx := true
  data := fun _ => 0
  dataStart := 0
  timeStart := 0
  timeEnd := 0
  isAligned := false
  timestampOffset := 0
  pingTimestamp := 0
  pingOffset := 272
  hi32Timestamp := 0
  lastPktTimestamp := 0
  call := none

/-- A ping reply. -/
def pingReply (word1 : ℕ) : RxPacket :=
  .make (0x1f * 2 ^ 16) word1 fun i => if i = 3 then 0x01 else if i = 2 then 0x02 else 0

/-- A packet with one sample, all of whose bytes are `a`. -/
def sample (word1 : ℕ) (a : UInt8) : RxPacket := .make 4 word1 fun _ => a

/-- A read of one sample. -/
def readOne (timestamp : ℤ) : Event := .call timestamp 1 (fun _ => 0) none none

/-- After the first read a wrap is counted. -/
theorem reconstructed_after_read :
    Run.Along timedStep Reconstructed (start sps1 fun _ => 0, 0)
      [(readOne 0, 0), (.packet (pingReply 0), 0), (.again, 0), (.packet (sample 272 1), 272),
        (.again, 0), (readOne 1, 0), (.packet (sample (2 ^ 32 - 1) 1), 2 ^ 32 - 1),
        (.packet (sample 10 1), 2 ^ 32 + 10)] := by
  refine (reconstructed_iff _ _ _ ?_).mpr ?_
  · decide +kernel
  · decide +kernel

/-- A wrap before the first read has ended is not counted. -/
theorem wrap_before_read :
    ¬ ∀ (d : Receiver) (data : ℤ → UInt8) (es : List TimedEvent),
      Run.Along timedStep TrueTime (start d data, 0) es →
        Run.Along timedStep Reconstructed (start d data, 0) es := by
  intro h
  have hfalse := h sps1 (fun _ => 0)
    [(readOne 0, 0), (.packet (sample (2 ^ 32 - 1) 1), 2 ^ 32 - 1), (.again, 0),
      (.packet (sample 10 1), 2 ^ 32 + 10)] (by decide +kernel)
  revert hfalse
  decide +kernel

/-! ## What an event does -/

/-- The call whose `while` loop takes a turn. -/
def turning (d : Receiver) : Event → Option Call
  | .call timestamp len buf underrun RSSI =>
    let timestamp := u64 (timestamp + d.timestampOffset)
    if d.call.isSome ∨ d.m_uRx = false ∨ u64 (timestamp + len) < d.timeStart then none
    else some ⟨timestamp, len, buf, underrun.map fun _ => false, RSSI⟩
  | .again => d.call
  | _ => none

/-- The packet whose samples go to the ring. -/
def stored (d : Receiver) (e : Event) : Option RxPacket :=
  (delivered d e).filter fun p => decide (p.chan = 0) && d.isAligned

/-- The samples that a call asks for, in the call that an event belongs to. -/
def callLen (d : Receiver) : Event → ℤ
  | .call _ len _ _ _ => len
  | _ => d.call.elim 0 Call.len

/-- A call goes on, with a time that only a new offset changes. -/
structure SameCall (offset offset' : ℤ) (c c' : Call) : Prop where
  len : c'.len = c.len
  buf : c'.buf = c.buf
  timestamp : offset' = offset → c'.timestamp = u64 c.timestamp ∨ c'.timestamp = c.timestamp

/-- An event that leaves the ring alone. -/
structure Quiet (d : Receiver) (e : Event) : Prop where
  data : (readStep d e).data = d.data
  dataStart : (readStep d e).dataStart = d.dataStart
  timeStart : (readStep d e).timeStart = d.timeStart
  call : ∀ c' ∈ (readStep d e).call, ∃ c ∈ d.call,
    SameCall d.timestampOffset (readStep d e).timestampOffset c c'

/-- A call for samples that have gone. -/
def Early (d : Receiver) : Event → Prop
  | .call timestamp len _ _ _ =>
    d.call = none ∧ u64 (u64 (timestamp + d.timestampOffset) + len) < d.timeStart
  | _ => False

/-- **An event** stores a packet, or takes a turn of the `while` loop, or leaves the ring alone. -/
inductive Outcome (d : Receiver) (e : Event) : Prop where
  | stores (c : Call) (p : RxPacket) (hc : d.call = some c) (hp : stored d e = some p)
      (ht : turning d e = none) (heff : effect d e = store (stamp d p) (noted c p) p)
  | turns (c : Call) (hp : stored d e = none) (hc : turning d e = some c)
      (heff : effect d e = turn d c)
  | quiet (hp : stored d e = none) (hc : turning d e = none) (hquiet : Quiet d e)
      (hacc : (effect d e).accesses = [] ∨
        (effect d e).accesses = [⟨.buf, 0, u64 (callLen d e * 2 * 2)⟩])
      (hres : ∀ r ∈ (effect d e).result, r.ret = 0 ∨ Early d e)

theorem Outcome.of_eq {d : Receiver} {e : Event} (hp : stored d e = none) (hc : turning d e = none)
    (hquiet : Quiet d e) {d' : Receiver} (heff : effect d e = ⟨d', [], none⟩) : Outcome d e := by
  refine .quiet hp hc hquiet (Or.inl ?_) fun r hr => ?_
  · rw [heff]
  · rw [heff] at hr
    cases hr

theorem quiet_of_eq {d : Receiver} {e : Event} (h : readStep d e = d) : Quiet d e := by
  refine ⟨by rw [h], by rw [h], by rw [h], fun c hc => ⟨c, ?_, rfl, rfl, fun _ => Or.inr rfl⟩⟩
  rwa [h] at hc

theorem outcome_call (d : Receiver) (timestamp len : ℤ) (buf : ℤ → UInt8) (underrun : Option Bool)
    (RSSI : Option ℤ) : Outcome d (.call timestamp len buf underrun RSSI) := by
  by_cases hcall : d.call.isSome
  · have heff : effect d (.call timestamp len buf underrun RSSI) = ⟨d, [], none⟩ := if_pos hcall
    exact .of_eq rfl (by simp [turning, hcall]) (quiet_of_eq (by rw [readStep, heff])) heff
  · by_cases hrx : d.m_uRx = false
    · have heff : effect d (.call timestamp len buf underrun RSSI) =
          ⟨d, [], some ⟨0, buf, underrun, RSSI⟩⟩ := by simp [effect, hcall, readSamples, hrx]
      refine .quiet rfl (by simp [turning, hrx]) (quiet_of_eq ?_) (Or.inl ?_) fun r hr => ?_
      · rw [readStep, heff]
      · rw [heff]
      · rw [heff] at hr
        exact Or.inl (by rw [← Option.some.inj hr])
    · by_cases hearly : u64 (u64 (timestamp + d.timestampOffset) + len) < d.timeStart
      · have heff : effect d (.call timestamp len buf underrun RSSI) =
            ⟨d, [⟨.buf, 0, u64 (len * 2 * 2)⟩],
              some ⟨len, memset buf 0 0 (u64 (len * 2 * 2)), underrun, RSSI⟩⟩ := by
          simp [effect, hcall, readSamples, hrx, hearly]
        refine .quiet rfl (by simp [turning, hearly]) (quiet_of_eq ?_) (Or.inr ?_) fun r _ => ?_
        · rw [readStep, heff]
        · rw [heff, callLen]
        · exact Or.inr ⟨Option.not_isSome_iff_eq_none.mp hcall, hearly⟩
      · refine .turns _ rfl (by simp only [turning]; rw [if_neg (by simp [hcall, hrx, hearly])]) ?_
        simp [effect, hcall, readSamples, hrx, hearly]

theorem u64_sub_add (a b : ℤ) : u64 (u64 (a - b) + b) = u64 a := by
  rw [u64, u64, Int.emod_add_emod, sub_add_cancel, u64]

/-- A turn of the `for` loop that stores nothing. -/
theorem receive_quiet {d : Receiver} {c : Call} {p : RxPacket} (hcall : d.call = some c)
    (h : ¬ (p.chan = 0 ∧ d.isAligned = true)) :
    ∃ d' c', receive d c p = ⟨d', [], none⟩ ∧ d'.data = d.data ∧ d'.dataStart = d.dataStart ∧
      d'.timeStart = d.timeStart ∧ d'.call = some c' ∧
      SameCall d.timestampOffset d'.timestampOffset c c' := by
  unfold receive
  simp only []
  by_cases hctl : p.chan = 0x1f
  · rw [if_pos hctl]
    split_ifs
    · refine ⟨_, _, rfl, rfl, rfl, rfl, rfl, rfl, rfl, fun hsame => Or.inl ?_⟩
      simp only [] at hsame
      simp only [hsame]
      exact u64_sub_add _ _
    · exact ⟨_, c, rfl, rfl, rfl, rfl, hcall, rfl, rfl, fun _ => Or.inr rfl⟩
  · rw [if_neg hctl]
    by_cases hchan : p.chan = 0
    · have hal : (stamp d p).isAligned = false :=
        Bool.eq_false_iff.mpr fun hal => h ⟨hchan, hal⟩
      rw [if_neg (not_not.mpr hchan), if_pos hal]
      exact ⟨_, _, rfl, rfl, rfl, rfl, rfl, rfl, rfl, fun _ => Or.inr rfl⟩
    · rw [if_pos hchan]
      exact ⟨_, c, rfl, rfl, rfl, rfl, hcall, rfl, rfl, fun _ => Or.inr rfl⟩

theorem outcome_packet (d : Receiver) (p : RxPacket) : Outcome d (.packet p) := by
  cases hcall : d.call with
  | none =>
    have heff : effect d (.packet p) = ⟨d, [], none⟩ := by simp [effect, hcall]
    exact .of_eq (by simp [stored, delivered, hcall]) rfl
      (quiet_of_eq (by rw [readStep, heff])) heff
  | some c =>
    have heff : effect d (.packet p) = receive d c p := by simp [effect, hcall]
    by_cases hstore : p.chan = 0 ∧ d.isAligned = true
    · have hal : (stamp d p).isAligned = true := hstore.2
      refine .stores c p hcall (by simp [stored, delivered, hcall, hstore]) rfl ?_
      simp [heff, receive, hstore.1, hal]
    · obtain ⟨d', c', hrec, hdata, hstart, htime, hcall', hsame⟩ := receive_quiet hcall hstore
      rw [hrec] at heff
      have hstep : readStep d (.packet p) = d' := by rw [readStep, heff]
      refine .of_eq ?_ rfl ⟨?_, ?_, ?_, fun c'' hc'' => ⟨c, hcall, ?_⟩⟩ heff
      · simp only [stored, delivered, hcall, Option.isSome_some, if_true]
        exact Option.filter_eq_none_iff.mpr (by simpa using hstore)
      · rw [hstep, hdata]
      · rw [hstep, hstart]
      · rw [hstep, htime]
      · rw [hstep, hcall'] at hc''
        rw [← Option.some.inj hc'', hstep]
        exact hsame

theorem outcome (d : Receiver) (e : Event) : Outcome d e := by
  cases e with
  | call timestamp len buf underrun RSSI => exact outcome_call d timestamp len buf underrun RSSI
  | packet p => exact outcome_packet d p
  | again =>
    cases hcall : d.call with
    | none =>
      have heff : effect d .again = ⟨d, [], none⟩ := by simp [effect, hcall]
      exact .of_eq rfl hcall (quiet_of_eq (by rw [readStep, heff])) heff
    | some c => exact .turns c rfl hcall (by simp [effect, hcall])
  | updateAlignment timestamp written =>
    have hkeep : ∀ d' : Receiver, d' = { d with pingTimestamp := d'.pingTimestamp } →
        effect d (.updateAlignment timestamp written) = ⟨d', [], none⟩ →
        Outcome d (.updateAlignment timestamp written) := by
      intro d' hd' heff
      have hstep : readStep d (.updateAlignment timestamp written) = d' := by rw [readStep, heff]
      refine .of_eq rfl rfl ⟨?_, ?_, ?_, fun c hc => ⟨c, ?_, rfl, rfl, fun _ => Or.inr rfl⟩⟩ heff
      · rw [hstep, hd']
      · rw [hstep, hd']
      · rw [hstep, hd']
      · rwa [hstep, hd'] at hc
    cases written with
    | false => exact hkeep d rfl rfl
    | true => exact hkeep _ rfl rfl

/-! ## Accesses -/

/-- What an event touches lies in the ring, the packet and the buffer. -/
def InBounds (d : Receiver) (e : Event) : Prop :=
  ∀ a ∈ (effect d e).accesses, a.InBounds (callLen d e)

instance (d : Receiver) (e : Event) : Decidable (InBounds d e) :=
  inferInstanceAs (Decidable (∀ a ∈ (effect d e).accesses, _))

/-- A place in the ring, the end instead of the beginning after a whole turn. -/
def ringPlace (c : ℤ) : ℤ := if c % 2 ^ 31 = 0 then 0 else (c % 2 ^ 31 - 1) % 2 ^ 20 + 1

/-- A payload lies in its packet, and its place in the ring, or it goes around the end of the ring
and the top bit of its distance from `data` is clear. -/
def PacketFits (d : Receiver) (p : RxPacket) : Prop :=
  let c := (p.word 1 - d.timeStart + d.dataStart) % 2 ^ 32
  p.payloadSz ≤ 504 ∧ (4 * ringPlace c + p.payloadSz ≤ 2 ^ 22 ∨
    2 ^ 21 < 2 * ringPlace c + p.payloadSz / 2 ∧ c < 2 ^ 31)

/-- The samples asked for begin in the ring, up to the top bit of their distance from `data`, which
is clear unless they reach the end of the ring. -/
def ReadFits (d : Receiver) (c : Call) : Prop :=
  let b := (d.dataStart + c.timestamp - d.timeStart) % 2 ^ 32
  b % 2 ^ 31 ≤ 2 ^ 20 ∧ (b < 2 ^ 31 ∨ 2 ^ 20 ≤ b % 2 ^ 31 + c.len)

/-- A packet that is stored fits, and so does a read that ends. -/
def Fits (d : Receiver) (e : Event) : Prop :=
  (∀ p ∈ stored d e, PacketFits d p) ∧
    ∀ c ∈ turning d e, numSamplesNeeded d c ≤ 0 → ReadFits d c

instance (d : Receiver) (e : Event) : Decidable (Fits d e) :=
  inferInstanceAs (Decidable ((∀ p ∈ stored d e, _ ∧ (_ ∨ _)) ∧
    ∀ c ∈ turning d e, numSamplesNeeded d c ≤ 0 → _ ∧ (_ ∨ _)))

/-- `0 < len < 2^20` in every call. -/
def LenOk : Event → Prop
  | .call _ len _ _ _ => 0 < len ∧ len < 2 ^ 20
  | _ => True

instance : DecidablePred LenOk
  | .call _ len _ _ _ => inferInstanceAs (Decidable (0 < len ∧ len < 2 ^ 20))
  | .packet _ => .isTrue trivial
  | .again => .isTrue trivial
  | .updateAlignment _ _ => .isTrue trivial

/-- The loop ends, with the place that it looks for. -/
theorem reduceCursor_eq {c : ℤ} (h0 : 0 ≤ c) (hc : c < 2 ^ 32) :
    reduceCursor c = c - c % 2 ^ 31 + ringPlace c := by
  have hturn : ∀ r, (0 ≤ r ∧ r < 2 ^ 32 ∧ r / 2 ^ 31 = c / 2 ^ 31 ∧ ringPlace r = ringPlace c) →
      decide (u32 (r * 2) > currDataSize) = true →
      ∃ r', some (u32 (r - currDataSize / 2)) = some r' ∧
        (0 ≤ r' ∧ r' < 2 ^ 32 ∧ r' / 2 ^ 31 = c / 2 ^ 31 ∧ ringPlace r' = ringPlace c) ∧
        (r' / 2 ^ 20).toNat < (r / 2 ^ 20).toNat := by
    rintro r ⟨hr0, hr, htop, hplace⟩ hmore
    have hmore' := of_decide_eq_true hmore
    rw [currDataSize, u32] at hmore'
    have heq : u32 (r - currDataSize / 2) = r - 2 ^ 20 := by
      rw [currDataSize, u32]
      omega
    refine ⟨_, rfl, ?_⟩
    rw [heq]
    refine ⟨⟨by omega, by omega, by omega, ?_⟩, by omega⟩
    rw [← hplace, ringPlace, ringPlace, if_neg (by omega), if_neg (by omega)]
    omega
  have hfuel : (c / 2 ^ 20).toNat ≤ 2 ^ 12 := by omega
  obtain ⟨r, hloop, ⟨hr0, hr, htop, hplace⟩, hend⟩ :=
    Loop.whileM_spec _ _ hturn ⟨h0, hc, rfl, rfl⟩ hfuel
  have hend' := of_decide_eq_false hend
  rw [currDataSize, u32] at hend'
  rw [reduceCursor, hloop, Option.getD_some, ← hplace, ringPlace]
  split_ifs <;> omega

theorem ringPlace_range (c : ℤ) : 0 ≤ ringPlace c ∧ ringPlace c ≤ 2 ^ 20 := by
  unfold ringPlace
  split_ifs <;> omega

/-- The high word does not count in a position. -/
theorem cursorStart_stamp (d : Receiver) (p : RxPacket) :
    cursorStart (stamp d p) = (p.word 1 - d.timeStart + d.dataStart) % 2 ^ 32 := by
  simp only [cursorStart, stamp, pktTimestamp, u64, u32]
  omega

theorem inBounds_copies {len : ℤ} {dst src : Region} {i j n : ℤ} :
    (∀ a ∈ copies dst i src j n, a.InBounds len) ↔
      (Access.mk dst i n).InBounds len ∧ (Access.mk src j n).InBounds len := by
  simp [copies]

theorem store_inBounds_iff (d : Receiver) (c : Call) (p : RxPacket) (len : ℤ) :
    (∀ a ∈ (store (stamp d p) c p).accesses, a.InBounds len) ↔ PacketFits d p := by
  have hcur := cursorStart_stamp d p
  have hc0 := Int.emod_nonneg (p.word 1 - d.timeStart + d.dataStart)
    (show (2 ^ 32 : ℤ) ≠ 0 by decide)
  have hc := Int.emod_lt_of_pos (p.word 1 - d.timeStart + d.dataStart)
    (show (0 : ℤ) < 2 ^ 32 by decide)
  obtain ⟨hp0, hp⟩ := p.payloadSz_range
  rw [PacketFits]
  generalize (p.word 1 - d.timeStart + d.dataStart) % 2 ^ 32 = cur at hcur hc0 hc ⊢
  obtain ⟨hplace0, hplace⟩ := ringPlace_range cur
  have hred := reduceCursor_eq hc0 hc
  have hat : u32 (reduceCursor cur * 2) = 2 * ringPlace cur := by
    rw [hred, u32]
    omega
  have hsum : u32 (2 * ringPlace cur + p.payloadSz / 2) = 2 * ringPlace cur + p.payloadSz / 2 :=
    u32_eq_self (by omega) (by omega)
  simp only [store, hcur, hat, hsum, currDataSize]
  by_cases hwrap : 2 * ringPlace cur + p.payloadSz / 2 > 2 ^ 21
  · have hfirst : u64 ((2 ^ 21 - 2 * ringPlace cur) * 2) = 2 ^ 22 - 4 * ringPlace cur := by
      rw [u64_eq_self (by omega) (by omega)]
      ring
    have hsecond : u64 (p.payloadSz - (2 ^ 22 - 4 * ringPlace cur)) =
        p.payloadSz - (2 ^ 22 - 4 * ringPlace cur) := u64_eq_self (by omega) (by omega)
    simp only [if_pos hwrap, hfirst, hsecond, hred]
    rw [List.forall_mem_append, inBounds_copies, inBounds_copies]
    simp only [Access.InBounds, Region.size, currDataSize]
    omega
  · simp only [if_neg hwrap]
    rw [inBounds_copies]
    simp only [Access.InBounds, Region.size, currDataSize]
    omega

theorem finish_inBounds_iff {d : Receiver} {c : Call} (h0 : 0 < c.len) (hlen : c.len < 2 ^ 20) :
    (∀ a ∈ (finish d c).accesses, a.InBounds c.len) ↔ ReadFits d c := by
  have hstart : bufStart d c = (d.dataStart + c.timestamp - d.timeStart) % 2 ^ 32 := by
    rw [bufStart, u32, u64]
    omega
  have hb0 := Int.emod_nonneg (d.dataStart + c.timestamp - d.timeStart)
    (show (2 ^ 32 : ℤ) ≠ 0 by decide)
  have hb := Int.emod_lt_of_pos (d.dataStart + c.timestamp - d.timeStart)
    (show (0 : ℤ) < 2 ^ 32 by decide)
  rw [ReadFits]
  generalize (d.dataStart + c.timestamp - d.timeStart) % 2 ^ 32 = b at hstart hb0 hb ⊢
  have hbytes : u64 (c.len * 2 * 2) = 4 * c.len := by
    rw [u64]
    omega
  simp only [finish, hstart, currDataSize]
  by_cases hshort : u32 (b + c.len) < 2 ^ 21 / 2
  · simp only [if_pos hshort, hbytes]
    rw [List.forall_mem_append, inBounds_copies, List.forall_mem_singleton]
    simp only [Access.InBounds, Region.size, currDataSize]
    simp only [u32] at hshort ⊢
    omega
  · simp only [if_neg hshort]
    rw [List.forall_mem_append, List.forall_mem_append, List.forall_mem_append, inBounds_copies,
      inBounds_copies, List.forall_mem_singleton, List.forall_mem_singleton]
    simp only [Access.InBounds, Region.size, currDataSize]
    simp only [u32] at hshort ⊢
    omega

/-! ## Runs -/

/-- The call that is under way asks for less than a turn of the ring. -/
def CallOk (d : Receiver) : Prop := ∀ c ∈ d.call, 0 < c.len ∧ c.len < 2 ^ 20

theorem turning_len {d : Receiver} {e : Event} {c : Call} (h : CallOk d) (hlen : LenOk e)
    (hc : turning d e = some c) : (0 < c.len ∧ c.len < 2 ^ 20) ∧ callLen d e = c.len := by
  cases e with
  | call timestamp len buf underrun RSSI =>
    rw [turning, Option.ite_none_left_eq_some] at hc
    rw [← Option.some.inj hc.2]
    exact ⟨hlen, rfl⟩
  | packet p => cases hc
  | again =>
    have hcall : d.call = some c := hc
    exact ⟨h c hc, by simp [callLen, hcall]⟩
  | updateAlignment timestamp written => cases hc

theorem callLen_range {d : Receiver} {e : Event} (h : CallOk d) (hlen : LenOk e) :
    0 ≤ callLen d e ∧ callLen d e < 2 ^ 20 := by
  have hpending : 0 ≤ d.call.elim 0 Call.len ∧ d.call.elim 0 Call.len < 2 ^ 20 := by
    cases hcall : d.call with
    | none => exact ⟨le_rfl, by norm_num⟩
    | some c => exact ⟨(h c hcall).1.le, (h c hcall).2⟩
  cases e with
  | call timestamp len buf underrun RSSI => exact ⟨hlen.1.le, hlen.2⟩
  | packet p => exact hpending
  | again => exact hpending
  | updateAlignment timestamp written => exact hpending

theorem CallOk.step {d : Receiver} {e : Event} (h : CallOk d) (hlen : LenOk e) :
    CallOk (readStep d e) := by
  intro c' hc'
  rcases outcome d e with ⟨c, p, hc, -, -, heff⟩ | ⟨c, -, hc, heff⟩ | ⟨-, -, hquiet, -, -⟩
  · obtain ⟨data, timeEnd, hnext, -⟩ := store_frame (stamp d p) (noted c p) p
    rw [readStep, heff, hnext] at hc'
    rw [← Option.some.inj hc']
    exact h c hc
  · rw [readStep, heff, turn] at hc'
    split_ifs at hc'
    · obtain ⟨data, hnext⟩ := finish_frame d c
      rw [hnext] at hc'
      cases hc'
    · rw [← Option.some.inj hc']
      exact (turning_len h hlen hc).1
  · obtain ⟨c, hc, hsame⟩ := hquiet.call c' hc'
    rw [hsame.len]
    exact h c hc

/-- Accesses of an event are in bounds just if what it stores and what it returns fit. -/
theorem inBounds_iff_fits {d : Receiver} {e : Event} (h : CallOk d) (hlen : LenOk e) :
    InBounds d e ↔ Fits d e := by
  rcases outcome d e with ⟨c, p, -, hp, ht, heff⟩ | ⟨c, hp, hc, heff⟩ | ⟨hp, hc, -, hacc, -⟩
  · rw [InBounds, heff, store_inBounds_iff, Fits, hp, ht]
    simp
  · obtain ⟨⟨h0, hlt⟩, hcl⟩ := turning_len h hlen hc
    rw [InBounds, heff, hcl, Fits, hp, hc, turn]
    by_cases hend : numSamplesNeeded d c ≤ 0
    · rw [if_pos hend, finish_inBounds_iff h0 hlt]
      simp [hend]
    · rw [if_neg hend]
      simp [hend]
  · have hin : InBounds d e := by
      rcases hacc with hacc | hacc
      · simp [InBounds, hacc]
      · rw [InBounds, hacc, List.forall_mem_singleton]
        have hcallLen := callLen_range h hlen
        simp only [Access.InBounds, Region.size, u64]
        omega
    simp [hin, Fits, hp, hc]

/-- **Accesses in bounds.**  Whatever the times of packets and ping replies are, a run from `start`
stays in the ring, the packets and the buffers as long as packets and reads fit, and only then. -/
theorem inBounds_iff (d : Receiver) (data : ℤ → UInt8) (es : List Event)
    (hlen : ∀ e ∈ es, LenOk e) :
    Run.Along readStep InBounds (start d data) es ↔ Run.Along readStep Fits (start d data) es := by
  have hstart : CallOk (start d data) := by
    intro c hc
    cases hc
  have hok : Run.Along readStep (fun _ e => LenOk e) (start d data) es := Run.along_of_forall hlen
  exact Run.along_congr_of_invariant (fun d e h hlen _ => CallOk.step h hlen)
    (fun d e h hlen => inBounds_iff_fits h hlen) hstart hok

/-- A first read, and a second one of a packet that goes around the end of the ring. -/
theorem inBounds_first_reads :
    Run.Along readStep InBounds (start sps1 fun _ => 0)
      [readOne 0, .packet (pingReply 0), .again, .packet (sample 272 1), .again,
        .updateAlignment 5000 true, .call 1 (2 ^ 20 - 1) (fun _ => 0) none none,
        .packet (.make 504 (2 ^ 20 - 10) fun _ => 1), .again,
        .packet (.make 504 (2 ^ 20 + 272) fun _ => 1), .again] :=
  (inBounds_iff sps1 (fun _ => 0) _ (by decide +kernel)).mpr (by decide +kernel)

/-- A ping reply in the first read that moves its start out of the ring. -/
theorem out_of_bounds_after_ping :
    ¬ ∀ (d : Receiver) (data : ℤ → UInt8) (es : List Event), (∀ e ∈ es, LenOk e) →
      Run.Along readStep InBounds (start d data) es := by
  intro h
  have hfalse := h sps1 (fun _ => 0) [readOne 0, .packet (pingReply (2 ^ 22)), .again,
    .packet (sample (2 ^ 22 + 272) 1), .again] (by decide +kernel)
  revert hfalse
  decide +kernel

end Usrp1
end Device
end OsmoTrx
