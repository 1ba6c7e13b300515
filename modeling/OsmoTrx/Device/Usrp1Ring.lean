import OsmoTrx.Device.Usrp1Receive

/-!
# What the USRP1's ring delivers

Reads that follow one another, under an offset that stays, of packets that arrive within a turn of
the ring.  Beside the receiver stands the history of what was received: byte `i` of the sample for
time `t` is byte `4t + i` of the stream, and the history has the latest byte for each.

* `Delivering` — the invariant: every place of the ring holds the latest byte for its time, or what
  is left of its contents at the beginning, or 0.
* `storeData_apply`, `finish_apply` — what packets and reads do to the ring, as remainders.
* `delivers_iff` — **what is received is delivered**, everything else is 0 just if what is left of
  the beginning is, and no access is out of bounds.
-/

namespace OsmoTrx
namespace Device
namespace Usrp1

open StreamRing

/-! ## The history -/

/-- The latest byte that was received for every place of the stream. -/
abbrev History := ℤ → Option UInt8

/-- A receiver beside what it has received. -/
abbrev Traced := Receiver × History

/-- The history with a packet whose samples begin at time `τ`. -/
def record (h : History) (τ : ℤ) (p : RxPacket) : History := fun u =>
  if 4 * τ ≤ u ∧ u < 4 * τ + p.payloadSz then some (p.bytes (8 + (u - 4 * τ))) else h u

def traceStep (s : Traced) (e : Event) : Traced :=
  (readStep s.1 e, (stored s.1 e).elim s.2 fun p => record s.2 (pktTimestamp s.1 p) p)

/-- A packet has whole samples, as many as it has room for, at times that are less than a turn of
the ring after the next one to read. -/
def Timely (d : Receiver) (p : RxPacket) : Prop :=
  p.payloadSz % 4 = 0 ∧ p.payloadSz ≤ 504 ∧ (0 < p.payloadSz →
    d.timeStart ≤ pktTimestamp d p ∧ pktTimestamp d p + p.payloadSz / 4 ≤ d.timeStart + 2 ^ 20)

/-- A read begins where the one before it has ended. -/
def Sequential (d : Receiver) : Event → Prop
  | .call timestamp len _ _ _ =>
    d.call = none →
      u64 (timestamp + d.timestampOffset) = d.timeStart ∧ d.timeStart + len < 2 ^ 64
  | _ => True

/-- Reads follow one another, the offset stays, and packets are timely. -/
structure Admissible (s : Traced) (e : Event) : Prop where
  lenOk : LenOk e
  sequential : Sequential s.1 e
  offset : (readStep s.1 e).timestampOffset = s.1.timestampOffset
  timely : ∀ p ∈ stored s.1 e, Timely s.1 p

/-- A read returns the latest bytes, and 0 for what was not received. -/
def Delivers (s : Traced) (e : Event) : Prop :=
  ∀ r ∈ (effect s.1 e).result, ∀ j, 0 ≤ j → j < 4 * r.ret →
    r.buf j = (s.2 (4 * s.1.timeStart + j)).getD 0

/-- The cell of a place of the stream, in a ring that is read at `d`. -/
def cell (d : Receiver) (u : ℤ) : ℤ := (u + (4 * d.dataStart - 4 * d.timeStart)) % 2 ^ 22

/-- No read that ends passes over a byte that was not received, less than a turn after the
beginning `d₀`, whose cell held anything then. -/
def Cleared (d₀ : Receiver) (s : Traced) (e : Event) : Prop :=
  ∀ c ∈ turning s.1 e, numSamplesNeeded s.1 c ≤ 0 → ∀ j, 0 ≤ j → j < 4 * c.len →
    s.2 (4 * s.1.timeStart + j) = none → 4 * s.1.timeStart + j < 4 * d₀.timeStart + 2 ^ 22 →
      d₀.data (cell d₀ (4 * s.1.timeStart + j)) = 0

instance (d : Receiver) : DecidablePred (Sequential d)
  | .call timestamp len _ _ _ => inferInstanceAs (Decidable (d.call = none →
      u64 (timestamp + d.timestampOffset) = d.timeStart ∧ d.timeStart + len < 2 ^ 64))
  | .packet _ => .isTrue trivial
  | .again => .isTrue trivial
  | .updateAlignment _ _ => .isTrue trivial

instance (d : Receiver) (p : RxPacket) : Decidable (Timely d p) :=
  inferInstanceAs (Decidable (_ ∧ _ ∧ (_ → _ ∧ _)))

instance (s : Traced) (e : Event) : Decidable (Admissible s e) :=
  decidable_of_iff (LenOk e ∧ Sequential s.1 e ∧
    (readStep s.1 e).timestampOffset = s.1.timestampOffset ∧ ∀ p ∈ stored s.1 e, Timely s.1 p)
    ⟨fun h => ⟨h.1, h.2.1, h.2.2.1, h.2.2.2⟩,
      fun h => ⟨h.lenOk, h.sequential, h.offset, h.timely⟩⟩

instance (s : Traced) (e : Event) : Decidable (Delivers s e) :=
  inferInstanceAs (Decidable (∀ r ∈ (effect s.1 e).result, ∀ j, 0 ≤ j → j < 4 * r.ret → _ = _))

instance (d₀ : Receiver) (s : Traced) (e : Event) : Decidable (Cleared d₀ s e) :=
  inferInstanceAs (Decidable (∀ c ∈ turning s.1 e, _ ≤ _ → ∀ j, 0 ≤ j → j < 4 * c.len →
    _ = none → _ < _ → _ = _))

/-! ## The invariant -/

/-- What a place of the stream holds as long as nothing is received for it. -/
def blank (d₀ : Receiver) (u : ℤ) : UInt8 :=
  if u < 4 * d₀.timeStart + 2 ^ 22 then d₀.data (cell d₀ u) else 0

/-- The ring since `d₀`. -/
structure Delivering (d₀ : Receiver) (s : Traced) : Prop where
  dataStart : 0 ≤ s.1.dataStart ∧ s.1.dataStart < 2 ^ 20
  timeStart : d₀.timeStart ≤ s.1.timeStart ∧ 0 ≤ s.1.timeStart ∧ s.1.timeStart < 2 ^ 64
  shift : (4 * s.1.dataStart - 4 * s.1.timeStart -
    (4 * d₀.dataStart - 4 * d₀.timeStart)) % 2 ^ 22 = 0
  call : ∀ c ∈ s.1.call, c.timestamp = s.1.timeStart ∧ 0 < c.len ∧ c.len < 2 ^ 20 ∧
    s.1.timeStart + c.len < 2 ^ 64
  future : ∀ u, 4 * s.1.timeStart + 2 ^ 22 ≤ u → s.2 u = none
  holds : Holds (2 ^ 22) (4 * d₀.dataStart - 4 * d₀.timeStart) s.1.data (4 * s.1.timeStart)
    fun u => (s.2 u).getD (blank d₀ u)

/-! ## Packets -/

/-- What a packet whose samples begin in place `place` makes of the ring. -/
theorem store_data {d : Receiver} {p : RxPacket} (c : Call) (hp : p.payloadSz % 4 = 0) {place : ℤ}
    (hplace0 : 0 ≤ place) (hplace : place ≤ 2 ^ 20) (hcur : reduceCursor (cursorStart d) = place) :
    (store d c p).next.data =
      if 4 * place + p.payloadSz > 2 ^ 22 then
        memcpy (memcpy d.data (4 * place) p.bytes 8 (2 ^ 22 - 4 * place)) 0 p.bytes
          (8 + (2 ^ 22 - 4 * place)) (p.payloadSz - (2 ^ 22 - 4 * place))
      else memcpy d.data (4 * place) p.bytes 8 p.payloadSz := by
  obtain ⟨hp0, hp9⟩ := p.payloadSz_range
  have hat : u32 (place * 2) = 2 * place := by
    rw [u32]
    omega
  have hsum : u32 (2 * place + p.payloadSz / 2) = 2 * place + p.payloadSz / 2 :=
    u32_eq_self (by omega) (by omega)
  have hfirst : u64 ((2 ^ 21 - 2 * place) * 2) = 2 ^ 22 - 4 * place := by
    rw [u64_eq_self (by omega) (by omega)]
    ring
  simp only [store, hcur, hat, hsum, currDataSize, hfirst]
  by_cases hwrap : 2 * place + p.payloadSz / 2 > 2 ^ 21
  · have hsecond : u64 (p.payloadSz - (2 ^ 22 - 4 * place)) =
        p.payloadSz - (2 ^ 22 - 4 * place) := u64_eq_self (by omega) (by omega)
    simp only [if_pos hwrap, hsecond]
    rw [if_pos (show 4 * place + p.payloadSz > 2 ^ 22 by omega),
      show 2 * (2 * place) = 4 * place by ring,
      show (8 : ℤ) + 4 * (2 ^ 21 / 2 - place) = 8 + (2 ^ 22 - 4 * place) by omega]
  · simp only [if_neg hwrap]
    rw [if_neg (show ¬ 4 * place + p.payloadSz > 2 ^ 22 by omega),
      show 2 * (2 * place) = 4 * place by ring]

/-- The remainder that the loop looks for. -/
theorem reduceCursor_mod {c : ℤ} (h0 : 0 ≤ c) (hc : c < 2 ^ 31) :
    (0 ≤ reduceCursor c ∧ reduceCursor c ≤ 2 ^ 20) ∧ (reduceCursor c - c) % 2 ^ 20 = 0 := by
  rw [reduceCursor_eq h0 (by omega), ringPlace, Int.emod_eq_of_lt h0 hc]
  split_ifs <;> omega

section Packet

variable {d₀ : Receiver} {s : Traced} (h : Delivering d₀ s) {p : RxPacket}
include h

/-- The samples of a timely packet lie where they belong. -/
theorem Delivering.storeData_apply (c : Call) (hp : Timely s.1 p) (hsome : 0 < p.payloadSz) {x : ℤ}
    (hx0 : 0 ≤ x) (hx : x < 2 ^ 22) :
    (store (stamp s.1 p) c p).next.data x =
      if (x - (4 * pktTimestamp s.1 p + (4 * d₀.dataStart - 4 * d₀.timeStart))) % 2 ^ 22 <
          p.payloadSz then
        p.bytes
          (8 + (x - (4 * pktTimestamp s.1 p + (4 * d₀.dataStart - 4 * d₀.timeStart))) % 2 ^ 22)
      else s.1.data x := by
  obtain ⟨hwhole, hroom, htime⟩ := hp
  obtain ⟨hlo, hhi⟩ := htime hsome
  obtain ⟨hd0, hd⟩ := h.dataStart
  have hcur : cursorStart (stamp s.1 p) = pktTimestamp s.1 p - s.1.timeStart + s.1.dataStart :=
    u32_eq_self (by simp only [stamp]; omega) (by simp only [stamp]; omega)
  obtain ⟨⟨hplace0, hplace⟩, hmod⟩ := @reduceCursor_mod (cursorStart (stamp s.1 p))
    (by rw [hcur]; omega) (by rw [hcur]; omega)
  rw [store_data c hwhole hplace0 hplace rfl]
  generalize reduceCursor (cursorStart (stamp s.1 p)) = place at hplace0 hplace hmod ⊢
  rw [hcur] at hmod
  have hshift := h.shift
  have hcell : (x - (4 * pktTimestamp s.1 p + (4 * d₀.dataStart - 4 * d₀.timeStart))) % 2 ^ 22 =
      (x - 4 * place) % 2 ^ 22 := by omega
  rw [hcell]
  exact wrapWrite_apply (by omega) (by omega) (by omega) s.1.data p.bytes 8 hx0 hx

end Packet

/-! ## Reads -/

section Finish

variable {d : Receiver} {c : Call}

variable (h0 : 0 < c.len) (hlen : c.len < 2 ^ 20) {b : ℤ} (hb0 : 0 ≤ b) (hb : b < 2 ^ 20)
  (hstart : bufStart d c = b)
include h0 hlen hb0 hb hstart

/-- What a read that begins in place `b` makes of the ring, and what it returns. -/
theorem finish_eq :
    (finish d c).next.data =
        (if 4 * b + 4 * c.len < 2 ^ 22 then memset d.data (4 * b) 0 (4 * c.len)
        else memset (memset d.data (4 * b) 0 (2 ^ 22 - 4 * b)) 0 0
          (4 * c.len - (2 ^ 22 - 4 * b))) ∧
      (finish d c).result = some ⟨c.len,
        if 4 * b + 4 * c.len < 2 ^ 22 then memcpy c.buf 0 d.data (4 * b) (4 * c.len)
        else memcpy (memcpy c.buf 0 d.data (4 * b) (2 ^ 22 - 4 * b)) (2 ^ 22 - 4 * b)
          (memset d.data (4 * b) 0 (2 ^ 22 - 4 * b)) 0 (4 * c.len - (2 ^ 22 - 4 * b)),
        c.underrun, c.RSSI⟩ := by
  have hat : 2 * u32 (b * 2) = 4 * b := by
    rw [u32]
    omega
  have hsum : u32 (b + c.len) = b + c.len := u32_eq_self (by omega) (by omega)
  simp only [finish, hstart, hat, hsum, currDataSize]
  by_cases hshort : b + c.len < 2 ^ 21 / 2
  · have hbytes : u64 (c.len * 2 * 2) = 4 * c.len := by
      rw [u64]
      omega
    simp only [if_pos hshort, if_pos (show 4 * b + 4 * c.len < 2 ^ 22 by omega), hbytes]
    exact ⟨trivial, trivial⟩
  · have hn1 : u32 (u32 (2 ^ 21 / 2 - b) * 2) * 2 = 2 ^ 22 - 4 * b := by
      simp only [u32]
      omega
    have hn2 : u32 (u32 (c.len - u32 (2 ^ 21 / 2 - b)) * 2) * 2 =
        4 * c.len - (2 ^ 22 - 4 * b) := by
      simp only [u32]
      omega
    simp only [if_neg hshort, if_neg (show ¬ 4 * b + 4 * c.len < 2 ^ 22 by omega), hn1, hn2]
    exact ⟨trivial, trivial⟩

/-- The cells that a read clears. -/
theorem finish_data_apply {x : ℤ} (hx0 : 0 ≤ x) (hx : x < 2 ^ 22) :
    (finish d c).next.data x = if (x - 4 * b) % 2 ^ 22 < 4 * c.len then 0 else d.data x := by
  rw [(finish_eq h0 hlen hb0 hb hstart).1]
  exact wrapClear_apply (by omega) (by omega) (by omega) d.data 0 hx0 hx

/-- The bytes that a read returns. -/
theorem finish_buf_apply {r : Result} (hr : (finish d c).result = some r) {j : ℤ} (hj0 : 0 ≤ j)
    (hj : j < 4 * c.len) : r.ret = c.len ∧ r.buf j = d.data ((4 * b + j) % 2 ^ 22) := by
  rw [(finish_eq h0 hlen hb0 hb hstart).2] at hr
  rw [← Option.some.inj hr]
  refine ⟨rfl, ?_⟩
  refine wrapRead_apply (by omega) (by omega) c.buf d.data _ (fun x hx0 hx => ?_) (by omega) hj0 hj
  exact if_neg (by omega)

end Finish

/-! ## Steps -/

/-- A packet without samples leaves the ring alone. -/
theorem store_empty (d : Receiver) (c : Call) {p : RxPacket} (hp : p.payloadSz = 0) :
    (store d c p).next.data = d.data := by
  have hcur0 : 0 ≤ cursorStart d := Int.emod_nonneg _ (by decide)
  have hcur : cursorStart d < 2 ^ 32 := Int.emod_lt_of_pos _ (by decide)
  obtain ⟨hplace0, hplace⟩ := ringPlace_range (cursorStart d)
  have hred := reduceCursor_eq hcur0 hcur
  have hat : u32 (reduceCursor (cursorStart d) * 2) = 2 * ringPlace (cursorStart d) := by
    rw [hred, u32]
    omega
  have hshort : ¬ u32 (2 * ringPlace (cursorStart d) + 0 / 2) > 2 ^ 21 := by
    rw [u32]
    omega
  simp only [store, hat, hp, currDataSize, if_neg hshort]
  funext x
  exact memcpy_of_not_mem _ _ (by omega)

section Step

variable {d₀ : Receiver} {s : Traced} {e : Event} (h : Delivering d₀ s)
include h

/-- The call of a turn of the `while` loop asks for the next samples. -/
theorem Delivering.turning {c : Call} (hok : Admissible s e) (hc : turning s.1 e = some c) :
    c.timestamp = s.1.timeStart ∧ 0 < c.len ∧ c.len < 2 ^ 20 ∧ s.1.timeStart + c.len < 2 ^ 64 := by
  cases e with
  | call timestamp len buf underrun RSSI =>
    rw [Usrp1.turning, Option.ite_none_left_eq_some] at hc
    obtain ⟨hcond, heq⟩ := hc
    have hnone : s.1.call = none := by
      rw [← Option.not_isSome_iff_eq_none]
      exact fun hsome => hcond (Or.inl hsome)
    obtain ⟨htime, hmax⟩ := hok.sequential hnone
    rw [← Option.some.inj heq]
    exact ⟨htime, hok.lenOk.1, hok.lenOk.2, hmax⟩
  | packet p => cases hc
  | again => exact h.call c hc
  | updateAlignment timestamp written => cases hc

theorem Delivering.bufStart {c : Call} (hc : c.timestamp = s.1.timeStart) :
    bufStart s.1 c = s.1.dataStart := by
  obtain ⟨hd0, hd⟩ := h.dataStart
  rw [Usrp1.bufStart, hc, sub_self, u32, u64]
  omega

/-- **A packet** is received. -/
theorem Delivering.store {c : Call} {p : RxPacket} (hc : s.1.call = some c) (hp : Timely s.1 p) :
    Delivering d₀ ((Usrp1.store (stamp s.1 p) (noted c p) p).next,
      record s.2 (pktTimestamp s.1 p) p) := by
  obtain ⟨data, timeEnd, hnext, -⟩ := store_frame (stamp s.1 p) (noted c p) p
  have hstart : (Usrp1.store (stamp s.1 p) (noted c p) p).next.dataStart = s.1.dataStart := by
    rw [hnext, stamp]
  have htime : (Usrp1.store (stamp s.1 p) (noted c p) p).next.timeStart = s.1.timeStart := by
    rw [hnext, stamp]
  obtain ⟨hp0, -⟩ := p.payloadSz_range
  have hwindow : 0 < p.payloadSz → 4 * s.1.timeStart ≤ 4 * pktTimestamp s.1 p ∧
      4 * pktTimestamp s.1 p + p.payloadSz ≤ 4 * s.1.timeStart + 2 ^ 22 := by
    intro hsome
    obtain ⟨hwhole, -, hin⟩ := hp
    obtain ⟨hlo, hhi⟩ := hin hsome
    omega
  refine ⟨?_, ?_, ?_, ?_, ?_, ?_⟩ <;> simp only [hstart, htime]
  · exact h.dataStart
  · exact h.timeStart
  · exact h.shift
  · intro c' hc'
    rw [hnext] at hc'
    rw [← Option.some.inj hc']
    exact h.call c hc
  · intro u hu
    rw [record, if_neg (by omega)]
    exact h.future u hu
  · rcases hp0.eq_or_lt with hnone | hsome
    · rw [store_empty _ _ hnone.symm]
      refine h.holds.congr fun u _ _ => ?_
      simp only [record, ← hnone]
      rw [if_neg (by omega)]
    · obtain ⟨hlo, hhi⟩ := hwindow hsome
      have hwrite := h.holds.write (fun i => p.bytes (8 + i)) hlo hp0 hhi
        fun x hx0 hx => h.storeData_apply (noted c p) hp hsome hx0 hx
      refine hwrite.congr fun u _ _ => ?_
      simp only [record]
      split_ifs <;> rfl

/-- **A read** that has its samples ends. -/
theorem Delivering.finish {c : Call} (hc : c.timestamp = s.1.timeStart) (h0 : 0 < c.len)
    (hlen : c.len < 2 ^ 20) (hmax : s.1.timeStart + c.len < 2 ^ 64) :
    Delivering d₀ ((Usrp1.finish s.1 c).next, s.2) := by
  obtain ⟨hd0, hd⟩ := h.dataStart
  obtain ⟨ht, ht0, htmax⟩ := h.timeStart
  have hb := h.bufStart hc
  obtain ⟨data, hnext⟩ := finish_frame s.1 c
  have hstart : (Usrp1.finish s.1 c).next.dataStart = (s.1.dataStart + c.len) % 2 ^ 20 := by
    rw [hnext, hb, u32_eq_self (by omega) (by omega), currDataSize]
    norm_num
  have htime : (Usrp1.finish s.1 c).next.timeStart = s.1.timeStart + c.len := by
    rw [hnext, hc, u64_eq_self (by omega) (by omega)]
  have hshift := h.shift
  refine ⟨?_, ?_, ?_, ?_, ?_, ?_⟩ <;> simp only [hstart, htime]
  · exact ⟨Int.emod_nonneg _ (by decide), Int.emod_lt_of_pos _ (by decide)⟩
  · omega
  · omega
  · intro c' hc'
    rw [hnext] at hc'
    cases hc'
  · intro u hu
    exact h.future u (by omega)
  · have hring : ∀ x, 0 ≤ x → x < 2 ^ 22 → (Usrp1.finish s.1 c).next.data x =
        if (x - (4 * s.1.timeStart + (4 * d₀.dataStart - 4 * d₀.timeStart))) % 2 ^ 22 < 4 * c.len
        then 0 else s.1.data x := by
      intro x hx0 hx
      rw [finish_data_apply h0 hlen hd0 hd hb hx0 hx]
      exact if_congr (by omega) rfl rfl
    have hclear := h.holds.clear (0 : UInt8) (show 0 ≤ 4 * c.len by omega) (by omega) hring
    rw [show 4 * (s.1.timeStart + c.len) = 4 * s.1.timeStart + 4 * c.len by ring]
    refine hclear.congr fun u _ _ => ?_
    split_ifs with hu
    · rfl
    · rw [h.future u (by omega), Option.getD_none, blank, if_neg (by omega)]

/-- **An event** of an admissible run. -/
theorem Delivering.step (hok : Admissible s e) : Delivering d₀ (traceStep s e) := by
  rcases outcome s.1 e with ⟨c, p, hc, hp, -, heff⟩ | ⟨c, hp, hc, heff⟩ | ⟨hp, -, hquiet, -, -⟩
  · rw [traceStep, readStep, heff, hp, Option.elim_some]
    exact h.store hc (hok.timely p hp)
  · obtain ⟨htime, h0, hlen, hmax⟩ := h.turning hok hc
    rw [traceStep, readStep, heff, hp, Option.elim_none, turn]
    split_ifs
    · exact h.finish htime h0 hlen hmax
    · refine ⟨h.dataStart, h.timeStart, h.shift, fun c' hc' => ?_, h.future, h.holds⟩
      rw [← Option.some.inj hc']
      exact ⟨htime, h0, hlen, hmax⟩
  · rw [traceStep, hp, Option.elim_none]
    refine ⟨?_, ?_, ?_, ?_, ?_, ?_⟩ <;>
      simp only [hquiet.data, hquiet.dataStart, hquiet.timeStart]
    · exact h.dataStart
    · exact h.timeStart
    · exact h.shift
    · intro c' hc'
      obtain ⟨c, hc, hsame⟩ := hquiet.call c' hc'
      obtain ⟨htime, h0, hlen, hmax⟩ := h.call c hc
      obtain ⟨-, ht0, ht⟩ := h.timeStart
      have htime' : c'.timestamp = c.timestamp := by
        rcases hsame.timestamp hok.offset with heq | heq
        · rw [heq, htime, u64_eq_self ht0 ht]
        · exact heq
      rw [htime', hsame.len]
      exact ⟨htime, h0, hlen, hmax⟩
    · exact h.future
    · exact h.holds

/-- **Accesses** stay in bounds. -/
theorem Delivering.inBounds (hok : Admissible s e) : InBounds s.1 e := by
  have hcall : CallOk s.1 := fun c hc => ⟨(h.call c hc).2.1, (h.call c hc).2.2.1⟩
  obtain ⟨hd0, hd⟩ := h.dataStart
  rw [inBounds_iff_fits hcall hok.lenOk]
  refine ⟨fun p hp => ?_, fun c hc _ => ?_⟩
  · obtain ⟨hwhole, hroom, hin⟩ := hok.timely p hp
    obtain ⟨hp0, -⟩ := p.payloadSz_range
    obtain ⟨hplace0, hplace⟩ :=
      ringPlace_range ((p.word 1 - s.1.timeStart + s.1.dataStart) % 2 ^ 32)
    refine ⟨hroom, ?_⟩
    rcases hp0.eq_or_lt with hnone | hsome
    · exact Or.inl (by omega)
    · obtain ⟨hlo, hhi⟩ := hin hsome
      have hcur := cursorStart_stamp s.1 p
      have hnear : cursorStart (stamp s.1 p) < 2 ^ 31 := by
        simp only [cursorStart, stamp, u32]
        omega
      rw [← hcur] at hplace0 hplace ⊢
      omega
  · obtain ⟨htime, h0, hlen, hmax⟩ := h.turning hok hc
    rw [ReadFits, htime]
    omega

/-- A call in sequence is not for samples that have gone. -/
theorem Delivering.not_early (hok : Admissible s e) : ¬ Early s.1 e := by
  obtain ⟨-, ht0, ht⟩ := h.timeStart
  cases e with
  | call timestamp len buf underrun RSSI =>
    rintro ⟨hcall, hlt⟩
    obtain ⟨htime, hmax⟩ := hok.sequential hcall
    have h0 : 0 < len := hok.lenOk.1
    rw [htime, u64_eq_self (by omega) (by omega)] at hlt
    omega
  | packet p => exact False.elim
  | again => exact False.elim
  | updateAlignment timestamp written => exact False.elim

/-- What a read returns that ends. -/
theorem Delivering.finish_buf {c : Call} (hc : c.timestamp = s.1.timeStart) (h0 : 0 < c.len)
    (hlen : c.len < 2 ^ 20) {r : Result} (hr : (Usrp1.finish s.1 c).result = some r) {j : ℤ}
    (hj0 : 0 ≤ j) (hj : j < 4 * c.len) :
    r.ret = c.len ∧ r.buf j =
      (s.2 (4 * s.1.timeStart + j)).getD (blank d₀ (4 * s.1.timeStart + j)) := by
  obtain ⟨hd0, hd⟩ := h.dataStart
  obtain ⟨hret, hbuf⟩ := finish_buf_apply h0 hlen hd0 hd (h.bufStart hc) hr hj0 hj
  have hshift := h.shift
  refine ⟨hret, ?_⟩
  rw [hbuf, ← h.holds.read hj0 (show j < 2 ^ 22 by omega)]
  congr 1
  omega

/-- **What a read returns** is right just if what is left of the beginning is 0. -/
theorem Delivering.delivers_iff_cleared (hok : Admissible s e) : Delivers s e ↔ Cleared d₀ s e := by
  rcases outcome s.1 e with ⟨c, p, -, -, ht, heff⟩ | ⟨c, -, hc, heff⟩ | ⟨-, hc, -, -, hres⟩
  · refine iff_of_true (fun r hr => ?_) fun c' hc' => ?_
    · obtain ⟨data, timeEnd, -, hnone⟩ := store_frame (stamp s.1 p) (noted c p) p
      rw [heff, hnone] at hr
      cases hr
    · rw [ht] at hc'
      cases hc'
  · obtain ⟨htime, h0, hlen, hmax⟩ := h.turning hok hc
    rw [Delivers, heff, turn, Cleared, hc]
    by_cases hend : numSamplesNeeded s.1 c ≤ 0
    · rw [if_pos hend]
      obtain ⟨hd0, hd⟩ := h.dataStart
      have hresult := (finish_eq h0 hlen hd0 hd (h.bufStart htime)).2
      constructor
      · intro hdel c' hc' _ j hj0 hj hnone hlt
        rw [← Option.some.inj hc'] at hj
        obtain ⟨hret, hbuf⟩ := h.finish_buf htime h0 hlen hresult hj0 hj
        have hzero := hdel _ hresult j hj0 (by rwa [hret])
        rw [hbuf, hnone, Option.getD_none, Option.getD_none, blank, if_pos hlt] at hzero
        exact hzero
      · intro hcleared r hr j hj0 hj
        have hr' : r = _ := Option.some.inj (hr.symm.trans hresult)
        have hret : r.ret = c.len := by rw [hr']
        rw [hret] at hj
        obtain ⟨-, hbuf⟩ := h.finish_buf htime h0 hlen hr hj0 hj
        rw [hbuf]
        cases hu : s.2 (4 * s.1.timeStart + j) with
        | some a => rfl
        | none =>
          rw [Option.getD_none, Option.getD_none, blank]
          split_ifs with hlt
          · exact hcleared c rfl hend j hj0 hj hu hlt
          · rfl
    · rw [if_neg hend]
      refine iff_of_true (fun r hr => ?_) fun c' hc' hend' => ?_
      · cases hr
      · rw [Option.some.inj hc'] at hend
        exact absurd hend' hend
  · refine iff_of_true (fun r hr j hj0 hj => ?_) fun c' hc' => ?_
    · rcases hres r hr with hret | hearly
      · rw [hret] at hj
        omega
      · exact absurd hearly (h.not_early hok)
    · rw [hc] at hc'
      cases hc'

end Step

/-- **What is received is delivered.**  From any receiver with no call under way, whose ring holds
what the history has for the turn ahead, a run of reads in sequence stays in bounds, and returns the
latest byte that was received for every place and 0 for the others, just if no read passes over a
cell that was neither written since nor 0 at the beginning. -/
theorem delivers_iff (d : Receiver) (history : History) (es : List Event)
    (hcall : d.call = none) (hstart : 0 ≤ d.dataStart ∧ d.dataStart < 2 ^ 20)
    (htime : 0 ≤ d.timeStart ∧ d.timeStart < 2 ^ 64)
    (hfuture : ∀ u, 4 * d.timeStart + 2 ^ 22 ≤ u → history u = none)
    (hholds : ∀ u, 4 * d.timeStart ≤ u → u < 4 * d.timeStart + 2 ^ 22 →
      ∀ a ∈ history u, d.data (cell d u) = a)
    (hok : Run.Along traceStep Admissible (d, history) es) :
    Run.Along traceStep (fun s e => InBounds s.1 e ∧ Delivers s e) (d, history) es ↔
      Run.Along traceStep (Cleared d) (d, history) es := by
  have hdelivering : Delivering d (d, history) := by
    refine ⟨hstart, ⟨le_rfl, htime⟩, by simp, fun c hc => ?_, hfuture, fun u hlo hhi => ?_⟩
    · rw [hcall] at hc
      cases hc
    · change d.data (cell d u) = (history u).getD (blank d u)
      cases hu : history u with
      | none => rw [Option.getD_none, blank, if_pos hhi]
      | some a => exact hholds u hlo hhi a hu
  refine Run.along_congr_of_invariant (fun s e h hok _ => h.step hok) (fun s e h hok => ?_)
    hdelivering hok
  rw [h.delivers_iff_cleared hok]
  exact and_iff_right (h.inBounds hok)

/-- The receiver after a first read, with a ring that held `a` everywhere. -/
def afterRead (a : UInt8) : Receiver :=
  Run.exec readStep (start sps1 fun _ => a)
    [readOne 0, .packet (pingReply 0), .again, .packet (sample 272 1), .again]

/-- Packets that overlap, and a time for which there is none. -/
theorem delivers_overlapping :
    Run.Along traceStep (fun s e => InBounds s.1 e ∧ Delivers s e) (afterRead 0, fun _ => none)
      [.call 1 3 (fun _ => 9) none none, .packet (.make 8 274 fun _ => 5), .packet (sample 275 6),
        .again, readOne 4, .packet (sample 276 7), .again] := by
  refine (delivers_iff _ _ _ ?_ ?_ ?_ ?_ ?_ ?_).mpr ?_
  · decide +kernel
  · decide +kernel
  · decide +kernel
  · exact fun u _ => rfl
  · intro u _ _ a ha
    cases ha
  · decide +kernel
  · decide +kernel

/-- What `start` has not cleared is returned for a time for which there is no packet. -/
theorem uncleared_delivered :
    ¬ ∀ (d : Receiver) (data : ℤ → UInt8) (first es : List Event),
      0 < (Run.exec readStep (start d data) first).timeStart →
      (Run.exec readStep (start d data) first).call = none →
      Run.Along traceStep Admissible (Run.exec readStep (start d data) first, fun _ => none) es →
      Run.Along traceStep Delivers (Run.exec readStep (start d data) first, fun _ => none) es := by
  intro h
  have hfalse := h sps1 (fun _ => 1)
    [readOne 0, .packet (pingReply 0), .again, .packet (sample 272 1), .again]
    [readOne 1, .packet (sample 274 1), .again] (by decide +kernel) (by decide +kernel)
    (by decide +kernel)
  revert hfalse
  decide +kernel

end Usrp1
end Device
end OsmoTrx
