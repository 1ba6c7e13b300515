import OsmoTrx.Lib.Run
import OsmoTrx.Lib.Mem
import OsmoTrx.Lib.Word

/-!
# The receive sample buffer of the UHD device

`smpl_buf` of `Transceiver52M/device/uhd/UHDDevice.cpp`: a ring of samples that is
written and read by timestamp.  Four indices are kept, `data_start`/`data_end` into
the ring and `time_start`/`time_end` on the time axis, and a sample of time `t` is
meant to lie at `(data_start + (t - time_start)) % buf_len`.

* `SmplBuf.read`, `SmplBuf.write` — the two operations, in 64-bit arithmetic.
* `Session` — the buffer with its client: contiguous writes, reads in order, and the
  list of samples written and not yet read, which is the map from time to sample the
  buffer stands for.
* `Tracks` — the invariant: the unread samples lie where the affine map puts them.
* `delivers_of_anchored` — **the refinement**: as long as every write meets
  `Anchored`, every read returns exactly the samples written for its timestamps, and
  in every state reached the unread samples are where the map says.
* `first_write_displaced`, `write_at_zero_displaced` — without it they are not.  A
  write made while `data_start` is `0` moves `data_start` and leaves `time_start`
  where it was.
-/

namespace OsmoTrx
namespace Device

open Mem

/-! ## The buffer -/

/-- `smpl_buf::err_code`. -/
inductive ErrCode
  | timestamp
  | read
  | write
  | overflow
  deriving DecidableEq, Repr

/-- The number an error code is returned as. -/
def ErrCode.value : ErrCode → ℤ
  | timestamp => -1
  | read => -2
  | write => -3
  | overflow => -4

/-- `smpl_buf`.  A sample is one `uint32_t` of the array `data`; times are 64-bit. -/
structure SmplBuf (α : Type*) where
  data : ℕ → α
  bufLen : ℕ
  timeStart : ℕ
  timeEnd : ℕ
  dataStart : ℕ
  dataEnd : ℕ

namespace SmplBuf

variable {α : Type*}

/-- The constructor; `new uint32_t[len]` leaves the samples as it finds them. -/
def init (data : ℕ → α) (len : ℕ) : SmplBuf α := ⟨data, len, 0, 0, 0, 0⟩

/-- `read(buf, len, timestamp)`: the result, the samples copied to `buf`, and the
buffer afterwards. -/
def read (b : SmplBuf α) (len timestamp : ℕ) : Except ErrCode ℕ × List α × SmplBuf α :=
  if timestamp < b.timeStart then (.error .timestamp, [], b)
  else if timestamp ≥ b.timeEnd then (.ok 0, [], b)
  else if len ≥ b.bufLen then (.error .read, [], b)
  else
    let avail := b.timeEnd - timestamp
    let numSmpls := if avail > len then len else avail
    let readStart := add64 b.dataStart (sub64 timestamp b.timeStart) % b.bufLen
    let out :=
      if readStart + numSmpls < b.bufLen then slice b.data readStart len
      else
        let firstCp := b.bufLen - readStart
        slice b.data readStart firstCp ++ slice b.data 0 (len - firstCp)
    let timeStart := add64 timestamp len
    let b' := { b with dataStart := (readStart + len) % b.bufLen, timeStart := timeStart }
    (if timeStart > b.timeEnd then .error .read else .ok numSmpls, out, b')

/-- `write(buf, len, timestamp)`: the result and the buffer afterwards. -/
def write (b : SmplBuf α) (buf : List α) (timestamp : ℕ) : Except ErrCode ℕ × SmplBuf α :=
  let len := buf.length
  if len = 0 ∨ len ≥ b.bufLen then (.error .write, b)
  else if add64 timestamp len ≤ b.timeEnd then (.error .timestamp, b)
  else
    let writeStart := add64 b.dataStart (sub64 timestamp b.timeStart) % b.bufLen
    let data :=
      if writeStart + len < b.bufLen then blit b.data writeStart buf
      else
        let firstCp := b.bufLen - writeStart
        blit (blit b.data writeStart (buf.take firstCp)) 0 (buf.drop firstCp)
    let dataEnd := (writeStart + len) % b.bufLen
    let timeEnd := add64 timestamp len
    let dataStart := if b.dataStart = 0 then writeStart else b.dataStart
    let b' := { b with
      data := data, dataEnd := dataEnd, timeEnd := timeEnd, dataStart := dataStart }
    (if writeStart + len > b.bufLen ∧ dataEnd > dataStart then .error .overflow
      else if timeEnd ≤ b.timeStart then .error .write
      else .ok len, b')

/-- Where the buffer looks for the sample of time `t`. -/
def place (b : SmplBuf α) (t : ℕ) : ℕ := (b.dataStart + (t - b.timeStart)) % b.bufLen

/-- The copies of `read` are a ring read. -/
theorem copy_out_eq (d : ℕ → α) {n r len : ℕ} (hr : r ≤ n) :
    (if r + len < n then slice d r len
      else slice d r (n - r) ++ slice d 0 (len - (n - r))) = ringRead d 0 n r len := by
  unfold ringRead
  rw [Nat.zero_add]
  split_ifs with h1 h2 h2
  · rfl
  · omega
  · -- the read ends exactly at the end of the ring: the second copy is empty
    rw [show len - (n - r) = 0 by omega, slice_zero, List.append_nil,
      show n - r = len by omega]
  · rfl

/-- The copies of `write` are a ring write. -/
theorem copy_in_eq (d : ℕ → α) {n w : ℕ} (xs : List α) (hw : w ≤ n) :
    (if w + xs.length < n then blit d w xs
      else blit (blit d w (xs.take (n - w))) 0 (xs.drop (n - w))) = ringWrite d 0 n w xs := by
  unfold ringWrite
  rw [Nat.zero_add]
  split_ifs with h1 h2 h2
  · rfl
  · omega
  · rw [List.take_of_length_le (by omega), List.drop_of_length_le (by omega), blit_nil]
  · rfl

end SmplBuf

/-! ## The buffer and its client -/

/-- A receive session: the buffer, the time at which the next write starts, and the
samples written and not read yet, oldest first. -/
structure Session (α : Type*) where
  buf : SmplBuf α
  next : ℕ
  unread : List α

/-- What the client does: hand over the samples of the next packet, or ask for the
oldest `len` unread samples. -/
inductive Op (α : Type*)
  | write (xs : List α)
  | read (len : ℕ)
  deriving DecidableEq, Repr

namespace Session

variable {α : Type*}

/-- The time of the oldest unread sample. -/
def start (s : Session α) : ℕ := s.next - s.unread.length

/-- The session after one operation. -/
def step (s : Session α) : Op α → Session α
  | .write xs => ⟨(s.buf.write xs s.next).2, s.next + xs.length, s.unread ++ xs⟩
  | .read len => ⟨(s.buf.read len s.start).2.2, s.next, s.unread.drop len⟩

/-- A session over a fresh buffer whose first write will carry the timestamp `t`. -/
def init (data : ℕ → α) (len t : ℕ) : Session α := ⟨SmplBuf.init data len, t, []⟩

/-- What the client may do: writes shorter than the buffer that leave at most
`buf_len - 1` samples unread, reads of samples that have been written. -/
def Legal (s : Session α) : Op α → Prop
  | .write xs => 0 < xs.length ∧ xs.length < s.buf.bufLen ∧
      s.unread.length + xs.length ≤ s.buf.bufLen - 1
  | .read len => len ≤ s.unread.length

/-- A write the affine map survives: it does not move `data_start` (which is not `0`,
or is set to `0` again) and its timestamps do not wrap around 64 bits. -/
def Anchored (s : Session α) : Op α → Prop
  | .write xs => (s.buf.dataStart ≠ 0 ∨ (s.next - s.buf.timeStart) % s.buf.bufLen = 0) ∧
      s.next + xs.length < 2 ^ 64
  | .read _ => True

/-- A read returns its length and exactly the samples written for its timestamps. -/
def Delivers (s : Session α) : Op α → Prop
  | .write _ => True
  | .read len => (s.buf.read len s.start).1 = .ok len ∧
      (s.buf.read len s.start).2.1 = s.unread.take len

/-- Every unread sample lies where the buffer looks for it. -/
def Mapped (s : Session α) : Prop :=
  ∀ i (h : i < s.unread.length), s.buf.data (s.buf.place (s.start + i)) = s.unread[i]

instance [DecidableEq α] (s : Session α) : DecidablePred (Delivers s)
  | .write _ => .isTrue trivial
  | .read _ => inferInstanceAs (Decidable (_ ∧ _))

instance (s : Session α) : DecidablePred (Legal s)
  | .write _ => inferInstanceAs (Decidable (_ ∧ _))
  | .read _ => inferInstanceAs (Decidable (_ ≤ _))

instance (s : Session α) : DecidablePred (Anchored s)
  | .write _ => inferInstanceAs (Decidable (_ ∧ _))
  | .read _ => .isTrue trivial

/-! ## The invariant -/

/-- The four indices of the buffer describe the unread samples. -/
structure Tracks (s : Session α) : Prop where
  two_le : 2 ≤ s.buf.bufLen
  alloc : 4 * s.buf.bufLen < 2 ^ 64
  next_lt : s.next < 2 ^ 64
  room : s.unread.length < s.buf.bufLen
  unread_le : s.buf.timeStart + s.unread.length ≤ s.next
  data_lt : s.buf.dataStart < s.buf.bufLen
  /-- Once `data_start` has left `0`, `time_start` is the time of the oldest unread
  sample. -/
  time_start : s.buf.dataStart = 0 ∨ s.buf.timeStart + s.unread.length = s.next
  time_end_le : s.buf.timeEnd ≤ s.next
  time_end : s.unread ≠ [] → s.buf.timeEnd = s.next
  stored : Stored s.buf.data 0 s.buf.bufLen
    (s.buf.dataStart + (s.start - s.buf.timeStart)) s.unread

theorem Tracks.mapped {s : Session α} (h : Tracks s) : Mapped s := by
  intro i hi
  have hle := h.unread_le
  have hst := h.stored i hi
  rw [Nat.zero_add] at hst
  rw [← hst, SmplBuf.place]
  congr 2
  simp only [start]
  omega

theorem tracks_init (data : ℕ → α) {len t : ℕ} (hlen : 2 ≤ len) (halloc : 4 * len < 2 ^ 64)
    (ht : t < 2 ^ 64) : Tracks (init data len t) where
  two_le := hlen
  alloc := halloc
  next_lt := ht
  room := by simp only [init, SmplBuf.init, List.length_nil]; omega
  unread_le := Nat.zero_le _
  data_lt := by simp only [init, SmplBuf.init]; omega
  time_start := Or.inl rfl
  time_end_le := Nat.zero_le _
  time_end := fun h => absurd rfl h
  stored := stored_nil _ _ _ _

section Steps

variable {s : Session α} (h : Tracks s)
include h

/-- The index computed for a time between the start of the unread samples and their
end does not leave 64 bits. -/
theorem Tracks.index_eq {t : ℕ} (hlo : s.start ≤ t) (hhi : t ≤ s.next) :
    add64 s.buf.dataStart (sub64 t s.buf.timeStart) = s.buf.dataStart + (t - s.buf.timeStart) := by
  have hnext := h.next_lt
  have hle := h.unread_le
  have halloc := h.alloc
  have hroom := h.room
  have hdata := h.data_lt
  unfold start at hlo
  rw [sub64_eq (by omega) (by omega)]
  refine add64_eq ?_
  rcases h.time_start with hz | hts
  · rw [hz]; omega
  · omega

/-- What `read` does to a session that satisfies the invariant. -/
theorem Tracks.read_eq {len : ℕ} (hne : s.unread ≠ []) (hlen : len ≤ s.unread.length) :
    s.buf.read len s.start =
      (.ok len, s.unread.take len,
        { s.buf with
          dataStart := (s.buf.dataStart + (s.start - s.buf.timeStart) + len) % s.buf.bufLen
          timeStart := s.start + len }) := by
  have hnext := h.next_lt
  have hle := h.unread_le
  have hroom := h.room
  have hend := h.time_end hne
  have hpos : 0 < s.unread.length := List.length_pos_iff.mpr hne
  have hstart : s.start + s.unread.length = s.next := by unfold start; omega
  have hN : 0 < s.buf.bufLen := by have := h.two_le; omega
  have hidx := h.index_eq (t := s.start) (le_refl _) (by omega)
  set r := (s.buf.dataStart + (s.start - s.buf.timeStart)) % s.buf.bufLen with hr
  have hrlt : r < s.buf.bufLen := Nat.mod_lt _ hN
  have hstored : Stored s.buf.data 0 s.buf.bufLen r s.unread := stored_mod.mpr h.stored
  have hadd : add64 s.start len = s.start + len := add64_eq (by omega)
  have hnum : (if s.buf.timeEnd - s.start > len then len else s.buf.timeEnd - s.start) = len := by
    split_ifs <;> omega
  unfold SmplBuf.read
  rw [if_neg (by omega), if_neg (by omega), if_neg (by omega)]
  simp only [hidx, ← hr, hnum, hadd]
  rw [SmplBuf.copy_out_eq _ hrlt.le, ringRead_eq_take hrlt hstored hlen hroom.le,
    if_neg (by omega), hr, Nat.mod_add_mod]

/-- **A legal read delivers.** -/
theorem Tracks.delivers_read {len : ℕ} (hlen : len ≤ s.unread.length) :
    Delivers s (.read len) := by
  by_cases hne : s.unread = []
  · -- nothing is unread, so nothing is asked for and the buffer says there is nothing
    have hz : len = 0 := by simpa [hne] using hlen
    have hle := h.time_end_le
    have hts := h.unread_le
    simp only [Delivers, SmplBuf.read, start, hne, List.length_nil, Nat.sub_zero]
    rw [if_neg (by omega), if_pos hle]
    simp [hz]
  · simp only [Delivers, h.read_eq hne hlen, and_self]

/-- **A legal read keeps the invariant.** -/
theorem Tracks.step_read {len : ℕ} (hlen : len ≤ s.unread.length) :
    Tracks (s.step (.read len)) := by
  have hle := h.unread_le
  by_cases hne : s.unread = []
  · have hz : len = 0 := by simpa [hne] using hlen
    have hend := h.time_end_le
    have hbuf : (s.buf.read len s.start).2.2 = s.buf := by
      simp only [SmplBuf.read, start, hne, List.length_nil, Nat.sub_zero]
      rw [if_neg (by omega), if_pos hend]
    have hs : s.step (.read len) = s := by
      simp only [step, hbuf]
      rw [hz, List.drop_zero]
    rw [hs]
    exact h
  · have hN : 0 < s.buf.bufLen := by have := h.two_le; omega
    have hroom := h.room
    have hstart : s.start + s.unread.length = s.next := by unfold start; omega
    have hend := h.time_end hne
    simp only [step, h.read_eq hne hlen]
    refine
      { two_le := h.two_le
        alloc := h.alloc
        next_lt := h.next_lt
        room := by simp only [List.length_drop]; omega
        unread_le := by simp only [List.length_drop]; omega
        data_lt := Nat.mod_lt _ hN
        time_start := Or.inr (by simp only [List.length_drop]; omega)
        time_end_le := hend.le
        time_end := fun _ => hend
        stored := ?_ }
    have hzero : s.next - (s.unread.length - len) - (s.start + len) = 0 := by omega
    simp only [start, List.length_drop] at hzero ⊢
    rw [hzero, Nat.add_zero]
    exact stored_drop h.stored

/-- Where a write starts: `write_start`. -/
def writeStart (s : Session α) : ℕ :=
  (s.buf.dataStart + (s.next - s.buf.timeStart)) % s.buf.bufLen

/-- What `write` does to a session that satisfies the invariant. -/
theorem Tracks.write_eq {xs : List α} (hlegal : Legal s (.write xs))
    (hwrap : s.next + xs.length < 2 ^ 64) :
    (s.buf.write xs s.next).2 =
      { s.buf with
        data := ringWrite s.buf.data 0 s.buf.bufLen s.writeStart xs
        dataEnd := (s.writeStart + xs.length) % s.buf.bufLen
        timeEnd := s.next + xs.length
        dataStart := if s.buf.dataStart = 0 then s.writeStart else s.buf.dataStart } := by
  obtain ⟨hpos, hlt, hfit⟩ := hlegal
  have hend := h.time_end_le
  have hN : 0 < s.buf.bufLen := by have := h.two_le; omega
  have hidx := h.index_eq (t := s.next) (by unfold start; omega) (le_refl _)
  have hadd : add64 s.next xs.length = s.next + xs.length := add64_eq hwrap
  have hwlt : s.writeStart < s.buf.bufLen := Nat.mod_lt _ hN
  unfold SmplBuf.write
  rw [if_neg (by omega), if_neg (by omega)]
  simp only [hidx, hadd]
  rw [← writeStart, SmplBuf.copy_in_eq _ _ hwlt.le]

/-- **A legal, anchored write keeps the invariant.** -/
theorem Tracks.step_write {xs : List α} (hlegal : Legal s (.write xs))
    (hanch : Anchored s (.write xs)) : Tracks (s.step (.write xs)) := by
  have hbuf := h.write_eq hlegal hanch.2
  obtain ⟨hpos, hlt, hfit⟩ := hlegal
  obtain ⟨hanch, hwrap⟩ := hanch
  have hle := h.unread_le
  have hN : 0 < s.buf.bufLen := by have := h.two_le; omega
  -- the special case for `data_start == 0` assigns the value it already has
  have hds : (if s.buf.dataStart = 0 then s.writeStart else s.buf.dataStart) =
      s.buf.dataStart := by
    split_ifs with hz
    · rcases hanch with hnz | hmul
      · exact absurd hz hnz
      · rw [writeStart, hz, Nat.zero_add, hmul]
    · rfl
  rw [hds] at hbuf
  simp only [step, hbuf]
  have hts := h.time_start
  refine
    { two_le := h.two_le
      alloc := h.alloc
      next_lt := hwrap
      room := by simp only [List.length_append]; omega
      unread_le := by simp only [List.length_append]; omega
      data_lt := h.data_lt
      time_start := by simp only [List.length_append]; omega
      time_end_le := le_refl _
      time_end := fun _ => rfl
      stored := ?_ }
  -- the write starts where the unread samples end
  have hplace : s.writeStart =
      (s.buf.dataStart + (s.start - s.buf.timeStart) + s.unread.length) % s.buf.bufLen := by
    unfold writeStart start; congr 1; omega
  have hstart : s.next + xs.length - (s.unread ++ xs).length = s.start := by
    rw [List.length_append]; unfold start; omega
  simp only [start, hstart] at *
  rw [hplace]
  exact stored_ringWrite hN h.stored (by omega)

/-- **The condition is exact.**  If a write of `n` samples leaves the map intact
whatever the samples are, it is anchored: otherwise `data_start` moves to
`write_start` and the first new sample is looked for elsewhere. -/
theorem Tracks.anchored_of_forall_mapped [Nontrivial α] {n : ℕ} (hpos : 0 < n)
    (hlt : n < s.buf.bufLen) (hfit : s.unread.length + n ≤ s.buf.bufLen - 1)
    (hwrap : s.next + n < 2 ^ 64)
    (hall : ∀ xs : List α, xs.length = n → Mapped (s.step (.write xs))) :
    s.buf.dataStart ≠ 0 ∨ (s.next - s.buf.timeStart) % s.buf.bufLen = 0 := by
  by_contra hcon
  push Not at hcon
  obtain ⟨hz, hmul⟩ := hcon
  have hle := h.unread_le
  have hN : 0 < s.buf.bufLen := by have := h.two_le; omega
  set w := s.writeStart with hw
  have hwmod : (s.next - s.buf.timeStart) % s.buf.bufLen = w := by
    rw [hw, writeStart, hz, Nat.zero_add]
  have hwlt : w < s.buf.bufLen := hwmod ▸ Nat.mod_lt _ hN
  have hw0 : w ≠ 0 := hwmod ▸ hmul
  -- the first sample differs from the cell it will be looked for in, the others do not
  set b := s.buf.data ((w + w) % s.buf.bufLen) with hb
  obtain ⟨a, hab⟩ := exists_ne b
  obtain ⟨m, rfl⟩ : ∃ m, n = m + 1 := ⟨n - 1, by omega⟩
  set xs : List α := a :: List.replicate m b with hxs
  have hlen : xs.length = m + 1 := by rw [hxs, List.length_cons, List.length_replicate]
  have hlegal : Legal s (.write xs) := ⟨by omega, by omega, by omega⟩
  have hbuf := h.write_eq hlegal (by omega)
  rw [← hw, if_pos hz] at hbuf
  have hmap := hall xs hlen s.unread.length (by
    simp only [step, List.length_append]; omega)
  have hstart : (s.step (.write xs)).start + s.unread.length = s.next := by
    simp only [step, start, List.length_append]; omega
  have hplace : (s.step (.write xs)).buf.place s.next = (w + w) % s.buf.bufLen := by
    simp only [step, hbuf, SmplBuf.place]
    rw [Nat.add_mod, hwmod, Nat.mod_eq_of_lt hwlt]
  have hcell : (s.step (.write xs)).buf.data ((w + w) % s.buf.bufLen) = b := by
    have hread : ringWrite s.buf.data 0 s.buf.bufLen w xs (0 + (w + w) % s.buf.bufLen) = _ :=
      ringWrite_apply hwlt hwlt (by omega)
    rw [Nat.zero_add] at hread
    simp only [step, hbuf, hread]
    split_ifs with hin
    · obtain ⟨j, hj⟩ : ∃ j, w = j + 1 := ⟨w - 1, by omega⟩
      simp only [hxs, hj, List.getElem_cons_succ, List.getElem_replicate]
    · rfl
  rw [hstart, hplace, hcell] at hmap
  simp only [step, List.getElem_append_right (le_refl _), Nat.sub_self, hxs,
    List.getElem_cons_zero] at hmap
  exact hab hmap.symm

end Steps

/-! ## The refinement -/

theorem tracks_step {s : Session α} {op : Op α} (h : Tracks s)
    (hop : Legal s op ∧ Anchored s op) : Tracks (s.step op) := by
  cases op with
  | write xs => exact h.step_write hop.1 hop.2
  | read len => exact h.step_read hop.1

/-- **The buffer refines a map from timestamp to sample.**  In every run of contiguous
writes and in-order reads whose writes are anchored, each read returns its length and
the samples written for its timestamps, and in every state the run passes through each
unread sample lies where the affine map of the indices puts it. -/
theorem delivers_of_anchored (data : ℕ → α) {len t : ℕ} (hlen : 2 ≤ len)
    (halloc : 4 * len < 2 ^ 64) (ht : t < 2 ^ 64) (ops : List (Op α))
    (hops : Run.Along step (fun s op => Legal s op ∧ Anchored s op) (init data len t) ops) :
    Run.Along step Delivers (init data len t) ops ∧
      ∀ k, Mapped (Run.exec step (init data len t) (ops.take k)) := by
  have h0 := tracks_init data hlen halloc ht
  have hstep : ∀ (s : Session α) op, Tracks s → Legal s op ∧ Anchored s op → Tracks (s.step op) :=
    fun s op h hop => tracks_step h hop
  refine ⟨Run.along_of_invariant hstep ?_ h0 hops, fun k => ?_⟩
  · intro s op h hop
    cases op with
    | write xs => trivial
    | read n => exact h.delivers_read hop.1
  · exact (Run.invariant_exec_take hstep h0 hops k).mapped

/-- A run the refinement covers: a first timestamp that is a multiple of the buffer
length, and writes and reads that take turns. -/
theorem delivers_of_anchored_run :
    Run.Along step Delivers (init (fun _ => 0) 4 8)
        [.write [10, 11], .read 2, .write [12, 13], .read 1] ∧
      ∀ k, Mapped (Run.exec step (init (fun _ => 0) 4 8)
        (([.write [10, 11], .read 2, .write [12, 13], .read 1] : List (Op ℕ)).take k)) :=
  delivers_of_anchored (fun _ => 0) (by decide) (by decide) (by decide) _ (by decide)

/-! ## The writes that displace the map -/

/-- **A displaced first write.**  The first timestamp, `1`, is not a multiple of the
buffer length: `data_start` becomes `1` while `time_start` stays `0`, and the first
read returns the wrong samples. -/
theorem first_write_displaced :
    Run.Along step Legal (init (fun _ => 0) 4 1) [.write [10, 11], .read 2] ∧
      ¬ Run.Along step Delivers (init (fun _ => 0) 4 1) [.write [10, 11], .read 2] := by
  decide

/-- **A displaced later write.**  The fourth operation leaves `data_start` on `0` with
one sample unread; the write after it moves `data_start`, and that sample is lost. -/
theorem write_at_zero_displaced :
    Run.Along step Legal (init (fun _ => 0) 4 8)
        [.write [10, 11], .read 2, .write [12, 13, 14], .read 2, .write [15], .read 1] ∧
      ¬ Run.Along step Delivers (init (fun _ => 0) 4 8)
        [.write [10, 11], .read 2, .write [12, 13, 14], .read 2, .write [15], .read 1] := by
  decide

end Session
end Device
end OsmoTrx
