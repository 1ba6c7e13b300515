import OsmoTrx.Device.SmplBuf

/-!
# The error codes of the receive sample buffer

What `smpl_buf::read` and `smpl_buf::write` of `Transceiver52M/device/uhd/UHDDevice.cpp` report
when something goes wrong, and in which state they leave the buffer.

* `honest_iff_within` — in any run of calls with any arguments, a refused call changes nothing and
  a read copies what it says it copied, as long as **no read asks for samples past the end of
  those that are stored**.  `read_past_end` is such a read.
* `Ledger` — the buffer with the cells of the ring that hold the samples written and not read yet.
* `reports_iff_tellable` — `ERROR_OVERFLOW` is the loss of unread samples as long as the unread
  samples lie where the indices say and **a loss comes in the first lap**: `data_start` is not `0`
  and the newest samples begin there and have not reached the end of the ring.
  `loss_unreported` has two runs that leave the condition.
-/

namespace OsmoTrx
namespace Device

open Mem

variable {α : Type*}

/-! ## What a failed call leaves behind -/

/-- A call on the buffer, with arguments of any value. -/
inductive BufCall (α : Type*)
  | read (len timestamp : ℕ)
  | write (buf : List α) (timestamp : ℕ)
  deriving DecidableEq, Repr

/-- The timestamp of a call, a `TIMESTAMP`. -/
def BufCall.timestamp : BufCall α → ℕ
  | .read _ timestamp => timestamp
  | .write _ timestamp => timestamp

namespace SmplBuf

/-- The buffer after a call. -/
def step (b : SmplBuf α) : BufCall α → SmplBuf α
  | .read len timestamp => (b.read len timestamp).2.2
  | .write buf timestamp => (b.write buf timestamp).2

/-- The index of the ring at which the code puts and looks for the sample of a time. -/
def index (b : SmplBuf α) (timestamp : ℕ) : ℕ :=
  add64 b.dataStart (sub64 timestamp b.timeStart) % b.bufLen

/-- The `k` samples from a time on. -/
def samplesFrom (b : SmplBuf α) (timestamp k : ℕ) : List α :=
  (List.range k).map fun i => b.data ((b.index timestamp + i) % b.bufLen)

/-- A call that fails, other than by an overflow, changes nothing; a read that returns `k` has
copied `k` samples and moved `time_start` behind them, or has copied nothing and changed nothing;
and the stored range does not end before it starts. -/
def Honest (b : SmplBuf α) (c : BufCall α) : Prop :=
  (match c with
    | .read len timestamp =>
      match b.read len timestamp with
      | (.error _, _, b') => b' = b
      | (.ok k, out, b') => out = b.samplesFrom timestamp k ∧
          (b'.timeStart = timestamp + k ∨ k = 0 ∧ b' = b)
    | .write buf timestamp =>
      match b.write buf timestamp with
      | (.error .overflow, _) => True
      | (.error _, b') => b' = b
      | (.ok _, _) => True) ∧
  (b.step c).timeStart ≤ (b.step c).timeEnd

/-- A read that begins among the stored samples, and is shorter than the buffer, ends there. -/
def Within (b : SmplBuf α) : BufCall α → Prop
  | .read len timestamp => b.timeStart ≤ timestamp → timestamp < b.timeEnd → len < b.bufLen →
      timestamp + len ≤ b.timeEnd
  | .write _ _ => True

instance (b : SmplBuf α) : DecidablePred (Within b)
  | .read _ _ => inferInstanceAs (Decidable (_ → _ → _ → _ ≤ _))
  | .write _ _ => .isTrue trivial

/-- The stored range, in times of 64 bits. -/
structure Ranged (b : SmplBuf α) : Prop where
  alloc : 4 * b.bufLen < 2 ^ 64
  start_le : b.timeStart ≤ b.timeEnd
  end_lt : b.timeEnd < 2 ^ 64

section Calls

variable {b : SmplBuf α}

/-- A read that is not refused. -/
theorem read_eq {len timestamp : ℕ} (hstart : b.timeStart ≤ timestamp)
    (hend : timestamp < b.timeEnd) (hlen : len < b.bufLen) :
    b.read len timestamp =
      (if add64 timestamp len > b.timeEnd then .error .read
        else .ok (min len (b.timeEnd - timestamp)),
        if b.index timestamp + min len (b.timeEnd - timestamp) < b.bufLen then
          slice b.data (b.index timestamp) len
        else slice b.data (b.index timestamp) (b.bufLen - b.index timestamp) ++
          slice b.data 0 (len - (b.bufLen - b.index timestamp)),
        { b with
          dataStart := (b.index timestamp + len) % b.bufLen
          timeStart := add64 timestamp len }) := by
  have hnum : (if b.timeEnd - timestamp > len then len else b.timeEnd - timestamp) =
      min len (b.timeEnd - timestamp) := by split_ifs <;> omega
  unfold read index
  rw [if_neg (by omega), if_neg (by omega), if_neg (by omega)]
  simp only [hnum]

/-- What a ring read copies, sample by sample. -/
theorem ringRead_eq_samplesFrom {len timestamp : ℕ} (hlen : len < b.bufLen) :
    ringRead b.data 0 b.bufLen (b.index timestamp) len = b.samplesFrom timestamp len := by
  have hindex : b.index timestamp < b.bufLen := Nat.mod_lt _ (by omega)
  refine List.ext_getElem ?_ fun i h1 h2 => ?_
  · rw [length_ringRead hindex.le, samplesFrom, List.length_map, List.length_range]
  · rw [length_ringRead hindex.le] at h1
    rw [getElem_ringRead hindex hlen.le h1, Nat.zero_add]
    simp only [samplesFrom, List.getElem_map, List.getElem_range]

/-- A read that is refused leaves the buffer alone and copies nothing. -/
theorem read_refused {len timestamp : ℕ}
    (h : timestamp < b.timeStart ∨ b.timeEnd ≤ timestamp ∨ b.bufLen ≤ len) :
    (b.read len timestamp).2 = ([], b) ∧
      ((b.read len timestamp).1 = .ok 0 ∨ ∃ e, (b.read len timestamp).1 = .error e) := by
  unfold read
  split_ifs with h1 h2 h3
  · exact ⟨rfl, Or.inr ⟨_, rfl⟩⟩
  · exact ⟨rfl, Or.inl rfl⟩
  · exact ⟨rfl, Or.inr ⟨_, rfl⟩⟩
  · omega

theorem Ranged.honest_read_iff (h : Ranged b) {len timestamp : ℕ} (ht : timestamp < 2 ^ 64) :
    Honest b (.read len timestamp) ↔ Within b (.read len timestamp) := by
  have hle := h.start_le
  have hlt := h.end_lt
  have halloc := h.alloc
  by_cases hrefused : timestamp < b.timeStart ∨ b.timeEnd ≤ timestamp ∨ b.bufLen ≤ len
  · refine iff_of_true ?_ fun h1 h2 h3 => by omega
    obtain ⟨hsame, hresult⟩ := read_refused hrefused
    simp only [Honest, step]
    rcases hread : b.read len timestamp with ⟨r, out, b'⟩
    rw [hread] at hsame hresult
    simp only [Prod.mk.injEq] at hsame
    obtain ⟨rfl, rfl⟩ := hsame
    rcases hresult with hok | ⟨e, herr⟩
    · simp only at hok
      subst hok
      exact ⟨⟨rfl, Or.inr ⟨rfl, rfl⟩⟩, hle⟩
    · simp only at herr
      subst herr
      exact ⟨rfl, hle⟩
  · push Not at hrefused
    obtain ⟨h1, h2, h3⟩ := hrefused
    have hwithin : Within b (.read len timestamp) ↔ timestamp + len ≤ b.timeEnd :=
      ⟨fun hw => hw h1 h2 h3, fun hw _ _ _ => hw⟩
    have hindex : b.index timestamp < b.bufLen := Nat.mod_lt _ (by omega)
    rw [hwithin]
    simp only [Honest, step, read_eq h1 h2 h3]
    by_cases hend : timestamp + len ≤ b.timeEnd
    · have hadd : add64 timestamp len = timestamp + len := add64_eq (by omega)
      rw [iff_true_right hend, hadd, if_neg (by omega), min_eq_left (by omega),
        copy_out_eq _ hindex.le, ringRead_eq_samplesFrom h3]
      exact ⟨⟨rfl, Or.inl rfl⟩, hend⟩
    · -- the end of the read wraps around 64 bits, or the code sees that it is too late
      rw [iff_false_right hend]
      rintro ⟨hhonest, -⟩
      by_cases hwrap : timestamp + len < 2 ^ 64
      · rw [add64_eq hwrap, if_pos (by omega)] at hhonest
        have := congrArg SmplBuf.timeStart hhonest
        simp only at this
        omega
      · have hadd : add64 timestamp len = timestamp + len - 2 ^ 64 := by unfold add64; omega
        rw [hadd, if_neg (by omega)] at hhonest
        obtain ⟨-, hmoved | ⟨hzero, -⟩⟩ := hhonest
        · simp only at hmoved
          omega
        · omega

/-- A write that is not refused. -/
theorem write_eq {buf : List α} {timestamp : ℕ} (hpos : 0 < buf.length)
    (hlen : buf.length < b.bufLen) (hend : b.timeEnd < add64 timestamp buf.length) :
    b.write buf timestamp =
      (if b.index timestamp + buf.length > b.bufLen ∧ (b.index timestamp + buf.length) % b.bufLen >
            (if b.dataStart = 0 then b.index timestamp else b.dataStart) then .error .overflow
        else if add64 timestamp buf.length ≤ b.timeStart then .error .write
        else .ok buf.length,
        { b with
          data := ringWrite b.data 0 b.bufLen (b.index timestamp) buf
          dataEnd := (b.index timestamp + buf.length) % b.bufLen
          timeEnd := add64 timestamp buf.length
          dataStart := if b.dataStart = 0 then b.index timestamp else b.dataStart }) := by
  have hindex : b.index timestamp < b.bufLen := Nat.mod_lt _ (by omega)
  rw [← copy_in_eq _ _ hindex.le]
  unfold write index
  rw [if_neg (by omega), if_neg (by omega)]

/-- A write that is refused leaves the buffer alone. -/
theorem write_refused {buf : List α} {timestamp : ℕ}
    (h : buf.length = 0 ∨ b.bufLen ≤ buf.length ∨ add64 timestamp buf.length ≤ b.timeEnd) :
    ∃ e, b.write buf timestamp = (.error e, b) := by
  unfold write
  by_cases hlen : buf.length = 0 ∨ buf.length ≥ b.bufLen
  · exact ⟨_, if_pos hlen⟩
  · rw [if_neg hlen, if_pos (by omega)]
    exact ⟨_, rfl⟩

/-- **A write that fails without an overflow changes nothing**: the check made last never fails,
because the stored range grows. -/
theorem Ranged.honest_write (h : Ranged b) (buf : List α) (timestamp : ℕ) :
    Honest b (.write buf timestamp) := by
  have hle := h.start_le
  by_cases hrefused : buf.length = 0 ∨ b.bufLen ≤ buf.length ∨
      add64 timestamp buf.length ≤ b.timeEnd
  · obtain ⟨e, hwrite⟩ := write_refused hrefused
    simp only [Honest, step, hwrite]
    refine ⟨?_, hle⟩
    cases e <;> trivial
  · push Not at hrefused
    obtain ⟨hpos, hlen, hend⟩ := hrefused
    simp only [Honest, step, write_eq (Nat.pos_of_ne_zero hpos) hlen hend]
    rw [if_neg (show ¬ add64 timestamp buf.length ≤ b.timeStart by omega)]
    refine ⟨?_, by omega⟩
    split_ifs <;> trivial

theorem Ranged.step (h : Ranged b) {c : BufCall α} (hc : c.timestamp < 2 ^ 64)
    (hwithin : Within b c) : Ranged (b.step c) := by
  have hhonest : Honest b c := by
    cases c with
    | read len timestamp => exact (h.honest_read_iff hc).mpr hwithin
    | write buf timestamp => exact h.honest_write buf timestamp
  have hlt := h.end_lt
  cases c with
  | read len timestamp =>
    have hkept : (b.read len timestamp).2.2.bufLen = b.bufLen ∧
        (b.read len timestamp).2.2.timeEnd = b.timeEnd := by
      unfold SmplBuf.read
      split_ifs <;> exact ⟨rfl, rfl⟩
    exact ⟨by rw [SmplBuf.step, hkept.1]; exact h.alloc, hhonest.2,
      by rw [SmplBuf.step, hkept.2]; exact h.end_lt⟩
  | write buf timestamp =>
    by_cases hrefused : buf.length = 0 ∨ b.bufLen ≤ buf.length ∨
        add64 timestamp buf.length ≤ b.timeEnd
    · obtain ⟨e, hwrite⟩ := write_refused hrefused
      rw [SmplBuf.step, hwrite]
      exact h
    · push Not at hrefused
      obtain ⟨hpos, hlen, hend⟩ := hrefused
      have hordered := hhonest.2
      simp only [SmplBuf.step, write_eq (Nat.pos_of_ne_zero hpos) hlen hend] at hordered ⊢
      exact ⟨h.alloc, hordered, Nat.mod_lt _ (by norm_num)⟩

theorem ranged_init (data : ℕ → α) {len : ℕ} (halloc : 4 * len < 2 ^ 64) :
    Ranged (init data len) := ⟨halloc, le_refl _, by norm_num [init]⟩

/-- **Failed calls change nothing, and reads are honest**, in exactly those runs of calls in which
no read that begins among the stored samples asks for more than there are. -/
theorem honest_iff_within (data : ℕ → α) {len : ℕ} (halloc : 4 * len < 2 ^ 64)
    (calls : List (BufCall α)) (hcalls : ∀ c ∈ calls, c.timestamp < 2 ^ 64) :
    Run.Along SmplBuf.step Honest (init data len) calls ↔
      Run.Along SmplBuf.step Within (init data len) calls := by
  have hok : Run.Along SmplBuf.step (fun _ c => c.timestamp < 2 ^ 64) (init data len) calls :=
    Run.along_of_forall hcalls
  refine (Run.along_congr_of_invariant (I := Ranged) (fun b c h hc hw => h.step hc hw)
    (fun b c h hc => ?_) (ranged_init data halloc) hok).symm
  cases c with
  | read len timestamp => exact (h.honest_read_iff hc).symm
  | write buf timestamp => exact iff_of_true trivial (h.honest_write buf timestamp)

end Calls

/-- Four samples are written and read, two of them twice over. -/
theorem honest_iff_within_reads :
    Run.Along SmplBuf.step Honest (init (fun _ => 0) 8)
        [.write [1, 2, 3, 4] 8, .read 2 8, .read 2 10, .read 2 8, .write [5] 12] ↔
      Run.Along SmplBuf.step Within (init (fun _ => 0) 8)
        [.write [1, 2, 3, 4] 8, .read 2 8, .read 2 10, .read 2 8, .write [5] 12] :=
  honest_iff_within (fun _ => 0) (by norm_num) _ (by decide)

/-- The buffer after a write of four samples for the times from 8 on. -/
def fourSamples : SmplBuf ℕ := (init (fun _ => 0) 8).step (.write [1, 2, 3, 4] 8)

/-- **A read past the end.**  Six samples are asked for where four are stored: the read fails, and
has moved `time_start` behind `time_end`. -/
theorem read_past_end :
    (fourSamples.read 6 8).1 = .error .read ∧
      (fourSamples.read 6 8).2.2.timeStart = 14 ∧ fourSamples.timeStart = 0 ∧
      (fourSamples.read 6 8).2.2.timeEnd = 12 ∧
      ¬ Run.Along SmplBuf.step Honest (init (fun _ => 0) 8) [.write [1, 2, 3, 4] 8, .read 6 8] := by
  refine ⟨by decide, by decide, by decide, by decide, ?_⟩
  rintro ⟨-, ⟨-, hordered⟩, -⟩
  revert hordered
  decide

end SmplBuf

/-! ## Overflow -/

/-- A receive session as a store of places: the buffer, the time at which the next write starts,
and the cells of the ring in which the samples written and not read yet were put, oldest first. -/
structure Ledger (α : Type*) where
  buf : SmplBuf α
  next : ℕ
  cells : List ℕ

namespace Ledger

/-- The samples written and not read yet. -/
def unread (s : Ledger α) : ℕ := s.cells.length

/-- The time of the oldest of them. -/
def start (s : Ledger α) : ℕ := s.next - s.unread

/-- The cells that a write of `len` samples writes. -/
def written (s : Ledger α) (len : ℕ) : List ℕ :=
  (List.range len).map fun i => (s.buf.index s.next + i) % s.buf.bufLen

/-- The session after one operation: a write that is not refused puts its samples, a read that
returns a number of samples takes them. -/
def step (s : Ledger α) : Op α → Ledger α
  | .write xs =>
    match s.buf.write xs s.next with
    | (.ok _, b) | (.error .overflow, b) => ⟨b, s.next + xs.length, s.cells ++ s.written xs.length⟩
    | (.error _, b) => ⟨b, s.next, s.cells⟩
  | .read len =>
    match s.buf.read len s.start with
    | (.ok k, _, b) => ⟨b, s.next, s.cells.drop k⟩
    | (.error _, _, b) => ⟨b, s.next, s.cells⟩

/-- A session over a fresh buffer whose first write will carry the timestamp `t`. -/
def init (data : ℕ → α) (len t : ℕ) : Ledger α := ⟨SmplBuf.init data len, t, []⟩

/-- Writes are shorter than the buffer, and reads are of samples that have been written. -/
def Legal (s : Ledger α) : Op α → Prop
  | .write xs => 0 < xs.length ∧ xs.length < s.buf.bufLen
  | .read len => len ≤ s.unread

/-- A write reports an overflow if more than `buf_len` samples are unread after it, which is if it
has overwritten one of them. -/
def Reports (s : Ledger α) : Op α → Prop
  | .write xs =>
    ((s.buf.write xs s.next).1 = .error .overflow ↔ s.buf.bufLen < s.unread + xs.length) ∧
    ((s.buf.write xs s.next).1 = .error .overflow ↔ ∃ c ∈ s.cells, c ∈ s.written xs.length)
  | .read _ => True

/-- When a write comes, the unread samples lie where the indices say, and neither its times nor the
index computed from them reach `2^64`. -/
def Charted (s : Ledger α) : Op α → Prop
  | .write xs => s.buf.dataStart + (s.next + xs.length) < 2 ^ 64 ∧
      s.cells = (List.range s.unread).map fun i =>
        (s.buf.dataStart + (s.start - s.buf.timeStart) + i) % s.buf.bufLen
  | .read _ => True

/-- A write fits, or `data_start` is not `0` and the samples of the newest lap, which begin at
`data_start`, do not reach the end of the ring before the write comes to `data_start` again. -/
def FirstLap (s : Ledger α) : Op α → Prop
  | .write xs => s.unread + xs.length ≤ s.buf.bufLen ∨
      (s.buf.dataStart ≠ 0 ∧ s.buf.dataStart + s.unread % s.buf.bufLen < s.buf.bufLen ∧
        s.buf.bufLen < s.unread % s.buf.bufLen + xs.length)
  | .read _ => True

/-- The writes whose overflows can be told. -/
def Tellable (s : Ledger α) (op : Op α) : Prop := Charted s op ∧ FirstLap s op

instance (s : Ledger α) : DecidablePred (Legal s)
  | .write _ => inferInstanceAs (Decidable (_ ∧ _))
  | .read _ => inferInstanceAs (Decidable (_ ≤ _))

instance (s : Ledger α) : DecidablePred (Charted s)
  | .write _ => inferInstanceAs (Decidable (_ ∧ _))
  | .read _ => .isTrue trivial

instance (s : Ledger α) : DecidablePred (FirstLap s)
  | .write _ => inferInstanceAs (Decidable (_ ∨ _))
  | .read _ => .isTrue trivial

instance (s : Ledger α) : DecidablePred (Tellable s) :=
  fun _ => inferInstanceAs (Decidable (_ ∧ _))

instance (s : Ledger α) : DecidablePred (Reports s)
  | .write _ => inferInstanceAs (Decidable (_ ∧ _))
  | .read _ => .isTrue trivial

/-- The indices of the buffer beside the unread samples.  Before the first read `time_start` is
still `0`. -/
structure Indexed (s : Ledger α) : Prop where
  two_le : 2 ≤ s.buf.bufLen
  next_lt : s.next < 2 ^ 64
  data_lt : s.buf.dataStart < s.buf.bufLen
  start_le : s.buf.timeStart + s.unread ≤ s.next
  end_le : s.buf.timeEnd ≤ s.next
  end_eq : s.cells ≠ [] → s.buf.timeEnd = s.next
  time_start : s.buf.timeStart + s.unread = s.next ∨
    (s.buf.timeStart = 0 ∧ (s.cells = [] → s.buf.dataStart = 0) ∧
      ∀ c ∈ s.cells.head?, c = s.start % s.buf.bufLen)

theorem indexed_init (data : ℕ → α) {len t : ℕ} (hlen : 2 ≤ len) (ht : t < 2 ^ 64) :
    Indexed (init data len t) where
  two_le := hlen
  next_lt := ht
  data_lt := by simp only [init, SmplBuf.init]; omega
  start_le := Nat.zero_le _
  end_le := Nat.zero_le _
  end_eq h := absurd rfl h
  time_start := Or.inr ⟨rfl, fun _ => rfl, fun c hc => by simp [init] at hc⟩

/-- The test of `write` for an overflow, for a write `x` samples behind `data_start`. -/
theorem test_iff {n d x len : ℕ} (hd : d < n) (hpos : 0 < len) (hlen : len < n) :
    ((d + x) % n + len > n ∧ ((d + x) % n + len) % n > (if d = 0 then (d + x) % n else d)) ↔
      d ≠ 0 ∧ d + x % n < n ∧ n < x % n + len := by
  have hx : x % n < n := Nat.mod_lt _ (by omega)
  have hwrap (y : ℕ) (hy : y < n) (hgt : y + len > n) : (y + len) % n = y + len - n := by
    rw [Nat.mod_eq_sub_mod (by omega), Nat.mod_eq_of_lt (by omega)]
  rw [← Nat.add_mod_mod, ring_index hd hx]
  by_cases hz : d = 0
  · -- `data_start` has just been set to the place of the write
    subst hz
    rw [if_pos rfl, if_pos (by omega), Nat.zero_add]
    constructor
    · rintro ⟨hgt, hback⟩
      rw [hwrap _ hx hgt] at hback
      omega
    · rintro ⟨hne, -⟩
      exact absurd rfl hne
  · rw [if_neg hz]
    by_cases hlap : d + x % n < n
    · rw [if_pos hlap]
      constructor
      · rintro ⟨hgt, hback⟩
        rw [hwrap _ hlap hgt] at hback
        exact ⟨hz, hlap, by omega⟩
      · rintro ⟨-, -, hover⟩
        refine ⟨by omega, ?_⟩
        rw [hwrap _ hlap (by omega)]
        omega
    · rw [if_neg hlap]
      constructor
      · rintro ⟨hgt, hback⟩
        rw [hwrap _ (by omega) hgt] at hback
        omega
      · rintro ⟨-, hin, -⟩
        exact absurd hin hlap

/-- Of two stretches of cells, one behind the other, the second meets the first when they are
longer together than the ring. -/
theorem meets_iff (base : ℕ) {n u len : ℕ} (hpos : 0 < len) (hlen : len < n) :
    (∃ c ∈ (List.range u).map fun i => (base + i) % n,
        c ∈ (List.range len).map fun i => (base + u + i) % n) ↔ n < u + len := by
  simp only [List.mem_map, List.mem_range]
  constructor
  · rintro ⟨c, ⟨i, hi, rfl⟩, j, hj, hij⟩
    have hmod : base + i ≡ base + u + j [MOD n] := hij.symm
    have hdvd : n ∣ base + u + j - (base + i) := (Nat.modEq_iff_dvd' (by omega)).mp hmod
    have hle : n ≤ base + u + j - (base + i) := Nat.le_of_dvd (by omega) hdvd
    omega
  · intro hover
    by_cases hu : n ≤ u
    · refine ⟨_, ⟨u - n, by omega, rfl⟩, 0, hpos, ?_⟩
      rw [show base + u + 0 = base + (u - n) + n by omega, Nat.add_mod_right]
    · refine ⟨_, ⟨0, by omega, rfl⟩, n - u, by omega, ?_⟩
      rw [show base + u + (n - u) = base + 0 + n by omega, Nat.add_mod_right]

section Steps

variable {s : Ledger α} (h : Indexed s)
include h

/-- The index computed for the next write. -/
theorem Indexed.index_eq (hrange : s.buf.dataStart + s.next < 2 ^ 64) :
    s.buf.index s.next = (s.buf.dataStart + (s.next - s.buf.timeStart)) % s.buf.bufLen := by
  have hle := h.start_le
  rw [SmplBuf.index, sub64_eq (by omega) h.next_lt, add64_eq (by omega)]

/-- What a write returns. -/
theorem Indexed.write_result {xs : List α} (hlegal : Legal s (.write xs))
    (hrange : s.buf.dataStart + (s.next + xs.length) < 2 ^ 64) :
    (s.buf.write xs s.next).1 = .error .overflow ∧ (s.buf.dataStart ≠ 0 ∧
        s.buf.dataStart + (s.next - s.buf.timeStart) % s.buf.bufLen < s.buf.bufLen ∧
        s.buf.bufLen < (s.next - s.buf.timeStart) % s.buf.bufLen + xs.length) ∨
      (s.buf.write xs s.next).1 = .ok xs.length ∧ ¬ (s.buf.dataStart ≠ 0 ∧
        s.buf.dataStart + (s.next - s.buf.timeStart) % s.buf.bufLen < s.buf.bufLen ∧
        s.buf.bufLen < (s.next - s.buf.timeStart) % s.buf.bufLen + xs.length) := by
  obtain ⟨hpos, hlen⟩ := hlegal
  have hstart := h.start_le
  have hend := h.end_le
  have hadd : add64 s.next xs.length = s.next + xs.length := add64_eq (by omega)
  rw [SmplBuf.write_eq hpos hlen (by omega), hadd, h.index_eq (by omega)]
  simp only [test_iff h.data_lt hpos hlen]
  rw [if_neg (show ¬ s.next + xs.length ≤ s.buf.timeStart by omega)]
  split_ifs with htest
  · exact Or.inl ⟨rfl, htest⟩
  · exact Or.inr ⟨rfl, htest⟩

/-- The session after a write. -/
theorem Indexed.step_write_eq {xs : List α} (hlegal : Legal s (.write xs))
    (hrange : s.buf.dataStart + (s.next + xs.length) < 2 ^ 64) :
    s.step (.write xs) =
      ⟨(s.buf.write xs s.next).2, s.next + xs.length, s.cells ++ s.written xs.length⟩ := by
  have hresult := h.write_result hlegal hrange
  simp only [step]
  rcases hwrite : s.buf.write xs s.next with ⟨r, b⟩
  rw [hwrite] at hresult
  rcases hresult with ⟨hr, -⟩ | ⟨hr, -⟩ <;> simp only at hr <;> subst hr <;> rfl

/-- The cells that a write writes begin behind those of the unread samples, so that it overwrites
one exactly if there are more than `buf_len`. -/
theorem Indexed.overwrites_iff {xs : List α} (hlegal : Legal s (.write xs))
    (hchart : Charted s (.write xs)) :
    (∃ c ∈ s.cells, c ∈ s.written xs.length) ↔ s.buf.bufLen < s.unread + xs.length := by
  obtain ⟨hpos, hlen⟩ := hlegal
  obtain ⟨hrange, hcells⟩ := hchart
  have hstart := h.start_le
  have hplace : s.buf.dataStart + (s.next - s.buf.timeStart) =
      s.buf.dataStart + (s.start - s.buf.timeStart) + s.unread := by unfold start; omega
  rw [← meets_iff (s.buf.dataStart + (s.start - s.buf.timeStart)) hpos hlen, ← hcells, written,
    h.index_eq (by omega)]
  simp only [hplace, Nat.mod_add_mod]

/-- Once `data_start` has left `0`, it is where the unread samples begin. -/
theorem Indexed.lap_eq {xs : List α} (hchart : Charted s (.write xs)) (hz : s.buf.dataStart ≠ 0) :
    (s.next - s.buf.timeStart) % s.buf.bufLen = s.unread % s.buf.bufLen := by
  obtain ⟨-, hcells⟩ := hchart
  have hstart := h.start_le
  rcases h.time_start with hts | ⟨hts, hempty, hfirst⟩
  · rw [show s.next - s.buf.timeStart = s.unread by omega]
  · exfalso
    by_cases hne : s.cells = []
    · exact hz (hempty hne)
    · have hpos : 0 < s.unread := List.length_pos_iff.mpr hne
      have hhead : s.cells.head? =
          some ((s.buf.dataStart + (s.start - s.buf.timeStart) + 0) % s.buf.bufLen) := by
        rw [hcells]
        obtain ⟨m, hm⟩ : ∃ m, s.unread = m + 1 := ⟨s.unread - 1, by omega⟩
        rw [hm, List.range_succ_eq_map, List.map_cons, List.head?_cons]
      have hmod := hfirst _ hhead
      rw [hts, Nat.sub_zero, Nat.add_zero] at hmod
      have hdvd : s.buf.dataStart + s.start ≡ 0 + s.start [MOD s.buf.bufLen] := by
        rw [Nat.zero_add]
        exact hmod
      have hzero := Nat.ModEq.add_right_cancel' _ hdvd
      rw [Nat.ModEq, Nat.zero_mod, Nat.mod_eq_of_lt h.data_lt] at hzero
      exact hz hzero

/-- **Over a charted session, the report is right in the first lap only.** -/
theorem Indexed.reports_iff {xs : List α} (hlegal : Legal s (.write xs))
    (hchart : Charted s (.write xs)) : Reports s (.write xs) ↔ FirstLap s (.write xs) := by
  have hresult := h.write_result hlegal hchart.1
  obtain ⟨hpos, hlen⟩ := hlegal
  simp only [Reports, h.overwrites_iff ⟨hpos, hlen⟩ hchart, and_self, FirstLap]
  by_cases hz : s.buf.dataStart = 0
  · have hok : (s.buf.write xs s.next).1 ≠ .error .overflow := by
      rcases hresult with ⟨-, hne, -⟩ | ⟨hok, -⟩
      · exact absurd hz hne
      · rw [hok]
        exact fun hcon => by cases hcon
    simp only [hok, hz, false_iff, ne_eq, not_true_eq_false, false_and, or_false, not_lt]
  · rw [h.lap_eq hchart hz] at hresult
    have hmod : s.unread % s.buf.bufLen ≤ s.unread := Nat.mod_le _ _
    rcases hresult with ⟨herr, hin⟩ | ⟨hok, hout⟩
    · simp only [herr, true_iff]
      exact ⟨fun _ => Or.inr hin, fun _ => by omega⟩
    · have hne : (s.buf.write xs s.next).1 ≠ .error .overflow := by
        rw [hok]
        exact fun hcon => by cases hcon
      simp only [hne, false_iff, not_lt]
      exact ⟨Or.inl, fun hlap => hlap.resolve_right hout⟩

theorem Indexed.step_write {xs : List α} (hlegal : Legal s (.write xs))
    (hrange : s.buf.dataStart + (s.next + xs.length) < 2 ^ 64) :
    Indexed (s.step (.write xs)) := by
  rw [h.step_write_eq hlegal hrange]
  obtain ⟨hpos, hlen⟩ := hlegal
  have hstart := h.start_le
  have hend := h.end_le
  have hdata := h.data_lt
  have hadd : add64 s.next xs.length = s.next + xs.length := add64_eq (by omega)
  have hindex : s.buf.index s.next < s.buf.bufLen := Nat.mod_lt _ (by omega)
  have hunread (b : SmplBuf α) : unread ⟨b, s.next + xs.length, s.cells ++ s.written xs.length⟩ =
      s.unread + xs.length := by
    simp only [unread, List.length_append, written, List.length_map, List.length_range]
  have hsame (b : SmplBuf α) : start ⟨b, s.next + xs.length, s.cells ++ s.written xs.length⟩ =
      s.start := by
    simp only [start, hunread]
    omega
  rw [SmplBuf.write_eq hpos hlen (by omega), hadd]
  refine
    { two_le := h.two_le
      next_lt := by simp only; omega
      data_lt := by simp only; split_ifs <;> assumption
      start_le := by rw [hunread]; simp only; omega
      end_le := le_refl _
      end_eq := fun _ => rfl
      time_start := ?_ }
  rw [hunread, hsame]
  rcases h.time_start with hts | ⟨hts, hempty, hfirst⟩
  · exact Or.inl (by simp only; omega)
  · refine Or.inr ⟨hts, fun hnil => ?_, fun c hc => ?_⟩
    · have hz : s.unread + xs.length = 0 := by
        rw [← hunread s.buf, unread, List.length_eq_zero_iff]
        exact hnil
      omega
    · simp only at hc ⊢
      by_cases hne : s.cells = []
      · -- the first write, which starts at its timestamp modulo the length of the buffer
        obtain ⟨m, hm⟩ : ∃ m, xs.length = m + 1 := ⟨xs.length - 1, by omega⟩
        rw [hne, List.nil_append, written, hm, List.range_succ_eq_map, List.map_cons,
          List.head?_cons, Option.mem_def, Option.some.injEq] at hc
        have hz : s.unread = 0 := by rw [unread, hne, List.length_nil]
        have hnext : s.start = s.next := by rw [Ledger.start, hz, Nat.sub_zero]
        rw [← hc, Nat.add_zero, Nat.mod_eq_of_lt hindex, h.index_eq (by omega), hempty hne, hts,
          Nat.zero_add, Nat.sub_zero, hnext]
      · obtain ⟨c₀, rest, hcons⟩ := List.exists_cons_of_ne_nil hne
        rw [hcons, List.cons_append, List.head?_cons] at hc
        exact hfirst c (by rw [hcons, List.head?_cons]; exact hc)

theorem Indexed.step_read {len : ℕ} (hlegal : Legal s (.read len)) :
    Indexed (s.step (.read len)) := by
  have hstart := h.start_le
  have hend := h.end_le
  have hnext := h.next_lt
  have hlegal : len ≤ s.unread := hlegal
  simp only [step]
  by_cases hrefused : s.start < s.buf.timeStart ∨ s.buf.timeEnd ≤ s.start ∨ s.buf.bufLen ≤ len
  · obtain ⟨hsame, hresult⟩ := SmplBuf.read_refused hrefused
    rcases hread : s.buf.read len s.start with ⟨r, out, b⟩
    rw [hread] at hsame hresult
    simp only [Prod.mk.injEq] at hsame hresult
    obtain ⟨-, rfl⟩ := hsame
    rcases hresult with hok | ⟨e, herr⟩
    · subst hok
      exact h
    · subst herr
      exact h
  · push Not at hrefused
    obtain ⟨h1, h2, h3⟩ := hrefused
    have hne : s.cells ≠ [] := by
      intro hnil
      have hz : s.unread = 0 := by rw [unread, hnil, List.length_nil]
      unfold start at h2
      omega
    have heq := h.end_eq hne
    have hsum : s.start + s.unread = s.next := by unfold start; omega
    have hadd : add64 s.start len = s.start + len := add64_eq (by omega)
    have hnum : min len (s.buf.timeEnd - s.start) = len := min_eq_left (by omega)
    have hdrop (b : SmplBuf α) : unread ⟨b, s.next, s.cells.drop len⟩ = s.unread - len :=
      List.length_drop
    rw [SmplBuf.read_eq h1 h2 h3, hadd, hnum, if_neg (by omega)]
    exact
      { two_le := h.two_le
        next_lt := hnext
        data_lt := Nat.mod_lt _ (by omega)
        start_le := by simp only [hdrop]; omega
        end_le := hend
        end_eq := fun _ => heq
        time_start := Or.inl (by simp only [hdrop]; omega) }

end Steps

/-- **Overflow is reported when samples are lost**, in every run of contiguous writes and in-order
reads whose writes are tellable; and where the unread samples lie where the indices say, in no
other. -/
theorem reports_iff_tellable (data : ℕ → α) {len t : ℕ} (hlen : 2 ≤ len) (ht : t < 2 ^ 64)
    (ops : List (Op α)) (hops : Run.Along step Legal (init data len t) ops) :
    Run.Along step Tellable (init data len t) ops ↔
      Run.Along step (fun s op => Charted s op ∧ Reports s op) (init data len t) ops := by
  refine Run.along_congr_of_invariant (I := Indexed) (fun s op h hlegal htell => ?_)
    (fun s op h hlegal => ?_) (indexed_init data hlen ht) hops
  · cases op with
    | write xs => exact h.step_write hlegal htell.1.1
    | read n => exact h.step_read hlegal
  · cases op with
    | write xs => exact and_congr_right fun hchart => (h.reports_iff hlegal hchart).symm
    | read n => exact Iff.rfl

/-- Three samples, one of them read, and three more: the loss of one is reported. -/
theorem reports_iff_tellable_lost :
    Run.Along step Tellable (init (fun _ => 0) 4 4) [.write [1, 2, 3], .read 1, .write [4, 5, 6]] ↔
      Run.Along step (fun s op => Charted s op ∧ Reports s op) (init (fun _ => 0) 4 4)
        [.write [1, 2, 3], .read 1, .write [4, 5, 6]] :=
  reports_iff_tellable (fun _ => 0) (by decide) (by norm_num) _ (by decide)

example : Run.Along step Tellable (init (fun _ => 0) 4 4)
    [.write [1, 2, 3], .read 1, .write [4, 5, 6]] := by decide

/-- **A loss that is not reported, and a false alarm.**  In the first run the unread samples have
gone around the end of the ring when the last write comes, which overwrites one of them.  In the
second the first write has moved `data_start`, and the next one, for which there is room, is
answered by `ERROR_OVERFLOW`. -/
theorem loss_unreported :
    (Run.Along step Legal (init (fun _ => 0) 4 4)
        [.write [1, 2], .read 1, .write [3, 4, 5], .write [6]] ∧
      Run.Along step Charted (init (fun _ => 0) 4 4)
        [.write [1, 2], .read 1, .write [3, 4, 5], .write [6]] ∧
      ¬ Run.Along step Reports (init (fun _ => 0) 4 4)
        [.write [1, 2], .read 1, .write [3, 4, 5], .write [6]]) ∧
    (Run.Along step Legal (init (fun _ => 0) 5 1) [.write [1], .write [2, 3, 4, 5]] ∧
      ¬ Run.Along step Reports (init (fun _ => 0) 5 1) [.write [1], .write [2, 3, 4, 5]]) := by
  decide

end Ledger
end Device
end OsmoTrx
