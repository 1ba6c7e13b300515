import OsmoTrx.Lib.Word

/-!
# Time-outs

`Timeval` of `Timeval.cpp` and the timed read of `Interthread.h`, whose loop asks the clock twice
in every turn: once whether the deadline has passed, and once again how many milliseconds remain.
Clock readings are inputs; `none` is an overflow of `int`, which C++ leaves undefined.

* `delta_eq` — what the difference in milliseconds is, in the 32 bits that seconds are taken in.
* `Overdue`, `Early` — where that difference leaves the range from zero to the time-out.
* `waits_le_timeout_iff` — **a read never waits longer than asked** just if the second reading of
  every turn is neither; in a run of less than 68 years it is never early.
-/

namespace OsmoTrx

namespace CommonLibs

/-! ## The clock -/

/-- `struct timespec`. -/
structure Timespec where
  tv_sec : ℤ
  tv_nsec : ℤ
  deriving DecidableEq, Repr

namespace Timespec

/-- A reading that a clock gives. -/
def Normal (t : Timespec) : Prop := 0 ≤ t.tv_nsec ∧ t.tv_nsec < 10 ^ 9

instance (t : Timespec) : Decidable t.Normal := inferInstanceAs (Decidable (_ ∧ _))

/-- Nanoseconds. -/
def total (t : Timespec) : ℤ := 10 ^ 9 * t.tv_sec + t.tv_nsec

/-- The time `k` times 2³² seconds before. -/
def back (t : Timespec) (k : ℤ) : Timespec := ⟨t.tv_sec - k * 2 ^ 32, t.tv_nsec⟩

end Timespec

/-! ## `Timeval` -/

/-- `Timeval`. -/
structure Timeval where
  mTimespec : Timespec
  deriving DecidableEq, Repr

namespace Timeval

/-- `future(offset)` and the constructor of an offset, when the clock reads `now`. -/
def future (now : Timespec) (offset : ℕ) : Timeval :=
  let sec := offset / 1000
  let msec := offset % 1000
  let tv_nsec := now.tv_nsec + u32 (msec * 1000 * 1000)
  let tv_sec := now.tv_sec + sec
  if tv_nsec > 1000 * 1000 * 1000 then ⟨⟨tv_sec + 1, tv_nsec - 1000 * 1000 * 1000⟩⟩
  else ⟨⟨tv_sec, tv_nsec⟩⟩

def sec (t : Timeval) : ℤ := u32 t.mTimespec.tv_sec

def nsec (t : Timeval) : ℤ := u32 t.mTimespec.tv_nsec

/-- `passed`, when the clock reads `now`. -/
def passed (t : Timeval) (now : Timespec) : Bool :=
  let nowTime := future now 0
  if nowTime.mTimespec.tv_sec < t.mTimespec.tv_sec then false
  else if nowTime.mTimespec.tv_sec > t.mTimespec.tv_sec then true
  else nowTime.mTimespec.tv_nsec ≥ t.mTimespec.tv_nsec

/-- `delta`: the other time less this one, in milliseconds. -/
def delta (t other : Timeval) : Option ℤ :=
  let deltaS := i32 (u32 (other.sec - t.sec))
  let deltaNs := i32 (u32 (other.nsec - t.nsec))
  (checkedInt (1000 * deltaS)).bind fun ms => checkedInt (ms + deltaNs.tdiv 1000000)

/-- `elapsed`, when the clock reads `now`. -/
def elapsed (t : Timeval) (now : Timespec) : Option ℤ := t.delta (future now 0)

/-- `remaining`, when the clock reads `now`. -/
def remaining (t : Timeval) (now : Timespec) : Option ℤ := (t.elapsed now).map fun ms => -ms

end Timeval

open Timeval

/-! ## The timed read -/

/-- What a turn of the loop finds: the number of items, the clock at `passed`, at `remaining` and in
`Signal::wait`. -/
structure Turn where
  size : ℕ
  passedAt : Timespec
  remainingAt : Timespec
  waitAt : Timespec
  deriving DecidableEq, Repr

/-- A call of `Signal::wait`: the reading that `remaining` took, the time-out that is passed, and
the time until which the thread waits. -/
structure Wait where
  now : Timespec
  timeout : Option ℤ
  until? : Option Timeval
  deriving DecidableEq, Repr

/-- The loop of `read`, over any number of turns. -/
def readLoop (waitTime : Timeval) : List Turn → List Wait
  | [] => []
  | t :: ts =>
    if t.size = 0 ∧ waitTime.passed t.passedAt = false then
      let timeout := (waitTime.remaining t.remainingAt).map u32
      ⟨t.remainingAt, timeout, timeout.map fun ms => future t.waitAt ms.toNat⟩ ::
        readLoop waitTime ts
    else []

/-- The calls of `Signal::wait` in `read(timeout)` that begins when the clock reads `start`. -/
def read (start : Timespec) (timeout : ℕ) (turns : List Turn) : List Wait :=
  if timeout = 0 then [] else readLoop (future start timeout) turns

/-- The clock readings of a call, in their order. -/
def readings (start : Timespec) (turns : List Turn) : List Timespec :=
  start :: turns.flatMap fun t => [t.passedAt, t.remainingAt, t.waitAt]

/-! ## Deadlines -/

theorem future_zero {now : Timespec} (h : now.Normal) : future now 0 = ⟨now⟩ := by
  obtain ⟨h0, h1⟩ := h
  have hu : u32 (((0 % 1000 : ℕ) : ℤ) * 1000 * 1000) = 0 := by decide
  simp only [future, hu, add_zero]
  rw [if_neg (by omega)]
  simp

/-- **The deadline** is the time-out after the start.  Its nanoseconds may be a whole second. -/
theorem future_spec {start : Timespec} (h : start.Normal) (timeout : ℕ) :
    (future start timeout).mTimespec.total = start.total + 10 ^ 6 * timeout ∧
      0 ≤ (future start timeout).mTimespec.tv_nsec ∧
      (future start timeout).mTimespec.tv_nsec ≤ 10 ^ 9 := by
  obtain ⟨h0, h1⟩ := h
  have hu : u32 (((timeout % 1000 : ℕ) : ℤ) * 1000 * 1000) =
      ((timeout % 1000 : ℕ) : ℤ) * 10 ^ 6 := by
    have hlt : timeout % 1000 < 1000 := Nat.mod_lt _ (by decide)
    rw [u32_eq_self (by positivity) (by omega)]
    ring
  simp only [future, hu, Timespec.total]
  split_ifs <;> simp only [] <;> omega

/-- The clock is past the deadline, by a millisecond or in a later second. -/
def Overdue (deadline now : Timespec) : Prop :=
  deadline.total < now.total ∧
    (deadline.total + 10 ^ 6 ≤ now.total ∨ deadline.tv_sec < now.tv_sec)

/-- The clock is more than the time-out ahead of the deadline, by a millisecond or in the
nanoseconds that are cut off. -/
def Early (deadline : Timespec) (timeout : ℕ) (now : Timespec) : Prop :=
  now.total < deadline.total - 10 ^ 6 * timeout ∧
    (now.total ≤ deadline.total - 10 ^ 6 * timeout - 10 ^ 6 ∨ deadline.tv_nsec ≤ now.tv_nsec)

instance (deadline now : Timespec) : Decidable (Overdue deadline now) :=
  inferInstanceAs (Decidable (_ ∧ _))

instance (deadline now : Timespec) (timeout : ℕ) : Decidable (Early deadline timeout now) :=
  inferInstanceAs (Decidable (_ ∧ _))

/-- The clock is neither overdue nor early, but for whole multiples of 2³² seconds. -/
def InTime (deadline : Timespec) (timeout : ℕ) (now : Timespec) : Prop :=
  ∃ k : ℤ, ¬ Overdue deadline (now.back k) ∧ ¬ Early deadline timeout (now.back k)

/-- A difference in seconds and nanoseconds as `delta` adds it up. -/
def millis (deltaS deltaNs : ℤ) : ℤ := 1000 * deltaS + deltaNs.tdiv 1000000

theorem millis_cases (s n : ℤ) :
    (0 ≤ n ∧ millis s n = 1000 * s + n / 1000000) ∨
    (n < 0 ∧ millis s n = 1000 * s - (-n) / 1000000) := by
  unfold millis
  rcases le_or_gt 0 n with h | h
  · exact Or.inl ⟨h, by rw [Int.tdiv_eq_ediv_of_nonneg h]⟩
  · refine Or.inr ⟨h, ?_⟩
    rw [← neg_neg n, Int.neg_tdiv, Int.tdiv_eq_ediv_of_nonneg (by omega), neg_neg]
    ring

section Deadline

variable {deadline now : Timespec} (h0 : 0 ≤ deadline.tv_nsec) (h1 : deadline.tv_nsec ≤ 10 ^ 9)
  (hn : now.Normal)
include h0 h1 hn

/-- Nothing remains of a time that is overdue, and only of such. -/
theorem overdue_iff :
    Overdue deadline now ↔
      0 < millis (now.tv_sec - deadline.tv_sec) (now.tv_nsec - deadline.tv_nsec) := by
  obtain ⟨hn0, hn1⟩ := hn
  unfold Overdue Timespec.total
  rcases millis_cases (now.tv_sec - deadline.tv_sec) (now.tv_nsec - deadline.tv_nsec) with
    ⟨hsign, heq⟩ | ⟨hsign, heq⟩ <;> rw [heq] <;> omega

omit h0 h1 in
/-- More than the time-out remains of a time that is early, and only of such. -/
theorem early_iff (timeout : ℕ) :
    Early deadline timeout now ↔
      millis (now.tv_sec - deadline.tv_sec) (now.tv_nsec - deadline.tv_nsec) < -timeout := by
  obtain ⟨hn0, hn1⟩ := hn
  unfold Early Timespec.total
  rcases millis_cases (now.tv_sec - deadline.tv_sec) (now.tv_nsec - deadline.tv_nsec) with
    ⟨hsign, heq⟩ | ⟨hsign, heq⟩ <;> rw [heq] <;> omega

/-- **What `delta` computes**: the seconds are a difference of 32 bits. -/
theorem delta_eq :
    (⟨deadline⟩ : Timeval).delta ⟨now⟩ =
      if -2 ^ 31 ≤ 1000 * i32 (now.tv_sec - deadline.tv_sec) ∧
          1000 * i32 (now.tv_sec - deadline.tv_sec) < 2 ^ 31 then
        checkedInt (millis (i32 (now.tv_sec - deadline.tv_sec))
          (now.tv_nsec - deadline.tv_nsec))
      else none := by
  obtain ⟨hn0, hn1⟩ := hn
  have hns : i32 (now.tv_nsec - deadline.tv_nsec) = now.tv_nsec - deadline.tv_nsec :=
    i32_eq_self (by omega) (by omega)
  simp only [delta, Timeval.sec, Timeval.nsec, i32_sub_u32, hns, millis]
  rw [checkedInt]
  split_ifs <;> rfl

end Deadline

/-! ## The time-outs that are passed -/

/-- A wait of at most the time-out. -/
def Wait.Within (timeout : ℕ) (w : Wait) : Prop := ∃ ms, w.timeout = some ms ∧ ms ≤ timeout

/-- A difference that is negated and made `unsigned` is within the time-out just if it is neither
positive nor below it: what is negative becomes more than 2³¹. -/
theorem unsigned_within_iff {timeout : ℕ} (hmax : timeout ≤ 2 ^ 31 - 1000) {s n : ℤ}
    (hn : -10 ^ 9 ≤ n) (hn' : n < 10 ^ 9) :
    (∃ ms, (((if -2 ^ 31 ≤ 1000 * s ∧ 1000 * s < 2 ^ 31 then checkedInt (millis s n)
        else none).map fun ms => -ms).map u32) = some ms ∧ ms ≤ timeout) ↔
      ¬ 0 < millis s n ∧ ¬ millis s n < -timeout := by
  have hfits : ¬ 0 < millis s n ∧ ¬ millis s n < -timeout →
      (-2 ^ 31 ≤ 1000 * s ∧ 1000 * s < 2 ^ 31) ∧ -2 ^ 31 ≤ millis s n ∧ millis s n < 2 ^ 31 := by
    rcases millis_cases s n with ⟨hsign, heq⟩ | ⟨hsign, heq⟩ <;> rw [heq] <;> omega
  constructor
  · rintro ⟨ms, hms, hle⟩
    split_ifs at hms with hint
    · unfold checkedInt at hms
      split_ifs at hms with hrange
      · simp only [Option.map_some, Option.some.injEq] at hms
        unfold u32 at hms
        omega
      · simp at hms
    · simp at hms
  · intro h
    obtain ⟨hint, hrange⟩ := hfits h
    refine ⟨u32 (-millis s n), ?_, ?_⟩
    · rw [if_pos hint, checkedInt, if_pos hrange]
      rfl
    · rw [u32_eq_self (by omega) (by omega)]
      omega

/-- Differences of 32 bits repeat after 2³² seconds, and only then. -/
theorem i32_eq_iff {x s : ℤ} (hlo : -2 ^ 31 ≤ s) (hhi : s < 2 ^ 31) :
    i32 x = s ↔ ∃ k : ℤ, x - k * 2 ^ 32 = s := by
  constructor
  · rintro rfl
    obtain ⟨k, hk⟩ := Int.dvd_self_sub_bmod (x := x) (m := 2 ^ 32)
    refine ⟨k, ?_⟩
    unfold i32
    norm_num at hk ⊢
    linarith
  · rintro ⟨k, rfl⟩
    have hbmod : i32 (x - k * 2 ^ 32) = i32 x := by
      unfold i32
      exact_mod_cast Int.sub_mul_bmod_self_right x k (2 ^ 32)
    rw [← hbmod]
    exact i32_eq_self hlo hhi

section Wait

variable {deadline : Timespec} (h0 : 0 ≤ deadline.tv_nsec) (h1 : deadline.tv_nsec ≤ 10 ^ 9)
include h0 h1

/-- **What is passed to `wait` is within the time-out** just if the clock that `remaining` reads is
in time. -/
theorem remaining_within_iff {timeout : ℕ} (hmax : timeout ≤ 2 ^ 31 - 1000) {now : Timespec}
    (hn : now.Normal) :
    (∃ ms, ((⟨deadline⟩ : Timeval).remaining now).map u32 = some ms ∧ ms ≤ timeout) ↔
      InTime deadline timeout now := by
  have hback : ∀ k : ℤ, (¬ Overdue deadline (now.back k) ∧
      ¬ Early deadline timeout (now.back k)) ↔
      ¬ 0 < millis (now.tv_sec - deadline.tv_sec - k * 2 ^ 32)
          (now.tv_nsec - deadline.tv_nsec) ∧
        ¬ millis (now.tv_sec - deadline.tv_sec - k * 2 ^ 32)
          (now.tv_nsec - deadline.tv_nsec) < -timeout := by
    intro k
    have hnk : (now.back k).Normal := hn
    rw [overdue_iff h0 h1 hnk, early_iff hnk]
    rw [show (now.back k).tv_sec - deadline.tv_sec = now.tv_sec - deadline.tv_sec - k * 2 ^ 32 by
      simp only [Timespec.back]; ring]
    rfl
  have hns : -10 ^ 9 ≤ now.tv_nsec - deadline.tv_nsec ∧
      now.tv_nsec - deadline.tv_nsec < 10 ^ 9 := by
    obtain ⟨hn0, hn1⟩ := hn
    omega
  obtain ⟨hlo, hhi⟩ := i32_range (now.tv_sec - deadline.tv_sec)
  rw [Timeval.remaining, Timeval.elapsed, future_zero hn, delta_eq h0 h1 hn,
    unsigned_within_iff hmax hns.1 hns.2, InTime]
  constructor
  · intro h
    obtain ⟨k, hk⟩ := (i32_eq_iff hlo hhi).mp rfl
    refine ⟨k, (hback k).mpr ?_⟩
    rwa [hk]
  · rintro ⟨k, hk⟩
    rw [hback k] at hk
    -- in time, the difference has 32 bits
    have hsmall : -2 ^ 31 ≤ now.tv_sec - deadline.tv_sec - k * 2 ^ 32 ∧
        now.tv_sec - deadline.tv_sec - k * 2 ^ 32 < 2 ^ 31 := by
      rcases millis_cases (now.tv_sec - deadline.tv_sec - k * 2 ^ 32)
        (now.tv_nsec - deadline.tv_nsec) with ⟨hsign, heq⟩ | ⟨hsign, heq⟩ <;> rw [heq] at hk <;>
        omega
    rwa [(i32_eq_iff hsmall.1 hsmall.2).mpr ⟨k, rfl⟩]

end Wait

/-- The waits of the loop are those of turns whose readings it has taken. -/
theorem mem_readLoop {waitTime : Timeval} {turns : List Turn} {w : Wait}
    (h : w ∈ readLoop waitTime turns) :
    (∃ t ∈ turns, w.now = t.remainingAt) ∧ w.timeout = (waitTime.remaining w.now).map u32 := by
  induction turns with
  | nil => exact absurd h List.not_mem_nil
  | cons t ts ih =>
    rw [readLoop] at h
    split_ifs at h with hturn
    · rcases List.mem_cons.mp h with rfl | h
      · exact ⟨⟨t, List.mem_cons_self, rfl⟩, rfl⟩
      · obtain ⟨⟨u, hu, hnow⟩, htimeout⟩ := ih h
        exact ⟨⟨u, List.mem_cons_of_mem _ hu, hnow⟩, htimeout⟩
    · exact absurd h List.not_mem_nil

/-- What the clock says of a call: readings are normal and do not decrease. -/
structure Clocked (start : Timespec) (turns : List Turn) : Prop where
  normal : ∀ t ∈ readings start turns, t.Normal
  mono : (readings start turns).Pairwise fun t u => t.total ≤ u.total

instance (start : Timespec) (turns : List Turn) : Decidable (Clocked start turns) :=
  decidable_of_iff ((∀ t ∈ readings start turns, t.Normal) ∧
      (readings start turns).Pairwise fun t u => t.total ≤ u.total)
    ⟨fun ⟨h1, h2⟩ => ⟨h1, h2⟩, fun ⟨h1, h2⟩ => ⟨h1, h2⟩⟩

theorem Clocked.remainingAt {start : Timespec} {turns : List Turn} (h : Clocked start turns)
    {t : Turn} (ht : t ∈ turns) : t.remainingAt.Normal ∧ start.total ≤ t.remainingAt.total := by
  have hmem : t.remainingAt ∈ turns.flatMap fun t => [t.passedAt, t.remainingAt, t.waitAt] :=
    List.mem_flatMap.mpr ⟨t, ht, by simp⟩
  exact ⟨h.normal _ (List.mem_cons_of_mem _ hmem), (List.pairwise_cons.mp h.mono).1 _ hmem⟩

/-- **A timed read never waits longer than asked** just if every clock reading that `remaining`
takes is in time; and it is in time if it is not overdue, since the clock does not go back. -/
theorem waits_le_timeout_iff {timeout : ℕ} (hmin : 1 ≤ timeout) (hmax : timeout ≤ 2 ^ 31 - 1000)
    {start : Timespec} {turns : List Turn} (h : Clocked start turns) :
    ((∀ w ∈ read start timeout turns, w.Within timeout) ↔
      ∀ w ∈ read start timeout turns,
        InTime (future start timeout).mTimespec timeout w.now) ∧
    ∀ w ∈ read start timeout turns,
      ¬ Overdue (future start timeout).mTimespec w.now →
        InTime (future start timeout).mTimespec timeout w.now := by
  have hstart : start.Normal := h.normal start List.mem_cons_self
  obtain ⟨htotal, hns0, hns1⟩ := future_spec hstart timeout
  have hread : ∀ w ∈ read start timeout turns,
      (∃ t ∈ turns, w.now = t.remainingAt) ∧
        w.timeout = ((future start timeout).remaining w.now).map u32 := by
    intro w hw
    rw [read, if_neg (by omega)] at hw
    exact mem_readLoop hw
  constructor
  · refine forall₂_congr fun w hw => ?_
    obtain ⟨⟨t, ht, hnow⟩, htimeout⟩ := hread w hw
    rw [Wait.Within, htimeout]
    exact remaining_within_iff hns0 hns1 hmax (hnow ▸ (h.remainingAt ht).1)
  · intro w hw hover
    obtain ⟨⟨t, ht, hnow⟩, -⟩ := hread w hw
    have hlate := (h.remainingAt ht).2
    rw [← hnow] at hlate
    have hback : w.now.back 0 = w.now := by
      simp [Timespec.back]
    refine ⟨0, by rwa [hback], ?_⟩
    rw [hback]
    rintro ⟨hlt, -⟩
    omega

/-- A read of 10 ms that is woken once without an item. -/
theorem waits_le_timeout_woken :
    (read ⟨0, 0⟩ 10 [⟨0, ⟨0, 1000⟩, ⟨0, 2000⟩, ⟨0, 3000⟩⟩,
        ⟨0, ⟨0, 5000000⟩, ⟨0, 5001000⟩, ⟨0, 5002000⟩⟩]).length = 2 ∧
      ∀ w ∈ read ⟨0, 0⟩ 10 [⟨0, ⟨0, 1000⟩, ⟨0, 2000⟩, ⟨0, 3000⟩⟩,
        ⟨0, ⟨0, 5000000⟩, ⟨0, 5001000⟩, ⟨0, 5002000⟩⟩], w.Within 10 := by
  have hclock : Clocked ⟨0, 0⟩ [⟨0, ⟨0, 1000⟩, ⟨0, 2000⟩, ⟨0, 3000⟩⟩,
      ⟨0, ⟨0, 5000000⟩, ⟨0, 5001000⟩, ⟨0, 5002000⟩⟩] := by decide +kernel
  have h := waits_le_timeout_iff (show 1 ≤ 10 by decide) (by decide) hclock
  exact ⟨by decide +kernel, h.1.mpr fun w hw => h.2 w hw (by revert w; decide +kernel)⟩

/-- A read of 1 ms.  The deadline is a nanosecond away when `passed` looks at the clock, and a
millisecond ago when `remaining` does: the thread waits for more than 49 days. -/
theorem waits_longer_than_asked :
    Clocked ⟨0, 0⟩ [⟨0, ⟨0, 999999⟩, ⟨0, 2000000⟩, ⟨0, 2000000⟩⟩] ∧
    (read ⟨0, 0⟩ 1 [⟨0, ⟨0, 999999⟩, ⟨0, 2000000⟩, ⟨0, 2000000⟩⟩]).map Wait.timeout =
      [some 4294967295] ∧
    ¬ ∀ w ∈ read ⟨0, 0⟩ 1 [⟨0, ⟨0, 999999⟩, ⟨0, 2000000⟩, ⟨0, 2000000⟩⟩], w.Within 1 := by
  have hwait : (read ⟨0, 0⟩ 1 [⟨0, ⟨0, 999999⟩, ⟨0, 2000000⟩, ⟨0, 2000000⟩⟩]).map Wait.timeout =
      [some 4294967295] := by decide +kernel
  refine ⟨by decide +kernel, hwait, fun hall => ?_⟩
  obtain ⟨w, hw, htimeout⟩ := List.mem_map.mp
    (hwait.symm ▸ List.mem_cons_self : some 4294967295 ∈ (read ⟨0, 0⟩ 1
      [⟨0, ⟨0, 999999⟩, ⟨0, 2000000⟩, ⟨0, 2000000⟩⟩]).map Wait.timeout)
  obtain ⟨ms, hms, hle⟩ := hall w hw
  rw [htimeout, Option.some.injEq] at hms
  rw [← hms] at hle
  exact absurd hle (by decide)

end CommonLibs
end OsmoTrx
