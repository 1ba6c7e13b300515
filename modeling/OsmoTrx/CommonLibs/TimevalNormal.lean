import OsmoTrx.CommonLibs.Timeval

/-!
# Normalised times

The constructors of `Timeval` and the time that `Signal::wait` hands to `pthread_cond_timedwait`,
which refuses nanoseconds of a second and more.

* `future_denotes_iff` — the carry is missed just if the nanoseconds add up to a whole second.
* `ofTimeval_denotes_iff` — from a `struct timeval` the microseconds are never read.
* `constructors_denote_iff` — **which times are normalised and right**, for every constructor.
-/

namespace OsmoTrx
namespace CommonLibs

/-- `struct timeval`. -/
structure StructTimeval where
  tv_sec : ℤ
  tv_usec : ℤ
  deriving DecidableEq, Repr

/-- Less than a second of microseconds. -/
def StructTimeval.Normal (t : StructTimeval) : Prop := 0 ≤ t.tv_usec ∧ t.tv_usec < 10 ^ 6

instance (t : StructTimeval) : Decidable t.Normal := inferInstanceAs (Decidable (_ ∧ _))

namespace Timeval

/-- `Timeval(unsigned sec, unsigned usec)`. -/
def ofSecUsec (sec usec : ℕ) : Timeval := ⟨⟨sec, u32 (usec * 1000)⟩⟩

/-- `Timeval(const struct timeval&)`; `none` is an overflow of `long`. -/
def ofTimeval (wTimeval : StructTimeval) : Option Timeval :=
  let tv_nsec := wTimeval.tv_sec * 1000
  if -2 ^ 63 ≤ tv_nsec ∧ tv_nsec < 2 ^ 63 then some ⟨⟨wTimeval.tv_sec, tv_nsec⟩⟩ else none

/-- `timespec`. -/
def timespec (t : Timeval) : Timespec := t.mTimespec

end Timeval

/-- The time until which `Signal::wait(wMutex, timeout)` waits, when the clock reads `now`. -/
def Signal.waitTime (now : Timespec) (timeout : ℕ) : Timespec :=
  (Timeval.future now timeout).timespec

namespace Timeval

/-- A normalised time that lies the given number of nanoseconds after the epoch. -/
def Denotes (t : Timeval) (instant : ℤ) : Prop :=
  t.mTimespec.Normal ∧ t.mTimespec.total = instant

instance (t : Timeval) (instant : ℤ) : Decidable (t.Denotes instant) :=
  inferInstanceAs (Decidable (_ ∧ _))

/-- The nanoseconds of the clock and of the offset make a whole second. -/
def Whole (now : Timespec) (offset : ℕ) : Prop := now.tv_nsec + 10 ^ 6 * (offset % 1000) = 10 ^ 9

instance (now : Timespec) (offset : ℕ) : Decidable (Whole now offset) :=
  inferInstanceAs (Decidable (_ = _))

variable {now : Timespec} (hn : now.Normal) (offset : ℕ)
include hn

/-- **The carry of `future`** is missed just if the nanoseconds make a whole second. -/
theorem future_normal_iff : (future now offset).mTimespec.Normal ↔ ¬ Whole now offset := by
  obtain ⟨h0, h1⟩ := hn
  have hmsec : offset % 1000 < 1000 := Nat.mod_lt _ (by decide)
  have hu : u32 (((offset % 1000 : ℕ) : ℤ) * 1000 * 1000) = 10 ^ 6 * ((offset % 1000 : ℕ) : ℤ) := by
    rw [u32_eq_self (by positivity) (by omega)]
    ring
  simp only [future, hu, Whole, Timespec.Normal]
  push_cast
  split_ifs with hcarry
  · -- the comparison is strict
    simp only []
    omega
  · simp only []
    omega

/-- The instant is right in either case. -/
theorem future_denotes_iff :
    (future now offset).Denotes (now.total + 10 ^ 6 * offset) ↔ ¬ Whole now offset := by
  rw [Denotes, future_normal_iff hn, and_iff_left (future_spec hn offset).1]

omit hn

/-- Seconds and microseconds are taken as they are. -/
theorem ofSecUsec_denotes (sec : ℕ) {usec : ℕ} (hu : usec < 10 ^ 6) :
    (ofSecUsec sec usec).Denotes (10 ^ 9 * sec + 1000 * usec) := by
  have hnsec : u32 ((usec : ℤ) * 1000) = usec * 1000 := u32_eq_self (by positivity) (by omega)
  simp only [Denotes, ofSecUsec, Timespec.Normal, Timespec.total, hnsec]
  omega

/-- **From a `struct timeval`** the seconds are taken twice, and the result is right just if they
are the microseconds. -/
theorem ofTimeval_denotes_iff {tv : StructTimeval} (ht : tv.Normal) :
    (∃ t, ofTimeval tv = some t ∧ t.Denotes (10 ^ 9 * tv.tv_sec + 1000 * tv.tv_usec)) ↔
      tv.tv_sec = tv.tv_usec := by
  obtain ⟨h0, h1⟩ := ht
  simp only [ofTimeval, Denotes, Timespec.Normal, Timespec.total]
  constructor
  · rintro ⟨t, hsome, -, htotal⟩
    rw [Option.ite_none_right_eq_some] at hsome
    obtain ⟨-, heq⟩ := hsome
    cases heq
    simp only [] at htotal
    omega
  · intro heq
    refine ⟨_, if_pos ⟨by omega, by omega⟩, ?_⟩
    simp only []
    omega

end Timeval

open Timeval

/-- **Which times are normalised and right.**  An offset from the clock is, unless the nanoseconds
make a whole second; seconds and microseconds always are; a `struct timeval` is only if its two
members are equal; and a wait is not refused just if the offset is right. -/
theorem constructors_denote_iff {now : Timespec} (hn : now.Normal) (offset sec : ℕ) {usec : ℕ}
    (hu : usec < 10 ^ 6) {tv : StructTimeval} (ht : tv.Normal) :
    ((future now offset).Denotes (now.total + 10 ^ 6 * offset) ↔ ¬ Whole now offset) ∧
      (ofSecUsec sec usec).Denotes (10 ^ 9 * sec + 1000 * usec) ∧
      ((∃ t, ofTimeval tv = some t ∧ t.Denotes (10 ^ 9 * tv.tv_sec + 1000 * tv.tv_usec)) ↔
        tv.tv_sec = tv.tv_usec) ∧
      ((Signal.waitTime now offset).Normal ↔ ¬ Whole now offset) :=
  ⟨future_denotes_iff hn offset, ofSecUsec_denotes sec hu, ofTimeval_denotes_iff ht,
    future_normal_iff hn offset⟩

/-- A clock that reads half a second, and an offset that does not fill it up. -/
theorem constructors_denote_half :
    (future ⟨7, 500000000⟩ 1499).Denotes 8999000000 ∧ (ofSecUsec 3 999999).Denotes 3999999000 ∧
      (Signal.waitTime ⟨7, 500000000⟩ 1499).Normal := by
  obtain ⟨hfuture, hsec, -, hwait⟩ := constructors_denote_iff
    (show Timespec.Normal ⟨7, 500000000⟩ by decide) 1499 3 (show 999999 < 10 ^ 6 by decide)
    (show StructTimeval.Normal ⟨0, 0⟩ by decide)
  exact ⟨hfuture.mpr (by decide), hsec, hwait.mpr (by decide)⟩

/-- With half a second on the clock, a wait of half a second ends in the second before, at
1000000000 ns; and one second and two microseconds become one second and 1000 ns. -/
theorem whole_second_not_normal :
    (Timespec.Normal ⟨7, 500000000⟩ ∧ ¬ (Signal.waitTime ⟨7, 500000000⟩ 500).Normal) ∧
      StructTimeval.Normal ⟨1, 2⟩ ∧
      ¬ ∃ t, ofTimeval ⟨1, 2⟩ = some t ∧ t.Denotes (10 ^ 9 * 1 + 1000 * 2) := by
  refine ⟨by decide, by decide, ?_⟩
  rintro ⟨t, hsome, ht⟩
  cases hsome
  exact absurd ht (by decide)

end CommonLibs
end OsmoTrx
