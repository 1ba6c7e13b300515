import OsmoTrx.Radio.Interface
import OsmoTrx.Lib.Run

/-!
# The helper threads

`RadioInterface::start` starts a thread that aligns the transmit and the receive section, if
the device needs one, and `uhd_device::start` starts a thread for asynchronous events.  Both
do so before the step that can fail.  Power cycles are runs of starts and stops, in which the
device answers each start, restart and stop as it likes.

* `Sound` — a start or stop trips no assertion, leaves at most one thread of a kind running,
  and none after a successful stop or a failed start.
* `Tidy` — the invariant: a radio interface runs a thread only for a device that needs it, and
  a `uhd_device` runs the one it knows of exactly while it is started.
* `sound_iff` — when one start or stop is sound.
* `threads_sound_iff` — **when all are, over any run**.
-/

namespace OsmoTrx
namespace Radio

/-! ## The code -/

/-- `class Thread`: whether `mThread` is set, and whether its task runs. -/
structure Thread where
  mThread : Bool
  running : Bool

namespace Thread

/-- The constructor. -/
def new : Thread := ⟨false, false⟩

/-- `start`; a failed assertion is the result `none`. -/
def start (t : Thread) : Option Thread :=
  if t.mThread then none else some ⟨true, true⟩

/-- `cancel` and `join`: the tasks loop for ever, and end where they test for cancellation. -/
def cancelJoin (t : Thread) : Thread := { t with running := false }

/-- The threads of a list that run. -/
def count (l : List Thread) : ℕ := l.countP running

@[simp] theorem count_nil : count [] = 0 := rfl

@[simp] theorem count_cons (t : Thread) (l : List Thread) :
    count (t :: l) = count l + t.running.toNat := by
  cases h : t.running <;> simp [count, h]

@[simp] theorem count_append (l l' : List Thread) : count (l ++ l') = count l + count l' :=
  List.countP_append

end Thread

/-- The kinds of devices. -/
inductive Device
  | usrp1
  | uhd
  | lms

/-- `requiresRadioAlign`. -/
def Device.requiresRadioAlign : Device → Bool
  | .usrp1 => true
  | .uhd | .lms => false

/-- A radio interface with its alignment thread. -/
structure AlignedRadio (n : ℕ) (S : Type) extends RadioInterface n S where
  mRadio : Device
  mAlignRadioServiceLoopThread : Thread

namespace AlignedRadio

variable {n : ℕ} {S : Type}

/-- `RadioInterface::start`. -/
def start (t : AlignedRadio n S) (d : DeviceStart) : Option (Bool × AlignedRadio n S) :=
  if t.mOn then some (true, t)
  else
    let thread :=
      if t.mRadio.requiresRadioAlign then t.mAlignRadioServiceLoopThread.start
      else some t.mAlignRadioServiceLoopThread
    thread.map fun thread =>
      let r := t.toRadioInterface.start d
      (r.1, { t with toRadioInterface := r.2, mAlignRadioServiceLoopThread := thread })

/-- `RadioInterface::stop`; `stopped` is what the device answers. -/
def stop (t : AlignedRadio n S) (stopped : Bool) : Bool × AlignedRadio n S :=
  if !t.mOn || !stopped then (false, t) else (true, { t with mOn := false })

/-- The alignment threads that run. -/
def threads (t : AlignedRadio n S) : ℕ := Thread.count [t.mAlignRadioServiceLoopThread]

end AlignedRadio

/-- `class uhd_device`, with the threads that it has started and that no pointer leads to any
more, running or ended. -/
structure UhdDevice where
  started : Bool
  async_event_thrd : Option Thread
  lost : List Thread

namespace UhdDevice

/-- `start`: the pointer to the thread is overwritten, whatever it pointed to. -/
def start (d : UhdDevice) (restart : Bool) : Option (Bool × UhdDevice) :=
  if d.started then some (false, d)
  else
    Thread.new.start.map fun thread =>
      let d := { d with
        async_event_thrd := some thread
        lost := d.async_event_thrd.toList ++ d.lost }
      if !restart then (false, d) else (true, { d with started := true })

/-- `stop`: the thread is cancelled, joined and deleted. -/
def stop (d : UhdDevice) : Bool × UhdDevice :=
  if !d.started then (false, d)
  else
    (true, { started := false, async_event_thrd := none
             lost := (d.async_event_thrd.map Thread.cancelJoin).toList ++ d.lost })

/-- The asynchronous event threads that run. -/
def threads (d : UhdDevice) : ℕ := Thread.count (d.async_event_thrd.toList ++ d.lost)

end UhdDevice

/-! ## Power cycles -/

/-- A radio interface and a `uhd_device`. -/
structure Helpers (n : ℕ) (S : Type) where
  radio : AlignedRadio n S
  device : UhdDevice

/-- A start or a stop, and how the device answers. -/
inductive Power
  | radioStart (d : DeviceStart)
  | radioStop (stopped : Bool)
  | uhdStart (restart : Bool)
  | uhdStop

/-- Whether no thread should be left, given the result: after a start that failed and a stop
that succeeded. -/
def Power.endsThreads : Power → Bool → Bool
  | .radioStart _ | .uhdStart _ => (!·)
  | .radioStop _ | .uhdStop => id

namespace Helpers

variable {n : ℕ} {S : Type}

/-- The result of a start or a stop. -/
def apply (s : Helpers n S) : Power → Option (Bool × Helpers n S)
  | .radioStart d => (s.radio.start d).map fun r => (r.1, { s with radio := r.2 })
  | .radioStop stopped =>
    let r := s.radio.stop stopped
    some (r.1, { s with radio := r.2 })
  | .uhdStart restart => (s.device.start restart).map fun r => (r.1, { s with device := r.2 })
  | .uhdStop =>
    let r := s.device.stop
    some (r.1, { s with device := r.2 })

/-- A start or a stop; nothing follows a failed assertion. -/
def step (s : Helpers n S) (e : Power) : Helpers n S := ((s.apply e).map Prod.snd).getD s

/-- The threads that run of the kind that a start or a stop is about. -/
def threads (s : Helpers n S) : Power → ℕ
  | .radioStart _ | .radioStop _ => s.radio.threads
  | .uhdStart _ | .uhdStop => s.device.threads

/-- A start that is refused because the device is started already. -/
def Refused (s : Helpers n S) : Power → Prop
  | .uhdStart _ => s.device.started = true
  | _ => False

/-- A start or a stop is sound: its assertions hold, at most one thread of a kind runs
afterwards, and none after a successful stop or a failed start.  `strict` says whether a start
that is refused because the device is started already counts as a failed one. -/
def Sound (strict : Bool) (s : Helpers n S) (e : Power) : Prop :=
  ∃ ok s', s.apply e = some (ok, s') ∧ s'.radio.threads ≤ 1 ∧ s'.device.threads ≤ 1 ∧
    (e.endsThreads ok = true → (strict = true ∨ ¬ s.Refused e) → s'.threads e = 0)

/-- The condition on a start or a stop.  Where the device needs the alignment thread, a start
succeeds and is the first one, and a stop does not get as far as the thread; a `uhd_device`
that is not started restarts. -/
def Meets (strict : Bool) (s : Helpers n S) : Power → Prop
  | .radioStart d => s.radio.mOn = true ∨ s.radio.mRadio.requiresRadioAlign = false ∨
      s.radio.mAlignRadioServiceLoopThread.mThread = false ∧ d.ok = true
  | .radioStop stopped => s.radio.mOn = true → stopped = true →
      s.radio.mAlignRadioServiceLoopThread.running = false
  | .uhdStart restart => if s.device.started then strict = false else restart = true
  | .uhdStop => True

/-! ## The invariant -/

/-- A radio interface runs its thread only for a device that needs it, and a `uhd_device` runs
the thread it knows of exactly while it is started, and no other. -/
structure Tidy (s : Helpers n S) : Prop where
  needed : s.radio.mAlignRadioServiceLoopThread.running = true →
    s.radio.mRadio.requiresRadioAlign = true
  known : Thread.count s.device.async_event_thrd.toList = s.device.started.toNat
  lost : Thread.count s.device.lost = 0

/-! ## One start or stop -/

variable {strict : Bool} {s : Helpers n S}

/-- What a start or a stop with a result has to satisfy to be sound. -/
theorem sound_of_apply {e : Power} {ok : Bool} {s' : Helpers n S} (h : s.apply e = some (ok, s')) :
    Sound strict s e ↔ s'.radio.threads ≤ 1 ∧ s'.device.threads ≤ 1 ∧
      (e.endsThreads ok = true → (strict = true ∨ ¬ s.Refused e) → s'.threads e = 0) := by
  constructor
  · rintro ⟨ok', s'', h', hsound⟩
    rw [h, Option.some.injEq, Prod.mk.injEq] at h'
    rw [h'.1, h'.2]
    exact hsound
  · exact fun hsound => ⟨ok, s', h, hsound⟩

omit strict in
theorem radio_threads_le (t : AlignedRadio n S) : t.threads ≤ 1 := by
  simpa [AlignedRadio.threads] using Bool.toNat_le _

omit strict in
theorem Tidy.device_threads (h : Tidy s) : s.device.threads = s.device.started.toNat := by
  rw [UhdDevice.threads, Thread.count_append, h.known, h.lost, Nat.add_zero]

omit strict in
theorem Tidy.device_threads_le (h : Tidy s) : s.device.threads ≤ 1 := by
  rw [h.device_threads]
  exact Bool.toNat_le _

theorem sound_radioStart (h : Tidy s) (d : DeviceStart) :
    Sound strict s (.radioStart d) ↔ Meets strict s (.radioStart d) := by
  rw [Meets]
  cases hon : s.radio.mOn with
  | true =>
    have happly : s.apply (.radioStart d) = some (true, s) := by
      rw [apply, AlignedRadio.start, if_pos hon, Option.map_some]
    rw [sound_of_apply happly]
    exact iff_of_true ⟨radio_threads_le _, h.device_threads_le, nofun⟩ (.inl rfl)
  | false =>
    have hfst : (s.radio.toRadioInterface.start d).1 = d.ok := by
      cases hok : d.ok <;> simp [RadioInterface.start, hon, hok]
    cases hreq : s.radio.mRadio.requiresRadioAlign with
    | false =>
      have hidle : s.radio.mAlignRadioServiceLoopThread.running = false := by
        by_contra hrun
        rw [Bool.not_eq_false] at hrun
        rw [h.needed hrun] at hreq
        cases hreq
      have happly : s.apply (.radioStart d) = some (d.ok, { s with radio := { s.radio with
          toRadioInterface := (s.radio.toRadioInterface.start d).2 } }) := by
        rw [apply, AlignedRadio.start, if_neg (by simp [hon])]
        simp only [hreq, Bool.false_eq_true, if_false, Option.map_some, hfst]
      rw [sound_of_apply happly]
      refine iff_of_true ⟨radio_threads_le _, h.device_threads_le, fun _ _ => ?_⟩
        (.inr (.inl rfl))
      simp [threads, AlignedRadio.threads, hidle]
    | true =>
      cases hthread : s.radio.mAlignRadioServiceLoopThread.mThread with
      | true =>
        -- the assertion of `Thread::start` fails
        have happly : s.apply (.radioStart d) = none := by
          rw [apply, AlignedRadio.start, if_neg (by simp [hon])]
          simp [hreq, Thread.start, hthread]
        refine iff_of_false ?_ (by simp)
        rintro ⟨ok, s', h', -⟩
        rw [happly] at h'
        cases h'
      | false =>
        have happly : s.apply (.radioStart d) = some (d.ok, { s with radio := { s.radio with
            toRadioInterface := (s.radio.toRadioInterface.start d).2
            mAlignRadioServiceLoopThread := ⟨true, true⟩ } }) := by
          rw [apply, AlignedRadio.start, if_neg (by simp [hon])]
          simp [hreq, Thread.start, hthread, hfst]
        rw [sound_of_apply happly]
        cases hok : d.ok with
        | true => exact iff_of_true ⟨radio_threads_le _, h.device_threads_le, nofun⟩ (by simp)
        | false =>
          refine iff_of_false ?_ (by simp)
          rintro ⟨-, -, hidle⟩
          have hzero := hidle rfl (.inr not_false)
          simp [threads, AlignedRadio.threads] at hzero

theorem sound_radioStop (h : Tidy s) (stopped : Bool) :
    Sound strict s (.radioStop stopped) ↔ Meets strict s (.radioStop stopped) := by
  rw [Meets]
  by_cases hrefused : (!s.radio.mOn || !stopped) = true
  · have happly : s.apply (.radioStop stopped) = some (false, s) := by
      rw [apply, AlignedRadio.stop, if_pos hrefused]
    rw [sound_of_apply happly]
    refine iff_of_true ⟨radio_threads_le _, h.device_threads_le, nofun⟩ fun hon hstopped => ?_
    simp [hon, hstopped] at hrefused
  · have happly : s.apply (.radioStop stopped) =
        some (true, { s with radio := { s.radio with mOn := false } }) := by
      rw [apply, AlignedRadio.stop, if_neg hrefused]
    have hstops : s.radio.mOn = true ∧ stopped = true := by simpa using hrefused
    rw [sound_of_apply happly]
    cases hrun : s.radio.mAlignRadioServiceLoopThread.running <;>
      simp [h.device_threads_le, Power.endsThreads, Refused, threads, AlignedRadio.threads,
        hstops, hrun]

theorem sound_uhdStart (h : Tidy s) (restart : Bool) :
    Sound strict s (.uhdStart restart) ↔ Meets strict s (.uhdStart restart) := by
  rw [Meets]
  cases hstarted : s.device.started with
  | true =>
    have happly : s.apply (.uhdStart restart) = some (false, s) := by
      rw [apply, UhdDevice.start, if_pos hstarted, Option.map_some]
    rw [sound_of_apply happly]
    simp [radio_threads_le, Power.endsThreads, Refused, threads, h.device_threads, hstarted]
  | false =>
    have hcount : Thread.count s.device.async_event_thrd.toList = 0 := by
      rw [h.known, hstarted]
      rfl
    have happly : s.apply (.uhdStart restart) = some (restart, { s with device :=
        { started := restart
          async_event_thrd := some ⟨true, true⟩
          lost := s.device.async_event_thrd.toList ++ s.device.lost } }) := by
      rw [apply, UhdDevice.start, if_neg (by simp [hstarted])]
      cases restart <;> simp [Thread.start, Thread.new, hstarted]
    rw [sound_of_apply happly]
    simp [radio_threads_le, UhdDevice.threads, Power.endsThreads, Refused, threads, hcount,
      h.lost, hstarted]

theorem sound_uhdStop (h : Tidy s) : Sound strict s .uhdStop := by
  cases hstarted : s.device.started with
  | false =>
    have happly : s.apply .uhdStop = some (false, s) := by
      rw [apply, UhdDevice.stop, if_pos (by simp [hstarted])]
    rw [sound_of_apply happly]
    exact ⟨radio_threads_le _, h.device_threads_le, nofun⟩
  | true =>
    have happly : s.apply .uhdStop = some (true, { s with device :=
        { started := false
          async_event_thrd := none
          lost := (s.device.async_event_thrd.map Thread.cancelJoin).toList ++
            s.device.lost } }) := by
      rw [apply, UhdDevice.stop, if_neg (by simp [hstarted])]
    have hended : Thread.count (s.device.async_event_thrd.map Thread.cancelJoin).toList = 0 := by
      cases s.device.async_event_thrd <;> rfl
    rw [sound_of_apply happly]
    simp [radio_threads_le, UhdDevice.threads, threads, hended, h.lost]

/-- **When a start or a stop is sound.** -/
theorem sound_iff (h : Tidy s) (e : Power) : Sound strict s e ↔ Meets strict s e := by
  cases e with
  | radioStart d => exact sound_radioStart h d
  | radioStop stopped => exact sound_radioStop h stopped
  | uhdStart restart => exact sound_uhdStart h restart
  | uhdStop => exact iff_of_true (sound_uhdStop h) trivial

/-! ## Runs -/

omit strict s in
/-- A start changes neither the device nor, if the device does not need it, the thread. -/
theorem start_running {t t' : AlignedRadio n S} {d : DeviceStart} {ok : Bool}
    (h : t.start d = some (ok, t')) : t'.mRadio = t.mRadio ∧
      (t'.mAlignRadioServiceLoopThread.running = true →
        t.mAlignRadioServiceLoopThread.running = true ∨ t.mRadio.requiresRadioAlign = true) := by
  unfold AlignedRadio.start at h
  split_ifs at h with hon hreq
  · cases h
    exact ⟨rfl, .inl⟩
  · obtain ⟨thread, -, heq⟩ := Option.map_eq_some_iff.mp h
    cases heq
    exact ⟨rfl, fun _ => .inr hreq⟩
  · rw [Option.map_some] at h
    cases h
    exact ⟨rfl, .inl⟩

/-- The invariant is kept by a start or stop that meets the condition. -/
theorem tidy_step (h : Tidy s) {e : Power} (hmeets : Meets strict s e) : Tidy (s.step e) := by
  cases e with
  | radioStart d =>
    cases hstart : s.radio.start d with
    | none =>
      have hstep : s.step (.radioStart d) = s := by rw [step, apply, hstart]; rfl
      rwa [hstep]
    | some r =>
      obtain ⟨hradio, hrun⟩ := start_running hstart
      simp only [step, apply, hstart, Option.map_some, Option.getD_some]
      exact ⟨fun hrunning => hradio ▸ (hrun hrunning).elim h.needed id, h.known, h.lost⟩
  | radioStop stopped =>
    by_cases hstops : (!s.radio.mOn || !stopped) = true
    · have hstep : s.step (.radioStop stopped) = s := by
        rw [step, apply, AlignedRadio.stop, if_pos hstops]
        rfl
      rwa [hstep]
    · simp only [step, apply, AlignedRadio.stop, if_neg hstops, Option.map_some, Option.getD_some]
      exact ⟨h.needed, h.known, h.lost⟩
  | uhdStart restart =>
    cases hstarted : s.device.started with
    | true =>
      have hstep : s.step (.uhdStart restart) = s := by
        rw [step, apply, UhdDevice.start, if_pos hstarted]
        rfl
      rwa [hstep]
    | false =>
      rw [Meets, if_neg (by simp [hstarted])] at hmeets
      have hcount : Thread.count s.device.async_event_thrd.toList = 0 := by
        rw [h.known, hstarted]
        rfl
      simp only [step, apply, UhdDevice.start, hstarted, hmeets, Thread.start, Thread.new,
        Bool.false_eq_true, if_false, Option.map_some, Option.getD_some, Bool.not_true]
      exact ⟨h.needed, rfl, by rw [Thread.count_append, hcount, h.lost]⟩
  | uhdStop =>
    cases hstarted : s.device.started with
    | false =>
      have hstep : s.step .uhdStop = s := by
        rw [step, apply, UhdDevice.stop, if_pos (by simp [hstarted])]
        rfl
      rwa [hstep]
    | true =>
      have hended : Thread.count (s.device.async_event_thrd.map Thread.cancelJoin).toList = 0 := by
        cases s.device.async_event_thrd <;> rfl
      simp only [step, apply, UhdDevice.stop, hstarted, Bool.not_true, Bool.false_eq_true,
        if_false, Option.map_some, Option.getD_some]
      exact ⟨h.needed, rfl, by rw [Thread.count_append, hended, h.lost]⟩

/-- A radio interface that is off, over a device of some kind, and a new `uhd_device`. -/
def initial (t : RadioInterface n S) (mRadio : Device) : Helpers n S :=
  ⟨{ t with mOn := false, mRadio := mRadio, mAlignRadioServiceLoopThread := .new },
    ⟨false, none, []⟩⟩

theorem tidy_initial (t : RadioInterface n S) (mRadio : Device) : Tidy (initial t mRadio) :=
  ⟨nofun, rfl, rfl⟩

/-- **The starts and stops of a run are sound exactly if each meets the condition**, whether
or not a start counts as failed that is refused because the device is started already. -/
theorem threads_sound_iff (strict : Bool) (t : RadioInterface n S) (mRadio : Device)
    (events : List Power) :
    Run.Along step (Sound strict) (initial t mRadio) events ↔
      Run.Along step (Meets strict) (initial t mRadio) events :=
  Run.along_iff_of_invariant (I := Tidy)
    (fun _ e h hsound => tidy_step h ((sound_iff h e).mp hsound)) (fun _ e h => sound_iff h e)
    (tidy_initial t mRadio) events

/-- A successful stop leaves the alignment thread running, and so the next start trips the
assertion; a restart that fails leaves a thread running that nothing points to after the next
start. -/
theorem threads_left :
    ¬ Run.Along step (Sound false) (initial oneChannel .usrp1)
        [.radioStart ⟨true, 0, 0⟩, .radioStop true] ∧
      ((initial oneChannel .usrp1).step (.radioStart ⟨false, 0, 0⟩)).apply
        (.radioStart ⟨true, 0, 0⟩) = none ∧
      (Run.exec step (initial oneChannel .uhd) [.uhdStart false, .uhdStart true]).device.threads
        = 2 := by
  refine ⟨?_, rfl, rfl⟩
  rintro ⟨-, ⟨ok, s', happly, -, -, hidle⟩, -⟩
  cases happly
  cases hidle rfl (.inr not_false)

end Helpers
end Radio
end OsmoTrx
