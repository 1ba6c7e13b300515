import OsmoTrx.CommonLibs.LinkedLists
import OsmoTrx.Lib.Monitor
import OsmoTrx.Lib.Run

/-!
# The queue between threads

Threads write to an `InterthreadQueue` and read from it.  A mutex protects each operation, up to
where a read waits for the signal of a write, and from where it comes back.  A run is any sequence
of these sections, by any threads, with threads that come back from `Signal::wait` at any time.

* `Delivers` — what has been written is what has left the queue and then what is in it.
* `Serves` — what one section does with the items and with the threads that wait.
* `apply_serves` — the specification of every section.
* `delivers_exec` — **every item is delivered once and in order**, and a thread is woken for
  it.
* `wakeup_lost` — the number of items is counted modulo 2³², and a reader with a time-out relies
  on it.
-/

namespace OsmoTrx
namespace CommonLibs

/-- The ways to read. -/
inductive Reading
  | blocking
  | timed
  | noBlock

/-- What a section returns, or deletes. -/
inductive Output (T α : Type)
  | returned (t : T) (r : Reading) (val : Option α)
  | deleted (t : T) (val : α)
  | sized (t : T) (size : ℕ)

/-- The item that leaves the queue. -/
def Output.item {T α : Type} : Output T α → Option α
  | .returned _ _ val => val
  | .deleted _ val => some val
  | .sized _ _ => none

/-- `InterthreadQueue`, with the way in which the threads that wait read. -/
structure InterthreadQueue (T α : Type) where
  mQ : PointerFIFO α
  mWriteSignal : Monitor T
  reading : T → Reading

namespace InterthreadQueue

variable {T α : Type} [DecidableEq T]

/-- The constructor. -/
def new : InterthreadQueue T α := ⟨PointerFIFO.new, Monitor.idle, fun _ => .blocking⟩

/-- `write`; the signal wakes the threads `ts`. -/
def write (q : InterthreadQueue T α) (val : α) (ts : Finset T) : InterthreadQueue T α :=
  { q with mQ := q.mQ.put (some val), mWriteSignal := q.mWriteSignal.wake ts }

/-- `mWriteSignal.wait`. -/
def wait (q : InterthreadQueue T α) (t : T) (r : Reading) : InterthreadQueue T α :=
  { q with
    mWriteSignal := q.mWriteSignal.wait t
    reading := Function.update q.reading t r }

/-- A thread takes what `mQ.get` gives it. -/
def take (q : InterthreadQueue T α) (t : T) (r : Reading) :
    List (Output T α) × InterthreadQueue T α :=
  ([.returned t r q.mQ.get.1],
    { q with mQ := q.mQ.get.2, mWriteSignal := q.mWriteSignal.leave t })

/-- `read`, from where the mutex is locked or locked again. -/
def read (q : InterthreadQueue T α) (t : T) : List (Output T α) × InterthreadQueue T α :=
  if q.mQ.get.1.isSome then q.take t .blocking
  else ([], { q with mQ := q.mQ.get.2 }.wait t .blocking)

/-- `read` with a time-out, from where the mutex is locked or locked again. -/
def readTimed (q : InterthreadQueue T α) (t : T) (passed : Bool) :
    List (Output T α) × InterthreadQueue T α :=
  if q.mQ.mSize = 0 ∧ passed = false then ([], q.wait t .timed) else q.take t .timed

/-- `readNoBlock`. -/
def readNoBlock (q : InterthreadQueue T α) (t : T) : List (Output T α) × InterthreadQueue T α :=
  q.take t .noBlock

/-- `read` with a time-out in milliseconds. -/
def readTimeout (q : InterthreadQueue T α) (t : T) (timeout : ℕ) (passed : Bool) :
    List (Output T α) × InterthreadQueue T α :=
  if timeout = 0 then q.readNoBlock t else q.readTimed t passed

/-- The loop of `clear`, of at most `n` turns. -/
def drain : ℕ → PointerFIFO α → List α × PointerFIFO α
  | 0, q => ([], q)
  | n + 1, q =>
    if 0 < q.mSize then (q.get.1.toList ++ (drain n q.get.2).1, (drain n q.get.2).2) else ([], q)

/-- `clear`. -/
def clear (q : InterthreadQueue T α) (t : T) : List (Output T α) × InterthreadQueue T α :=
  ((drain q.mQ.mSize q.mQ).1.map (.deleted t), { q with mQ := (drain q.mQ.mSize q.mQ).2 })

/-- `size`. -/
def size (q : InterthreadQueue T α) (t : T) : List (Output T α) × InterthreadQueue T α :=
  ([.sized t q.mQ.mSize], q)

/-! ## Runs -/

/-- A section.  Where a thread looks at the clock, it finds its time passed or not; `wakeup` is the
return from `Signal::wait` by time-out or without reason, and `relock` is how a woken thread goes
on. -/
inductive Event (T α : Type)
  | write (t : T) (val : α) (ts : Finset T)
  | read (t : T)
  | readTimeout (t : T) (timeout : ℕ) (passed : Bool)
  | readNoBlock (t : T)
  | clear (t : T)
  | size (t : T)
  | wakeup (t : T)
  | relock (t : T) (passed : Bool)

/-- What is written. -/
def Event.new : Event T α → List α
  | .write _ val _ => [val]
  | _ => []

/-- A thread that waits makes no calls, and `pthread_cond_signal` wakes at least one thread if one
is blocked. -/
def Enabled (q : InterthreadQueue T α) : Event T α → Prop
  | .write t _ ts => q.mWriteSignal.Free t ∧ q.mWriteSignal.Signals ts
  | .read t | .readTimeout t _ _ | .readNoBlock t | .clear t | .size t => q.mWriteSignal.Free t
  | .wakeup t => t ∈ q.mWriteSignal.blocked
  | .relock t _ => t ∈ q.mWriteSignal.woken

instance (q : InterthreadQueue T α) : ∀ e, Decidable (q.Enabled e)
  | .write t _ ts => inferInstanceAs (Decidable (q.mWriteSignal.Free t ∧ q.mWriteSignal.Signals ts))
  | .read t | .readTimeout t _ _ | .readNoBlock t | .clear t | .size t =>
    inferInstanceAs (Decidable (q.mWriteSignal.Free t))
  | .wakeup t => inferInstanceAs (Decidable (t ∈ q.mWriteSignal.blocked))
  | .relock t _ => inferInstanceAs (Decidable (t ∈ q.mWriteSignal.woken))

/-- One section. -/
def apply (q : InterthreadQueue T α) : Event T α → List (Output T α) × InterthreadQueue T α
  | .write _ val ts => ([], q.write val ts)
  | .read t => q.read t
  | .readTimeout t timeout passed => q.readTimeout t timeout passed
  | .readNoBlock t => q.readNoBlock t
  | .clear t => q.clear t
  | .size t => q.size t
  | .wakeup t => ([], { q with mWriteSignal := q.mWriteSignal.wake {t} })
  | .relock t passed =>
    match q.reading t with
    | .blocking => q.read t
    | .timed => q.readTimed t passed
    | .noBlock => q.readNoBlock t

/-- A queue, with all that has been written to it and all that its sections have returned. -/
structure Traffic (T α : Type) where
  queue : InterthreadQueue T α
  written : List α
  outputs : List (Output T α)

/-- One section, if it can come next. -/
def Traffic.step (s : Traffic T α) (e : Event T α) : Traffic T α :=
  if s.queue.Enabled e then
    { queue := (s.queue.apply e).2
      written := s.written ++ e.new
      outputs := s.outputs ++ (s.queue.apply e).1 }
  else s

/-- A new queue. -/
def Traffic.initial : Traffic T α := ⟨new, [], []⟩

/-! ## One section -/

/-- A thread that reads with a time-out looks at the number of items. -/
def LooksAtSize (q : InterthreadQueue T α) : Event T α → Prop
  | .readTimeout _ timeout _ => timeout ≠ 0
  | .relock t _ => q.reading t = .timed
  | _ => False

/-- If a thread that reads with a time-out sees no item, then there is none. -/
def SizeRight (q : InterthreadQueue T α) (e : Event T α) : Prop :=
  q.LooksAtSize e → q.mQ.mSize = 0 → q.mQ.mHead = none

/-- What a section does, with `queued` in the queue and `new` written: the items leave in order,
`read` returns none but items, and while threads are blocked there are as many woken threads
as items, where `right`. -/
def Serves (q : InterthreadQueue T α) (queued new : List α) (right : Prop)
    (r : List (Output T α) × InterthreadQueue T α) : Prop :=
  ∃ left, r.2.mQ.Holds (left.map some) ∧
    queued ++ new = r.1.filterMap Output.item ++ left ∧
    (∀ t, .returned t .blocking none ∉ r.1) ∧
    (right → q.mWriteSignal.NoLostWakeup queued.length →
      r.2.mWriteSignal.NoLostWakeup left.length)

variable {q : InterthreadQueue T α} {queued : List α} {right : Prop} {t : T}

theorem serves_write (h : q.mQ.Holds (queued.map some)) (val : α) {ts : Finset T}
    (hts : q.mWriteSignal.Signals ts) : q.Serves queued [val] right ([], q.write val ts) := by
  refine ⟨queued ++ [val], ?_, rfl, fun t => List.not_mem_nil, fun _ hwake => ?_⟩
  · rw [List.map_append]
    exact h.put (some val)
  · rw [List.length_append]
    exact hwake.signal hts

theorem serves_take (h : q.mQ.Holds (queued.map some)) (t : T) {r : Reading}
    (hr : r = .blocking → queued ≠ []) : q.Serves queued [] right (q.take t r) := by
  cases queued with
  | nil =>
    have hnone : (q.take t r).1 = [.returned t r none] := by rw [take, h.get_nil]
    refine ⟨[], ?_, ?_, fun u hu => ?_, fun _ _ => .zero _⟩
    · change q.mQ.get.2.Holds _
      rw [h.get_nil]
      exact h
    · rw [hnone]
      rfl
    · rw [hnone, List.mem_singleton] at hu
      exact hr (Output.returned.inj hu).2.1.symm rfl
  | cons val queued =>
    obtain ⟨hval, hrest⟩ := PointerFIFO.Holds.get h
    have hsome : (q.take t r).1 = [.returned t r (some val)] := by rw [take, hval]
    refine ⟨queued, hrest, ?_, fun u => ?_, fun _ hwake => hwake.take t⟩
    · rw [hsome]
      simp [Output.item]
    · rw [hsome]
      simp

/-- A thread that finds no item blocks. -/
theorem serves_wait (h : q.mQ.Holds (queued.map some)) (t : T) (r : Reading)
    (hnil : right → queued = []) : q.Serves queued [] right ([], q.wait t r) := by
  refine ⟨queued, h, List.append_nil _, fun u => List.not_mem_nil, fun hright _ => ?_⟩
  rw [hnil hright]
  exact .zero _

theorem serves_read (h : q.mQ.Holds (queued.map some)) (t : T) :
    q.Serves queued [] right (q.read t) := by
  unfold read
  split_ifs with hsome
  · refine serves_take h t fun _ hnil => ?_
    rw [hnil] at h
    rw [h.get_nil] at hsome
    exact absurd hsome (by simp)
  · have hnil : queued = [] := by
      cases queued with
      | nil => rfl
      | cons val queued =>
        rw [(PointerFIFO.Holds.get h).1] at hsome
        exact absurd rfl hsome
    subst hnil
    rw [h.get_nil]
    exact serves_wait h t .blocking fun _ => rfl

theorem serves_readTimed (h : q.mQ.Holds (queued.map some)) (t : T) (passed : Bool)
    (hright : right → q.mQ.mSize = 0 → q.mQ.mHead = none) :
    q.Serves queued [] right (q.readTimed t passed) := by
  unfold readTimed
  split_ifs with hwait
  · exact serves_wait h t .timed fun hr =>
      List.map_eq_nil_iff.mp (h.eq_nil (hright hr hwait.1))
  · exact serves_take h t (by simp)

theorem serves_readTimeout (h : q.mQ.Holds (queued.map some)) (t : T) (timeout : ℕ) (passed : Bool)
    (hright : right → timeout ≠ 0 → q.mQ.mSize = 0 → q.mQ.mHead = none) :
    q.Serves queued [] right (q.readTimeout t timeout passed) := by
  unfold readTimeout
  split_ifs with h0
  · exact serves_take h t (by simp)
  · exact serves_readTimed h t passed fun hr => hright hr h0

/-- The loop of `clear` takes as many items as are counted, and ends there. -/
theorem drain_spec {f : PointerFIFO α} {n : ℕ} (h : f.Holds (queued.map some))
    (hn : n = queued.length % 2 ^ 32) :
    (drain n f).1 = queued.take n ∧ (drain n f).2.Holds ((queued.drop n).map some) ∧
      (drain n f).2.mSize = 0 := by
  have hsize : f.mSize = n := by rw [h.mSize_eq, List.length_map, hn]
  induction n generalizing f queued with
  | zero => exact ⟨rfl, h, hsize⟩
  | succ n ih =>
    cases queued with
    | nil => exact absurd hn (by simp)
    | cons val queued =>
      obtain ⟨hval, hrest⟩ := PointerFIFO.Holds.get h
      have hn' : n = queued.length % 2 ^ 32 := by
        rw [List.length_cons] at hn
        omega
      have hsize' : f.get.2.mSize = n := by rw [hrest.mSize_eq, List.length_map, hn']
      obtain ⟨hitems, hholds, hzero⟩ := ih hrest hn' hsize'
      rw [drain, if_pos (hsize ▸ Nat.succ_pos n), hval, hitems]
      exact ⟨rfl, hholds, hzero⟩

omit [DecidableEq T] in
theorem serves_clear (h : q.mQ.Holds (queued.map some)) (t : T) :
    q.Serves queued [] right (q.clear t) := by
  have hn : q.mQ.mSize = queued.length % 2 ^ 32 := by rw [h.mSize_eq, List.length_map]
  obtain ⟨hitems, hholds, -⟩ := drain_spec h hn
  refine ⟨queued.drop q.mQ.mSize, hholds, ?_, fun u => ?_, fun _ hwake => hwake.mono ?_⟩
  · have hleft : (q.clear t).1.filterMap Output.item = queued.take q.mQ.mSize := by
      rw [clear, List.filterMap_map, hitems]
      exact List.filterMap_some
    rw [hleft, List.take_append_drop, List.append_nil]
  · simp [clear]
  · rw [List.length_drop]
    exact Nat.sub_le _ _

/-- **Every section** that can come next serves. -/
theorem apply_serves (h : q.mQ.Holds (queued.map some)) {e : Event T α} (he : q.Enabled e) :
    q.Serves queued e.new (q.SizeRight e) (q.apply e) := by
  cases e with
  | write t val ts => exact serves_write h val he.2
  | read t => exact serves_read h t
  | readTimeout t timeout passed => exact serves_readTimeout h t timeout passed fun hr => hr
  | readNoBlock t => exact serves_take h t (by simp)
  | clear t => exact serves_clear h t
  | size t =>
    exact ⟨queued, h, List.append_nil _, by simp [apply, size], fun _ hwake => hwake⟩
  | wakeup t =>
    exact ⟨queued, h, List.append_nil _, fun u => List.not_mem_nil, fun _ hwake => hwake.wake {t}⟩
  | relock t passed =>
    change q.Serves queued [] _ (match q.reading t with
      | .blocking => q.read t
      | .timed => q.readTimed t passed
      | .noBlock => q.readNoBlock t)
    cases hr : q.reading t with
    | blocking => exact serves_read h t
    | timed => exact serves_readTimed h t passed fun hright => hright hr
    | noBlock => exact serves_take h t (by simp)

/-! ## Any run -/

/-- What has been written has left the queue, in order, and then is in it; `read` has returned
none but items. -/
structure Delivers (s : Traffic T α) (queued : List α) : Prop where
  holds : s.queue.mQ.Holds (queued.map some)
  written : s.written = s.outputs.filterMap Output.item ++ queued
  blocking : ∀ t, .returned t .blocking none ∉ s.outputs

variable {s : Traffic T α}

omit [DecidableEq T] in
/-- The items in the queue are determined by its nodes. -/
theorem Delivers.unique {queued' : List α} (h : Delivers s queued) (h' : Delivers s queued') :
    queued = queued' :=
  List.map_injective_iff.mpr (Option.some_injective α) (h.holds.unique h'.holds)

theorem delivers_step (h : Delivers s queued) (e : Event T α) :
    ∃ left, Delivers (s.step e) left ∧
      (s.queue.SizeRight e → s.queue.mWriteSignal.NoLostWakeup queued.length →
        (s.step e).queue.mWriteSignal.NoLostWakeup left.length) := by
  by_cases he : s.queue.Enabled e
  · obtain ⟨left, hholds, hitems, hread, hwake⟩ := apply_serves h.holds he
    rw [Traffic.step, if_pos he]
    refine ⟨left, ⟨hholds, ?_, fun t hmem => ?_⟩, hwake⟩
    · change s.written ++ e.new = (s.outputs ++ (s.queue.apply e).1).filterMap Output.item ++ left
      rw [h.written, List.append_assoc, hitems, List.filterMap_append, List.append_assoc]
    · rcases List.mem_append.mp hmem with hmem | hmem
      · exact h.blocking t hmem
      · exact hread t hmem
  · rw [Traffic.step, if_neg he]
    exact ⟨queued, h, fun _ hwake => hwake⟩

omit [DecidableEq T] in
theorem delivers_initial : Delivers (Traffic.initial : Traffic T α) [] :=
  ⟨PointerFIFO.holds_new, rfl, fun _ => List.not_mem_nil⟩

/-- **Every item written is returned by one read, deleted by one `clear` or still in the queue**,
in the order written, and `read` returns none but items.  If threads that read with a time-out see
whether there are items, then while threads are blocked, there are as many threads that have been
woken and have not looked again as there are items. -/
theorem delivers_exec (es : List (Event T α)) :
    ∃ queued, Delivers (Run.exec Traffic.step Traffic.initial es) queued ∧
      (Run.Along Traffic.step (fun s e => s.queue.SizeRight e) Traffic.initial es →
        (Run.exec Traffic.step Traffic.initial es).queue.mWriteSignal.NoLostWakeup
          queued.length) := by
  have hdelivers : ∃ queued, Delivers (Run.exec Traffic.step Traffic.initial es) queued :=
    Run.exec_invariant (I := fun s : Traffic T α => ∃ queued, Delivers s queued)
      (fun s e ⟨queued, h⟩ =>
        have ⟨left, hleft, _⟩ := delivers_step h e
        ⟨left, hleft⟩) ⟨[], delivers_initial⟩ es
  obtain ⟨queued, h⟩ := hdelivers
  refine ⟨queued, h, fun hright => ?_⟩
  obtain ⟨queued', h', hwake⟩ := Run.invariant_exec
    (I := fun s : Traffic T α =>
      ∃ queued, Delivers s queued ∧ s.queue.mWriteSignal.NoLostWakeup queued.length)
    (fun s e ⟨queued, h, hwake⟩ hr =>
      have ⟨left, hleft, hnext⟩ := delivers_step h e
      ⟨left, hleft, hnext hr hwake⟩)
    ⟨[], delivers_initial, Monitor.noLostWakeup_idle 0⟩ hright
  rw [h.unique h']
  exact hwake

omit [DecidableEq T] in
/-- Threads see whether there are items as long as there are fewer than 2³². -/
theorem sizeRight_of_lt (h : Delivers s queued) (hlt : queued.length < 2 ^ 32) (e : Event T α) :
    s.queue.SizeRight e := by
  intro _ hsize
  rw [h.holds.mSize_eq, List.length_map, Nat.mod_eq_of_lt hlt] at hsize
  have hq := h.holds
  rw [List.length_eq_zero_iff.mp hsize] at hq
  obtain ⟨used, free, hn, hused, -⟩ := hq
  have hhead := hn.head
  rw [List.map_eq_nil_iff.mp hused] at hhead
  exact hhead

/-! ### The number of items -/

/-- A thread writes the same item again and again, and nobody waits. -/
theorem exec_writes (t : T) (val : α) (n : ℕ) :
    (Run.exec Traffic.step Traffic.initial (List.replicate n (.write t val ∅))).queue.mWriteSignal =
        Monitor.idle ∧
      (Run.exec Traffic.step Traffic.initial (List.replicate n (.write t val ∅))).written =
        List.replicate n val ∧
      (Run.exec Traffic.step Traffic.initial (List.replicate n (.write t val ∅))).outputs = [] := by
  induction n with
  | zero => exact ⟨rfl, rfl, rfl⟩
  | succ n ih =>
    rw [List.replicate_succ', Run.exec_append]
    generalize Run.exec Traffic.step Traffic.initial (List.replicate n (.write t val ∅)) = s at ih ⊢
    obtain ⟨hidle, hwritten, houtputs⟩ := ih
    have he : s.queue.Enabled (.write t val ∅) := by
      change s.queue.mWriteSignal.Free t ∧ s.queue.mWriteSignal.Signals ∅
      rw [hidle]
      simp [Monitor.idle, Monitor.Free, Monitor.Signals]
    rw [Run.exec_cons, Run.exec_nil, Traffic.step, if_pos he]
    refine ⟨?_, ?_, ?_⟩
    · change s.queue.mWriteSignal.wake ∅ = Monitor.idle
      rw [hidle]
      rfl
    · rw [List.replicate_succ', ← hwritten]
      rfl
    · rw [houtputs]
      rfl

/-- A reader with a time-out that sees no items blocks. -/
theorem step_readTimeout (hfree : s.queue.mWriteSignal.Free t) (hsize : s.queue.mQ.mSize = 0) :
    s.step (.readTimeout t 1 false) =
      { s with queue := s.queue.wait t .timed, written := s.written ++ [],
               outputs := s.outputs ++ [] } := by
  have he : s.queue.Enabled (.readTimeout t 1 false) := hfree
  rw [Traffic.step, if_pos he]
  have happly : s.queue.apply (.readTimeout t 1 false) = ([], s.queue.wait t .timed) := by
    rw [apply, readTimeout, if_neg one_ne_zero, readTimed, if_pos ⟨hsize, rfl⟩]
  rw [happly]
  rfl

/-- If as many items are written that they are counted as none, then a reader with a time-out
blocks, and nobody has been woken. -/
theorem blocks_after_writes {t u : T} {val : α} {n : ℕ} {es : List (Event T α)} (hpos : 0 < n)
    (hn : n % 2 ^ 32 = 0)
    (hes : es = List.replicate n (.write t val ∅) ++ [.readTimeout u 1 false]) :
    ∃ queued, Delivers (Run.exec Traffic.step Traffic.initial es) queued ∧
      ¬ (Run.exec Traffic.step Traffic.initial es).queue.mWriteSignal.NoLostWakeup
        queued.length := by
  obtain ⟨queued, hs, -⟩ := delivers_exec (List.replicate n (.write t val ∅))
  obtain ⟨hidle, hwritten, houtputs⟩ := exec_writes t val n
  rw [hes, Run.exec_append]
  generalize Run.exec Traffic.step Traffic.initial
    (List.replicate n (.write t val ∅)) = s at hs hidle hwritten houtputs ⊢
  have hlength : queued.length = n := by
    have hqueued := hs.written
    rw [houtputs, hwritten, List.filterMap_nil, List.nil_append] at hqueued
    rw [← hqueued, List.length_replicate]
  have hsize : s.queue.mQ.mSize = 0 := by
    rw [hs.holds.mSize_eq, List.length_map, hlength, hn]
  have hfree : s.queue.mWriteSignal.Free u := by
    rw [hidle]
    exact ⟨Finset.notMem_empty _, Finset.notMem_empty _⟩
  rw [Run.exec_cons, Run.exec_nil, step_readTimeout hfree hsize]
  refine ⟨queued, ⟨hs.holds, ?_, fun v => ?_⟩, fun hwake => ?_⟩
  · simpa only [List.append_nil] using hs.written
  · simpa only [List.append_nil] using hs.blocking v
  · have hle := hwake ⟨u, Finset.mem_insert_self _ _⟩
    change queued.length ≤ (s.queue.mWriteSignal.woken.erase u).card at hle
    rw [hlength, hidle] at hle
    exact absurd hpos (Nat.not_lt.mpr hle)

/-- After 2³² writes a reader with a time-out takes the queue for empty. -/
theorem wakeup_lost :
    ∃ es : List (Event Bool Unit),
      es = List.replicate (2 ^ 32) (.write false () ∅) ++ [.readTimeout true 1 false] ∧
      ∃ queued, Delivers (Run.exec Traffic.step Traffic.initial es) queued ∧
        ¬ (Run.exec Traffic.step Traffic.initial es).queue.mWriteSignal.NoLostWakeup
          queued.length :=
  ⟨_, rfl, blocks_after_writes (Nat.two_pow_pos 32) (Nat.mod_self _) rfl⟩

end InterthreadQueue
end CommonLibs
end OsmoTrx
