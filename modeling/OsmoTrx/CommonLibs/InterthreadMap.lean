import Mathlib.Data.List.AList
import OsmoTrx.CommonLibs.Timeval
import OsmoTrx.Lib.Monitor
import OsmoTrx.Lib.Run

/-!
# The map between threads

`InterthreadMap` of `Interthread.h`: threads write objects under keys and wait for those of others.
A mutex protects each operation, up to where a thread waits for the signal of a write, and from
where it comes back; every write wakes all threads that wait.

* `InterthreadMap`, `look`, `write`, `remove`, `clear` — the code, in sections between the waits.
* `Keeps` — the invariant of runs, with a lemma for each section.
* `keeps_exec` — **in any run** each object is in the map, has been given to one `get`, or has been
  deleted once, calls are answered in order, with objects of their key or, once their time-out has
  passed, with nothing, and no thread is blocked for a key that is there.
-/

namespace OsmoTrx
namespace CommonLibs

/-- What a thread asks for: a key, with removal of the entry (`get`) or without (`read`), and with a
time-out in milliseconds or without.  The call begins when the clock reads `start`. -/
structure Request (K : Type) where
  key : K
  removes : Bool
  timeout : Option ℕ
  start : Timespec
  deriving DecidableEq, Repr

/-- Whether nothing is returned when the clock reads `now`.  With a time-out of zero `get` and `read`
are `getNoBlock` and `readNoBlock`, which do not wait. -/
def Request.over {K : Type} (r : Request K) (now : Timespec) : Bool :=
  match r.timeout with
  | none => false
  | some 0 => true
  | some timeout => (Timeval.future r.start timeout).passed now

/-- What a call has returned, when the clock read `now`. -/
structure Answer (T K α : Type) where
  thread : T
  request : Request K
  now : Timespec
  value : Option α
  deriving DecidableEq, Repr

/-- `InterthreadMap`, with what the threads that wait have asked for. -/
structure InterthreadMap (T K α : Type) where
  mMap : AList fun _ : K => α
  mWriteSignal : Monitor T
  waiting : T → Option (Request K)

namespace InterthreadMap

variable {T K α : Type} [DecidableEq T] [DecidableEq K]

/-- The objects of a map. -/
def objects (m : AList fun _ : K => α) : List α := m.entries.map Sigma.snd

/-- The constructor. -/
def new : InterthreadMap T K α := ⟨∅, Monitor.idle, fun _ => none⟩

/-- What a section returns, and what it deletes. -/
structure Effect (T K α : Type) where
  returned : List (Answer T K α)
  deleted : List α
  map : InterthreadMap T K α

/-- `write`: an object that is there under the key is deleted, and all threads are woken. -/
def write (m : InterthreadMap T K α) (key : K) (wData : α) : Effect T K α where
  returned := []
  deleted := (m.mMap.lookup key).toList
  map := { m with
    mMap := m.mMap.insert key wData
    mWriteSignal := m.mWriteSignal.wake m.mWriteSignal.blocked }

/-- `mWriteSignal.wait`. -/
def wait (m : InterthreadMap T K α) (t : T) (r : Request K) : InterthreadMap T K α :=
  { m with
    mWriteSignal := m.mWriteSignal.wait t
    waiting := Function.update m.waiting t (some r) }

/-- `get` and `read`, from where the mutex is locked or locked again. -/
def look (m : InterthreadMap T K α) (t : T) (r : Request K) (now : Timespec) : Effect T K α :=
  match m.mMap.lookup r.key with
  | some val =>
    { returned := [⟨t, r, now, some val⟩]
      deleted := []
      map := { m with
        mMap := if r.removes then m.mMap.erase r.key else m.mMap
        mWriteSignal := m.mWriteSignal.leave t } }
  | none =>
    if r.over now then ⟨[⟨t, r, now, none⟩], [], { m with mWriteSignal := m.mWriteSignal.leave t }⟩
    else ⟨[], [], m.wait t r⟩

/-- `remove`: the object is deleted after the mutex is unlocked. -/
def remove (m : InterthreadMap T K α) (key : K) : Effect T K α :=
  ⟨[], (m.mMap.lookup key).toList, { m with mMap := m.mMap.erase key }⟩

/-- `clear`. -/
def clear (m : InterthreadMap T K α) : Effect T K α := ⟨[], objects m.mMap, { m with mMap := ∅ }⟩

/-! ## Runs -/

/-- A section.  A thread that looks finds the clock at `now`; `wakeup` is the return from
`Signal::wait` by time-out or without reason, and `relock` is how a woken thread goes on. -/
inductive Event (T K α : Type)
  | write (t : T) (key : K) (wData : α)
  | call (t : T) (r : Request K) (now : Timespec)
  | remove (t : T) (key : K)
  | clear (t : T)
  | wakeup (t : T)
  | relock (t : T) (now : Timespec)

/-- What is written. -/
def Event.new : Event T K α → List (K × α)
  | .write _ key wData => [(key, wData)]
  | _ => []

/-- What is asked for. -/
def Event.asked : Event T K α → List (T × Request K)
  | .call t r _ => [(t, r)]
  | _ => []

/-- A thread that waits makes no calls. -/
def Enabled (m : InterthreadMap T K α) : Event T K α → Prop
  | .write t _ _ | .call t _ _ | .remove t _ | .clear t => m.mWriteSignal.Free t
  | .wakeup t => t ∈ m.mWriteSignal.blocked
  | .relock t _ => t ∈ m.mWriteSignal.woken

instance (m : InterthreadMap T K α) : ∀ e, Decidable (m.Enabled e)
  | .write t _ _ | .call t _ _ | .remove t _ | .clear t =>
    inferInstanceAs (Decidable (m.mWriteSignal.Free t))
  | .wakeup t => inferInstanceAs (Decidable (t ∈ m.mWriteSignal.blocked))
  | .relock t _ => inferInstanceAs (Decidable (t ∈ m.mWriteSignal.woken))

/-- One section. -/
def apply (m : InterthreadMap T K α) : Event T K α → Effect T K α
  | .write _ key wData => m.write key wData
  | .call t r now => m.look t r now
  | .remove _ key => m.remove key
  | .clear _ => m.clear
  | .wakeup t => ⟨[], [], { m with mWriteSignal := m.mWriteSignal.wake {t} }⟩
  | .relock t now =>
    match m.waiting t with
    | some r => m.look t r now
    | none => ⟨[], [], m⟩

/-- A map, with all that has been written to it, asked for, returned and deleted. -/
structure Traffic (T K α : Type) where
  map : InterthreadMap T K α
  written : List (K × α)
  asked : List (T × Request K)
  returned : List (Answer T K α)
  deleted : List α

/-- One section, if it can come next. -/
def Traffic.step (s : Traffic T K α) (e : Event T K α) : Traffic T K α :=
  if s.map.Enabled e then
    { map := (s.map.apply e).map
      written := s.written ++ e.new
      asked := s.asked ++ e.asked
      returned := s.returned ++ (s.map.apply e).returned
      deleted := s.deleted ++ (s.map.apply e).deleted }
  else s

/-- A new map. -/
def Traffic.initial : Traffic T K α := ⟨new, [], [], [], []⟩

/-! ## The objects -/

/-- The object that a call takes out of the map. -/
def taken (x : Answer T K α) : Option α := if x.request.removes then x.value else none

/-- The objects with and without an entry. -/
theorem objects_perm_erase (m : AList fun _ : K => α) (key : K) :
    (objects m).Perm ((m.lookup key).toList ++ objects (m.erase key)) := by
  by_cases hkey : key ∈ m
  · obtain ⟨val, before, after, hbefore, hentries, herase⟩ := List.exists_of_kerase hkey
    have hlookup : m.lookup key = some val := by
      have hmem : (⟨key, val⟩ : Sigma fun _ : K => α) ∈ m.entries := by
        rw [hentries]
        simp
      exact AList.mem_lookup_iff.mpr hmem
    have herase' : (m.erase key).entries = before ++ after := herase
    rw [hlookup, objects, objects, hentries, herase', List.map_append, List.map_append,
      List.map_cons]
    exact List.perm_middle
  · have hsame : (m.erase key).entries = m.entries := List.kerase_of_notMem_keys hkey
    rw [AList.lookup_eq_none.mpr hkey, objects, objects, hsame]
    exact List.Perm.refl _

/-! ## The calls -/

/-- What a thread has asked for. -/
def asksOf (t : T) (asked : List (T × Request K)) : List (Request K) :=
  (asked.filter fun x => x.1 = t).map Prod.snd

/-- The requests of a thread that have been answered. -/
def answeredTo (t : T) (returned : List (Answer T K α)) : List (Request K) :=
  (returned.filter fun x => x.thread = t).map Answer.request

/-- What a thread waits for. -/
def pending (m : InterthreadMap T K α) (t : T) : List (Request K) :=
  if m.mWriteSignal.Free t then [] else (m.waiting t).toList

omit [DecidableEq K] in
theorem asksOf_append (t : T) (xs ys : List (T × Request K)) :
    asksOf t (xs ++ ys) = asksOf t xs ++ asksOf t ys := by
  rw [asksOf, List.filter_append, List.map_append, asksOf, asksOf]

omit [DecidableEq K] in
theorem answeredTo_append (t : T) (xs ys : List (Answer T K α)) :
    answeredTo t (xs ++ ys) = answeredTo t xs ++ answeredTo t ys := by
  rw [answeredTo, List.filter_append, List.map_append, answeredTo, answeredTo]

/-! ## One section -/

/-- No thread is blocked for a key that is there. -/
def Waits (m : InterthreadMap T K α) : Prop :=
  ∀ t ∈ m.mWriteSignal.blocked, ∃ r, m.waiting t = some r ∧ m.mMap.lookup r.key = none

/-- What a section does, with `new` written: no object is lost or doubled, what is returned is what
is there under the key, and the threads that are blocked wait for something that is not there. -/
structure Serves (m : InterthreadMap T K α) (new : List (K × α)) (e : Effect T K α) : Prop where
  account : (objects m.mMap ++ new.map Prod.snd).Perm
    (objects e.map.mMap ++ e.returned.filterMap taken ++ e.deleted)
  entries : ∀ k v, e.map.mMap.lookup k = some v → m.mMap.lookup k = some v ∨ (k, v) ∈ new
  returned : ∀ x ∈ e.returned, (∀ v, x.value = some v → m.mMap.lookup x.request.key = some v) ∧
    (x.value = none → x.request.over x.now = true)
  waits : m.Waits → e.map.Waits

variable {m : InterthreadMap T K α}

omit [DecidableEq T] in
/-- A section that leaves the map alone. -/
theorem serves_same {e : Effect T K α} (hmap : e.map.mMap = m.mMap) (hdeleted : e.deleted = [])
    (hreturned : ∀ x ∈ e.returned, x.value = none ∧ x.request.over x.now = true)
    (hwaits : m.Waits → e.map.Waits) : m.Serves [] e where
  account := by
    have hnone : e.returned.filterMap taken = [] := by
      refine List.filterMap_eq_nil_iff.mpr fun x hx => ?_
      rw [taken, (hreturned x hx).1, ite_self]
    rw [hmap, hdeleted, hnone, List.append_nil]
    exact List.Perm.refl _
  entries k v h := Or.inl (hmap ▸ h)
  returned x hx := by
    refine ⟨fun v hv => ?_, fun _ => (hreturned x hx).2⟩
    rw [(hreturned x hx).1] at hv
    cases hv
  waits := hwaits

theorem serves_write (key : K) (wData : α) : m.Serves [(key, wData)] (m.write key wData) where
  account := by
    have hentries : objects (m.mMap.insert key wData) = wData :: objects (m.mMap.erase key) := rfl
    have hold := (objects_perm_erase m.mMap key).trans List.perm_append_comm
    simp only [write, List.map_cons, List.map_nil, List.filterMap_nil, List.append_nil, hentries]
    exact List.perm_append_comm.trans (hold.cons wData)
  entries k v h := by
    by_cases hk : k = key
    · subst hk
      have hv : v = wData := by
        simp only [write, AList.lookup_insert, Option.some_inj] at h
        exact h.symm
      subst hv
      exact Or.inr List.mem_cons_self
    · simp only [write, AList.lookup_insert_ne hk] at h
      exact Or.inl h
  returned x hx := by cases hx
  waits _ t ht := by
    -- every thread that was blocked is woken
    have hempty : (m.mWriteSignal.wake m.mWriteSignal.blocked).blocked = ∅ := Finset.sdiff_self _
    rw [write, hempty] at ht
    exact absurd ht (Finset.notMem_empty t)

theorem serves_look (t : T) (r : Request K) (now : Timespec) : m.Serves [] (m.look t r now) := by
  cases hlookup : m.mMap.lookup r.key with
  | some val =>
    have heff : m.look t r now = ⟨[⟨t, r, now, some val⟩], [], { m with
        mMap := if r.removes then m.mMap.erase r.key else m.mMap
        mWriteSignal := m.mWriteSignal.leave t }⟩ := by
      simp only [look, hlookup]
    rw [heff]
    refine ⟨?_, fun k v h => Or.inl ?_, fun x hx => ?_, fun hwaits u hu => ?_⟩
    · cases hremoves : r.removes with
      | true =>
        have hperm := objects_perm_erase m.mMap r.key
        rw [hlookup] at hperm
        simpa [taken, hremoves] using hperm.trans List.perm_append_comm
      | false => simp [taken, hremoves]
    · cases hremoves : r.removes with
      | true =>
        simp only [hremoves, if_true] at h
        by_cases hk : k = r.key
        · rw [hk, AList.lookup_erase] at h
          cases h
        · rwa [AList.lookup_erase_ne hk] at h
      | false => simpa only [hremoves, Bool.false_eq_true, if_false] using h
    · obtain rfl := List.mem_singleton.mp hx
      refine ⟨fun v hv => ?_, fun hnone => ?_⟩
      · rw [← hv]
        exact hlookup
      · cases hnone
    · obtain ⟨r', hr', hnone⟩ := hwaits u hu
      refine ⟨r', hr', ?_⟩
      cases hremoves : r.removes with
      | true =>
        simp only [if_true]
        by_cases hk : r'.key = r.key
        · rw [hk, AList.lookup_erase]
        · rw [AList.lookup_erase_ne hk, hnone]
      | false => simpa only [hremoves, Bool.false_eq_true, if_false] using hnone
  | none =>
    by_cases hover : r.over now
    · simp only [look, hlookup, if_pos hover]
      refine serves_same rfl rfl (fun x hx => ?_) fun hwaits => hwaits
      rw [List.mem_singleton.mp hx]
      exact ⟨rfl, hover⟩
    · simp only [look, hlookup, if_neg hover]
      refine serves_same rfl rfl (fun x hx => absurd hx List.not_mem_nil) fun hwaits u hu => ?_
      by_cases hut : u = t
      · subst hut
        exact ⟨r, Function.update_self .., hlookup⟩
      · obtain ⟨r', hr', hnone⟩ := hwaits u (Finset.mem_of_mem_insert_of_ne hu hut)
        exact ⟨r', (Function.update_of_ne hut ..).trans hr', hnone⟩

omit [DecidableEq T] in
theorem serves_remove (key : K) : m.Serves [] (m.remove key) where
  account := by
    simpa [remove] using (objects_perm_erase m.mMap key).trans List.perm_append_comm
  entries k v h := by
    by_cases hk : k = key
    · rw [remove, hk, AList.lookup_erase] at h
      cases h
    · rw [remove, AList.lookup_erase_ne hk] at h
      exact Or.inl h
  returned x hx := by cases hx
  waits hwaits t ht := by
    obtain ⟨r, hr, hnone⟩ := hwaits t ht
    refine ⟨r, hr, ?_⟩
    by_cases hk : r.key = key
    · rw [remove, hk, AList.lookup_erase]
    · rw [remove, AList.lookup_erase_ne hk, hnone]

omit [DecidableEq T] in
theorem serves_clear : m.Serves [] m.clear where
  account := by simp [clear, objects]
  entries k v h := by
    rw [clear, AList.lookup_empty] at h
    cases h
  returned x hx := by cases hx
  waits hwaits t ht := by
    obtain ⟨r, hr, -⟩ := hwaits t ht
    exact ⟨r, hr, AList.lookup_empty r.key⟩

/-- **Every section** serves. -/
theorem apply_serves (m : InterthreadMap T K α) (e : Event T K α) : m.Serves e.new (m.apply e) := by
  cases e with
  | write t key wData => exact serves_write key wData
  | call t r now => exact serves_look t r now
  | remove t key => exact serves_remove key
  | clear t => exact serves_clear
  | wakeup t =>
    exact serves_same rfl rfl (fun x hx => absurd hx List.not_mem_nil)
      fun hwaits u hu => hwaits u (Finset.sdiff_subset hu)
  | relock t now =>
    rw [apply]
    cases m.waiting t with
    | some r => exact serves_look t r now
    | none =>
      exact serves_same rfl rfl (fun x hx => absurd hx List.not_mem_nil) fun hwaits => hwaits

/-! ### What becomes of the calls -/

/-- A thread that looks is answered or waits, and nothing changes for the others. -/
theorem look_answers {t : T} (hblocked : t ∉ m.mWriteSignal.blocked) (r : Request K)
    (now : Timespec) (u : T) :
    answeredTo u (m.look t r now).returned ++ pending (m.look t r now).map u =
      if u = t then [r] else pending m u := by
  -- of a section that answers, whatever it does to the entries
  have hanswer : ∀ (value : Option α) (mMap : AList fun _ : K => α),
      answeredTo u [⟨t, r, now, value⟩] ++
        pending { m with mMap := mMap, mWriteSignal := m.mWriteSignal.leave t } u =
      if u = t then [r] else pending m u := by
    intro value mMap
    by_cases hut : u = t
    · subst hut
      simp [answeredTo, pending, Monitor.free_leave hblocked]
    · simp [answeredTo, pending, Monitor.free_leave_of_ne hut, hut, Ne.symm hut]
  cases hlookup : m.mMap.lookup r.key with
  | some val =>
    simp only [look, hlookup]
    exact hanswer (some val) _
  | none =>
    by_cases hover : r.over now
    · simp only [look, hlookup, if_pos hover]
      exact hanswer none m.mMap
    · simp only [look, hlookup, if_neg hover]
      by_cases hut : u = t
      · subst hut
        simp [answeredTo, pending, wait, Monitor.not_free_wait]
      · simp [answeredTo, pending, wait, Monitor.free_wait_of_ne hut, hut]

omit [DecidableEq K] in
/-- No call is answered in a section that wakes threads at most. -/
theorem pending_wake (m : InterthreadMap T K α) (mMap : AList fun _ : K => α) (ts : Finset T)
    (u : T) :
    pending { m with mMap := mMap, mWriteSignal := m.mWriteSignal.wake ts } u = pending m u := by
  simp only [pending, Monitor.free_wake]

/-- **Every section** answers what has been asked for, or leaves it pending. -/
theorem apply_answers {e : Event T K α} (he : m.Enabled e) (u : T) :
    pending m u ++ asksOf u e.asked =
      answeredTo u (m.apply e).returned ++ pending (m.apply e).map u := by
  have hquiet : pending m u ++ asksOf u [] = pending m u := List.append_nil _
  cases e with
  | write t key wData => exact hquiet.trans (pending_wake m _ _ u).symm
  | call t r now =>
    rw [apply, look_answers he.1]
    by_cases hut : u = t
    · subst hut
      have hfree : m.mWriteSignal.Free u := he
      simp [pending, hfree, Event.asked, asksOf]
    · simp [Event.asked, asksOf, hut, Ne.symm hut]
  | remove t key => exact hquiet
  | clear t => exact hquiet
  | wakeup t => exact hquiet.trans (pending_wake m _ _ u).symm
  | relock t now =>
    have hwoken : t ∈ m.mWriteSignal.woken := he
    have hblocked : t ∉ m.mWriteSignal.blocked :=
      Finset.disjoint_right.mp m.mWriteSignal.disjoint hwoken
    have hbusy : ¬ m.mWriteSignal.Free t := fun h => h.2 hwoken
    refine hquiet.trans ?_
    rw [apply]
    cases hr : m.waiting t with
    | some r =>
      simp only []
      rw [look_answers hblocked]
      by_cases hut : u = t
      · subst hut
        simp [pending, hbusy, hr]
      · rw [if_neg hut]
    | none => rfl

/-! ## Any run -/

/-- Each object that has been written is in the map, has been taken out of it or has been deleted;
what has been returned has been written under its key, or is nothing after a time-out; and the
calls of a thread have been answered in their order, but for one that waits. -/
structure Keeps (s : Traffic T K α) : Prop where
  account : (objects s.map.mMap ++ s.returned.filterMap taken ++ s.deleted).Perm
    (s.written.map Prod.snd)
  entries : ∀ k v, s.map.mMap.lookup k = some v → (k, v) ∈ s.written
  returned : ∀ x ∈ s.returned, (∀ v, x.value = some v → (x.request.key, v) ∈ s.written) ∧
    (x.value = none → x.request.over x.now = true)
  calls : ∀ t, asksOf t s.asked = answeredTo t s.returned ++ pending s.map t
  waits : s.map.Waits

omit [DecidableEq T] [DecidableEq K] in
/-- What has been given away or deleted before, and what a section adds to it. -/
theorem perm_of_accounts {held held' deleted deleted' : List α} {new : List (K × α)}
    {log : List (K × α)} {returned returned' : List (Answer T K α)}
    (hbefore : (held ++ returned.filterMap taken ++ deleted).Perm (log.map Prod.snd))
    (hsection : (held ++ new.map Prod.snd).Perm (held' ++ returned'.filterMap taken ++ deleted')) :
    (held' ++ (returned ++ returned').filterMap taken ++ (deleted ++ deleted')).Perm
      ((log ++ new).map Prod.snd) := by
  have hold := Multiset.coe_eq_coe.mpr hbefore
  have hnew := Multiset.coe_eq_coe.mpr hsection
  refine Multiset.coe_eq_coe.mp ?_
  simp only [List.filterMap_append, List.map_append, ← Multiset.coe_add] at hold hnew ⊢
  rw [← hold]
  calc (held' + ((returned.filterMap taken : List α) + (returned'.filterMap taken : List α)) +
        (deleted + deleted') : Multiset α)
      = held' + (returned'.filterMap taken : List α) + deleted' +
          ((returned.filterMap taken : List α) + deleted) := by abel
    _ = held + (new.map Prod.snd : List α) + ((returned.filterMap taken : List α) + deleted) := by
        rw [hnew]
    _ = held + (returned.filterMap taken : List α) + deleted + (new.map Prod.snd : List α) := by
        abel

theorem keeps_initial : Keeps (Traffic.initial : Traffic T K α) where
  account := List.Perm.refl _
  entries k v h := by
    simp [Traffic.initial, new] at h
  returned x hx := absurd hx List.not_mem_nil
  calls t := by
    have hfree : (Traffic.initial : Traffic T K α).map.mWriteSignal.Free t :=
      ⟨Finset.notMem_empty t, Finset.notMem_empty t⟩
    rw [pending, if_pos hfree]
    rfl
  waits t ht := absurd ht (Finset.notMem_empty t)

theorem keeps_step {s : Traffic T K α} (h : Keeps s) (e : Event T K α) : Keeps (s.step e) := by
  by_cases he : s.map.Enabled e
  · obtain ⟨haccount, hentries, hreturned, hwaits⟩ := apply_serves s.map e
    rw [Traffic.step, if_pos he]
    refine ⟨?_, fun k v hkv => ?_, fun x hx => ?_, fun t => ?_, hwaits h.waits⟩
    · exact perm_of_accounts h.account haccount
    · rcases hentries k v hkv with hold | hnew
      · exact List.mem_append_left _ (h.entries k v hold)
      · exact List.mem_append_right _ hnew
    · rcases List.mem_append.mp hx with hold | hnew
      · exact ⟨fun v hv => List.mem_append_left _ ((h.returned x hold).1 v hv),
          (h.returned x hold).2⟩
      · exact ⟨fun v hv => List.mem_append_left _ (h.entries _ v ((hreturned x hnew).1 v hv)),
          (hreturned x hnew).2⟩
    · rw [asksOf_append, answeredTo_append, h.calls t, List.append_assoc, apply_answers he t,
        List.append_assoc]
  · rw [Traffic.step, if_neg he]
    exact h

omit [DecidableEq T] [DecidableEq K] in
/-- A call without a time-out never gives up, and one with a time-out not before its deadline. -/
theorem over_iff (r : Request K) (now : Timespec) :
    r.over now = true ↔ ∃ timeout, r.timeout = some timeout ∧
      (timeout = 0 ∨ (Timeval.future r.start timeout).passed now = true) := by
  cases htimeout : r.timeout with
  | none => simp [Request.over, htimeout]
  | some timeout =>
    cases timeout with
    | zero => simp [Request.over, htimeout]
    | succ timeout => simp [Request.over, htimeout]

/-- **The map over whole runs**, of any calls by any threads in any order.  Each object that has
been written is in the map, has been given to one `get` or has been deleted: if no object is written
twice, none of these happens twice to one.  The calls of a thread are answered in their order, but
for one that it still waits in.  What `get` and `read` have returned has been written under their
key, or is nothing, if the time-out is zero or the clock is past the deadline.  A thread that is
blocked waits for a key without an entry, so that no wake-up is lost. -/
theorem keeps_exec (es : List (Event T K α)) :
    let s := Run.exec Traffic.step Traffic.initial es
    (objects s.map.mMap ++ s.returned.filterMap taken ++ s.deleted).Perm (s.written.map Prod.snd) ∧
      ((s.written.map Prod.snd).Nodup →
        (objects s.map.mMap ++ s.returned.filterMap taken ++ s.deleted).Nodup) ∧
      (∀ t, asksOf t s.asked = answeredTo t s.returned ++ pending s.map t) ∧
      (∀ x ∈ s.returned, ∀ v, x.value = some v → (x.request.key, v) ∈ s.written) ∧
      (∀ x ∈ s.returned, x.value = none → ∃ timeout, x.request.timeout = some timeout ∧
        (timeout = 0 ∨ (Timeval.future x.request.start timeout).passed x.now = true)) ∧
      ∀ t ∈ s.map.mWriteSignal.blocked, ∃ r, s.map.waiting t = some r ∧
        s.map.mMap.lookup r.key = none := by
  intro s
  have h : Keeps s := Run.exec_invariant (I := fun s : Traffic T K α => Keeps s)
    (fun s e hs => keeps_step hs e) keeps_initial es
  exact ⟨h.account, fun hnodup => h.account.nodup_iff.mpr hnodup, h.calls,
    fun x hx => (h.returned x hx).1,
    fun x hx hnone => (over_iff x.request x.now).mp ((h.returned x hx).2 hnone), h.waits⟩

end InterthreadMap
end CommonLibs
end OsmoTrx
