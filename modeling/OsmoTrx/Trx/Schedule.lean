import OsmoTrx.Trx.Downlink

/-!
# The schedule of the downlink

Bursts are written to the queues of the channels in any order while `pushRadioVector` is
called for one slot after the other.  The state keeps, next to the transceiver, what was
written and what every push did, so that a statement about a run is a statement about
the state it ends in.

* `PushSpec.stale_eq`, `PushSpec.left_not_lt`, `PushSpec.served` — what one push does to a
  queue whose times lie in a window around the slot: exactly the bursts before the slot
  are popped as stale, and a burst of the slot is sent if there is one.
* `Scheduled` — the account of a channel: every burst written is queued, sent or popped
  as stale, a burst is sent in its own slot only, and it is stale in later slots only.
* `run_scheduled` — **the account is right at the end of every run**, across the wrap of
  the hyperframe.
* `leftover_and_hidden` — a second burst of a slot outlives the push of its slot, and with
  bursts on both sides of the half hyperframe a burst of the current slot can be missed.
-/

namespace OsmoTrx
namespace Trx

open GSM VectorQueue

variable {n : ℕ} {V : Type} {Q : BurstQueue V}

/-! ## One push in a window -/

section PushWindow

variable {now : Time} {state : TransceiverState V} {queue mid : Q.Carrier} {p : Pushed Q}

theorem PushSpec.mid_subset (h : PushSpec now state queue p mid) :
    Q.elems mid ⊆ Q.elems queue := by
  rw [h.elems]
  exact fun b hb => Multiset.mem_add.mpr (Or.inr hb)

/-- What a push finds in the queue is what it pops as stale, what it sends and what it
leaves. -/
theorem PushSpec.conserved (h : PushSpec now state queue p mid) :
    Q.elems queue = p.stale + (p.current.toList + Q.elems p.queue) := by
  rw [h.elems]
  rcases h.current with ⟨hc, hq, -⟩ | ⟨b, hc, htop, -, hq, -⟩
  · rw [hc, hq]
    simp
  · rw [hc, hq, Q.elems_pop _ _ htop]
    simp

variable (hw : Window now ((Q.elems queue).map RadioVector.mTime)) (ho : Q.Ordered queue)

include hw ho

/-- In a window the first burst of a queue has the least key. -/
theorem PushSpec.mid_first (h : PushSpec now state queue p mid) {b c : RadioVector V}
    (htop : Q.top mid = some c) (hb : b ∈ Q.elems mid) :
    c.mTime.key now.mFN ≤ b.mTime.key now.mFN := by
  have hmem : ∀ x ∈ Q.elems mid, x.mTime ∈ (Q.elems queue).map RadioVector.mTime :=
    fun x hx => Multiset.mem_map_of_mem _ (h.mid_subset hx)
  have hmid := h.mid_ordered ho (coherent_of_window hw)
  have hkey : ∀ x ∈ Q.elems mid, ∀ y ∈ Q.elems mid, pointerCompare x y = true ↔
      (fun b : RadioVector V => b.mTime.key now.mFN) y <
        (fun b : RadioVector V => b.mTime.key now.mFN) x := by
    intro x hx y hy
    exact hw.gt_iff (hmem x hx) (hmem y hy)
  exact Q.le_of_top hmid hkey htop hb

/-- No burst before the slot is left by the stale loop, at the front or behind it. -/
theorem PushSpec.mid_not_lt (h : PushSpec now state queue p mid) :
    ∀ b ∈ Q.elems mid, b.mTime.lt now = false := by
  intro b hb
  have hmem : ∀ x ∈ Q.elems mid, x.mTime ∈ (Q.elems queue).map RadioVector.mTime :=
    fun x hx => Multiset.mem_map_of_mem _ (h.mid_subset hx)
  cases htop : Q.top mid with
  | none =>
    rw [(Q.top_eq_none mid).mp htop] at hb
    simp at hb
  | some c =>
    have hle := h.mid_first hw ho htop hb
    have hc := h.mid_exit c htop
    rw [← Bool.not_eq_true, hw.lt_now_iff (hmem c (Q.mem_of_top htop)), not_lt] at hc
    rw [← Bool.not_eq_true, hw.lt_now_iff (hmem b hb), not_lt]
    exact hc.trans hle

/-- No burst before the slot is left in the queue. -/
theorem PushSpec.left_not_lt (h : PushSpec now state queue p mid) :
    ∀ b ∈ Q.elems p.queue, b.mTime.lt now = false := by
  intro b hb
  refine h.mid_not_lt hw ho b ?_
  rcases h.current with ⟨-, hq, -⟩ | ⟨c, -, htop, -, hq, -⟩
  · rwa [hq] at hb
  · rw [hq] at hb
    exact Q.elems_pop_subset htop hb

/-- **The stale bursts of a push** are the queued bursts before its slot. -/
theorem PushSpec.stale_eq (h : PushSpec now state queue p mid) :
    (p.stale : Multiset (RadioVector V)) =
      (Q.elems queue).filter (fun b => b.mTime.lt now = true) := by
  have hstale : Multiset.filter (fun b : RadioVector V => b.mTime.lt now = true) p.stale =
      p.stale := Multiset.filter_eq_self.mpr h.stale_lt
  have hmid : (Q.elems mid).filter (fun b => b.mTime.lt now = true) = 0 := by
    refine Multiset.filter_eq_nil.mpr fun b hb => ?_
    rw [h.mid_not_lt hw ho b hb]
    exact Bool.false_ne_true
  rw [h.elems, Multiset.filter_add, hstale, hmid, add_zero]

/-- **A push serves its slot**: if a burst for the slot is queued, one is sent. -/
theorem PushSpec.served (h : PushSpec now state queue p mid) {b : RadioVector V}
    (hb : b ∈ Q.elems queue) (hnow : b.mTime = now) : ∃ c, p.current = some c := by
  have hmem : ∀ x ∈ Q.elems queue, x.mTime ∈ (Q.elems queue).map RadioVector.mTime :=
    fun x hx => Multiset.mem_map_of_mem _ hx
  have hbmid : b ∈ Q.elems mid := by
    rw [h.elems] at hb
    rcases Multiset.mem_add.mp hb with hs | hm
    · have hlt := h.stale_lt b hs
      rw [hw.lt_now_iff (hmem b (h.elems ▸ hb)), hnow] at hlt
      exact absurd hlt (lt_irrefl _)
    · exact hm
  rcases h.current with ⟨-, -, hne⟩ | ⟨c, hc, -⟩
  · cases htop : Q.top mid with
    | none =>
      rw [(Q.top_eq_none mid).mp htop] at hbmid
      simp at hbmid
    | some c =>
      -- the first burst is neither before the slot nor after the queued burst of the slot
      have hcmem := hmem c (h.mid_subset (Q.mem_of_top htop))
      have hle := h.mid_first hw ho htop hbmid
      rw [hnow] at hle
      have hge := h.mid_exit c htop
      rw [← Bool.not_eq_true, hw.lt_now_iff hcmem, not_lt] at hge
      exact absurd (hw.eq_now_of_key hcmem (le_antisymm hle hge)) (hne c htop)
  · exact ⟨c, hc⟩

theorem PushSpec.ordered (h : PushSpec now state queue p mid) : Q.Ordered p.queue := by
  have hco := coherent_of_window hw
  have hmid := h.mid_ordered ho hco
  rcases h.current with ⟨-, hq, -⟩ | ⟨c, -, -, -, hq, -⟩
  · rwa [hq]
  · rw [hq]
    exact Q.ordered_pop _ hmid (hco.mono h.mid_subset)

end PushWindow

/-! ## Runs -/

/-- A burst is written to the queue of a channel, or the next slot is pushed. -/
inductive SlotEvent (n : ℕ) (V : Type)
  | write (chan : Fin n) (burst : RadioVector V)
  | push

/-- What a push found in the queues, and what it did. -/
structure PushRecord (n : ℕ) {V : Type} (Q : BurstQueue V) where
  slot : Time
  found : Fin n → Q.Carrier
  out : Fin n → Pushed Q

/-- A transceiver with the slot of the next push, and the history of the run: the bursts
written, those written since the last push, and the pushes. -/
structure Schedule (n : ℕ) {V : Type} (Q : BurstQueue V) where
  trx : Transceiver n Q
  slot : Time
  written : Fin n → Multiset (RadioVector V)
  since : Fin n → Multiset (RadioVector V)
  pushes : List (PushRecord n Q)

namespace Schedule

/-- The bursts in the queue of a channel. -/
def queued (s : Schedule n Q) (chan : Fin n) : Multiset (RadioVector V) :=
  Q.elems (s.trx.mTxPriorityQueues chan)

/-- The bursts sent in the slot of a push. -/
def sent (s : Schedule n Q) (chan : Fin n) : Multiset (RadioVector V) :=
  (s.pushes.flatMap fun p => (p.out chan).current.toList : List (RadioVector V))

/-- The bursts popped as stale. -/
def stale (s : Schedule n Q) (chan : Fin n) : Multiset (RadioVector V) :=
  (s.pushes.flatMap fun p => (p.out chan).stale : List (RadioVector V))

/-- What the last push left in the queue. -/
def left (s : Schedule n Q) (chan : Fin n) : Multiset (RadioVector V) :=
  match s.pushes.getLast? with
  | none => 0
  | some p => Q.elems (p.out chan).queue

/-- Before the first burst is written and the first slot pushed. -/
def start (t : Transceiver n Q) (slot : Time) : Schedule n Q :=
  ⟨t, slot, fun _ => 0, fun _ => 0, []⟩

/-- `VectorQueue::write` on the queue of a channel. -/
def write (s : Schedule n Q) (chan : Fin n) (burst : RadioVector V) : Schedule n Q :=
  { s with
    trx := { s.trx with
      mTxPriorityQueues := Function.update s.trx.mTxPriorityQueues chan
        (Q.push (s.trx.mTxPriorityQueues chan) burst) }
    written := Function.update s.written chan (burst ::ₘ s.written chan)
    since := Function.update s.since chan (burst ::ₘ s.since chan) }

/-- `pushRadioVector` for the next slot. -/
def push (s : Schedule n Q) : Option (Schedule n Q) :=
  (pushRadioVector s.trx s.slot).map fun r =>
    { s with
      trx := r.1
      slot := s.slot.incTN 1
      since := fun _ => 0
      pushes := s.pushes ++ [⟨s.slot, s.trx.mTxPriorityQueues, r.2⟩] }

end Schedule

/-- One event; `none` once an access has left a filler table. -/
def slotStep : Option (Schedule n Q) → SlotEvent n V → Option (Schedule n Q)
  | none, _ => none
  | some s, .write chan burst => some (s.write chan burst)
  | some s, .push => s.push

/-- The times that matter for an event: those in the queues, and that of the burst written. -/
def eventTimes (s : Schedule n Q) (chan : Fin n) : SlotEvent n V → Multiset Time
  | .write c burst =>
    if c = chan then (burst ::ₘ s.queued chan).map RadioVector.mTime
    else (s.queued chan).map RadioVector.mTime
  | .push => (s.queued chan).map RadioVector.mTime

/-- All times are valid and less than half a hyperframe away from the current slot. -/
def NearSlot : Option (Schedule n Q) → SlotEvent n V → Prop
  | none, _ => True
  | some s, e => ∀ chan, Near s.slot (eventTimes s chan e)

/-- … and less than half a hyperframe apart. -/
def InWindow : Option (Schedule n Q) → SlotEvent n V → Prop
  | none, _ => True
  | some s, e => ∀ chan, Window s.slot (eventTimes s chan e)

instance : ∀ (o : Option (Schedule n Q)) (e : SlotEvent n V), Decidable (NearSlot o e)
  | none, _ => .isTrue trivial
  | some s, e => inferInstanceAs (Decidable (∀ chan, Near s.slot (eventTimes s chan e)))

instance : ∀ (o : Option (Schedule n Q)) (e : SlotEvent n V), Decidable (InWindow o e)
  | none, _ => .isTrue trivial
  | some s, e => inferInstanceAs (Decidable (∀ chan, Window s.slot (eventTimes s chan e)))

/-- The account of one channel. -/
structure Scheduled (s : Schedule n Q) (chan : Fin n) : Prop where
  /-- No burst is lost and none is counted twice. -/
  conserved : s.written chan = s.queued chan + s.sent chan + s.stale chan
  /-- A burst still queued was written since the last push or left by it. -/
  queued_eq : s.queued chan = s.since chan + s.left chan
  /-- A burst is sent in its own slot. -/
  sent_slot : ∀ p ∈ s.pushes, ∀ b, (p.out chan).current = some b →
    b.mTime = p.slot ∧ (p.out chan).burst = b.vector
  /-- The stale bursts of a push are the bursts it found before its slot … -/
  stale_eq : ∀ p ∈ s.pushes, ((p.out chan).stale : Multiset (RadioVector V)) =
    (Q.elems (p.found chan)).filter (fun b => b.mTime.lt p.slot = true)
  /-- … so that it leaves none of them behind. -/
  left_not_lt : ∀ p ∈ s.pushes, ∀ b ∈ Q.elems (p.out chan).queue, b.mTime.lt p.slot = false
  /-- If a burst for the slot of a push is queued, a burst for that slot is sent. -/
  served : ∀ p ∈ s.pushes, (∃ b ∈ Q.elems (p.found chan), b.mTime = p.slot) →
    ∃ b, (p.out chan).current = some b

/-- What the pushes rely on. -/
structure Sound (s : Schedule n Q) : Prop where
  slot_valid : s.slot.Valid
  modulus : ∀ i, (s.trx.mStates i).ModulusOK
  ordered : ∀ i, Q.Ordered (s.trx.mTxPriorityQueues i)
  account : ∀ i, Scheduled s i

theorem sound_start {t : Transceiver n Q} (ht : Initial t) {slot : Time} (hs : slot.Valid) :
    Sound (Schedule.start t slot) where
  slot_valid := hs
  modulus i tn := Or.inl (ht.2 i tn)
  ordered i := by
    rw [Schedule.start, ht.1 i]
    exact Q.ordered_empty
  account i :=
    { conserved := by
        simp [Schedule.start, Schedule.queued, Schedule.sent, Schedule.stale, ht.1 i,
          Q.elems_empty]
      queued_eq := by simp [Schedule.start, Schedule.queued, Schedule.left, ht.1 i, Q.elems_empty]
      sent_slot := by intro p hp; simp [Schedule.start] at hp
      stale_eq := by intro p hp; simp [Schedule.start] at hp
      left_not_lt := by intro p hp; simp [Schedule.start] at hp
      served := by intro p hp; simp [Schedule.start] at hp }

theorem sound_write {s : Schedule n Q} (h : Sound s) {chan : Fin n} {burst : RadioVector V}
    (hw : InWindow (some s) (.write chan burst)) : Sound (s.write chan burst) where
  slot_valid := h.slot_valid
  modulus := h.modulus
  ordered i := by
    simp only [Schedule.write]
    by_cases hi : i = chan
    · subst hi
      have hwi := hw i
      simp only [eventTimes, if_true] at hwi
      rw [Function.update_self]
      exact Q.ordered_push _ _ (h.ordered i) (coherent_of_window hwi)
    · rw [Function.update_of_ne hi]
      exact h.ordered i
  account i :=
    { conserved := by
        have := (h.account i).conserved
        by_cases hi : i = chan
        · subst hi
          simp only [Schedule.queued, Schedule.write, Function.update_self, Q.elems_push] at this ⊢
          rw [this, Multiset.cons_add, Multiset.cons_add]
          rfl
        · simp only [Schedule.queued, Schedule.write, Function.update_of_ne hi] at this ⊢
          exact this
      queued_eq := by
        have := (h.account i).queued_eq
        by_cases hi : i = chan
        · subst hi
          simp only [Schedule.queued, Schedule.write, Function.update_self, Q.elems_push] at this ⊢
          rw [this, Multiset.cons_add]
          rfl
        · simp only [Schedule.queued, Schedule.write, Function.update_of_ne hi] at this ⊢
          exact this
      sent_slot := (h.account i).sent_slot
      stale_eq := (h.account i).stale_eq
      left_not_lt := (h.account i).left_not_lt
      served := (h.account i).served }

theorem sound_push {s : Schedule n Q} (h : Sound s) (hw : InWindow (some s) .push) :
    ∃ s', s.push = some s' ∧ Sound s' := by
  have hstore : ∀ i, (s.trx.mStates i).mRetrans = true →
      ∀ b ∈ Q.elems (s.trx.mTxPriorityQueues i), Storable b :=
    fun i _ b hb => Storable.of_valid ((hw i).valid _ (Multiset.mem_map_of_mem _ hb))
  obtain ⟨p, mid, hp, hspec⟩ := pushRadioVector_spec h.slot_valid h.modulus hstore
  refine ⟨_, by rw [Schedule.push, hp]; rfl, ?_⟩
  refine ⟨Time.incTN_valid h.slot_valid (by norm_num) (by norm_num), fun i => ?_, fun i => ?_,
    fun i => ?_⟩
  · obtain ⟨table, htable⟩ := (hspec i).state
    simp only [htable]
    exact h.modulus i
  · exact (hspec i).ordered (hw i) (h.ordered i)
  · have hacc := h.account i
    exact
      { conserved := by
          have hcons := (hspec i).conserved
          have := hacc.conserved
          simp only [Schedule.queued, Schedule.sent, Schedule.stale, List.flatMap_append,
            List.flatMap_singleton, ← Multiset.coe_add] at this ⊢
          rw [this, hcons]
          abel
        queued_eq := by simp [Schedule.queued, Schedule.left]
        sent_slot := by
          refine Run.forall_mem_log hacc.sent_slot ?_
          intro b hb
          rcases (hspec i).current with ⟨hc, -⟩ | ⟨c, hc, -, ht, -, hv⟩
          · simp [hc] at hb
          · obtain rfl : c = b := by simpa [hc] using hb
            exact ⟨ht, hv⟩
        stale_eq :=
          Run.forall_mem_log hacc.stale_eq ((hspec i).stale_eq (hw i) (h.ordered i))
        left_not_lt :=
          Run.forall_mem_log hacc.left_not_lt ((hspec i).left_not_lt (hw i) (h.ordered i))
        served := by
          refine Run.forall_mem_log hacc.served ?_
          rintro ⟨b, hb, ht⟩
          exact (hspec i).served (hw i) (h.ordered i) hb ht }

/-- **The schedule is kept.**  From an initial transceiver, after any interleaving of
writes and pushes of consecutive slots whose times stay in a window around the current
slot, every burst written is queued, was sent in its own slot or was popped as stale in
a later one. -/
theorem run_scheduled {t : Transceiver n Q} (ht : Initial t) {slot : Time} (hs : slot.Valid)
    (es : List (SlotEvent n V))
    (hes : Run.Along slotStep InWindow (some (Schedule.start t slot)) es) :
    ∃ s, Run.exec slotStep (some (Schedule.start t slot)) es = some s ∧
      ∀ chan, Scheduled s chan := by
  have hinv : ∃ s, Run.exec slotStep (some (Schedule.start t slot)) es = some s ∧ Sound s := by
    refine Run.invariant_exec (I := fun o => ∃ s, o = some s ∧ Sound s) ?_
      ⟨_, rfl, sound_start ht hs⟩ hes
    rintro _ e ⟨s, rfl, h⟩ hok
    cases e with
    | write chan burst => exact ⟨_, rfl, sound_write h hok⟩
    | push => exact sound_push h hok
  obtain ⟨s, hexec, hsound⟩ := hinv
  exact ⟨s, hexec, hsound.account⟩

/-- A burst for the first slot of the hyperframe pushed in time, one for the last slot
written too late, and one more for the first slot. -/
def wrapRun : List (SlotEvent 1 Unit) :=
  [.write 0 ⟨⟨0, 0⟩, none⟩, .push, .write 0 ⟨⟨2715647, 7⟩, none⟩, .write 0 ⟨⟨0, 0⟩, none⟩,
    .push, .push]

theorem run_scheduled_wrap :
    Run.Along slotStep InWindow (some (Schedule.start dummyTrx ⟨2715647, 7⟩)) wrapRun ∧
    ∃ s, Run.exec slotStep (some (Schedule.start dummyTrx ⟨2715647, 7⟩)) wrapRun = some s ∧
      ∀ chan, Scheduled s chan :=
  ⟨by decide +kernel, run_scheduled (initial_init _ _ _ _ _ _ _) (by decide) _ (by decide +kernel)⟩

/-- Two bursts for one slot, and its push. -/
def secondBurst : List (SlotEvent 1 Unit) :=
  [.write 0 ⟨⟨0, 0⟩, none⟩, .write 0 ⟨⟨0, 0⟩, none⟩, .push]

/-- Bursts at `-0.4`, `0` and `+0.4` hyperframes from the slot, and its push. -/
def acrossHalf : List (SlotEvent 1 Unit) :=
  [.write 0 ⟨⟨1629388, 0⟩, none⟩, .write 0 ⟨⟨0, 0⟩, none⟩, .write 0 ⟨⟨1086260, 0⟩, none⟩, .push]

/-- **Less than half a hyperframe from the slot is not enough.**  Of two bursts for a slot
one is still queued after its push, before the next slot.  And of the bursts on both
sides of the slot the one at `+0.4` hyperframes is the first of the queue, so that the
stale burst stays behind it and the burst of the slot is not sent. -/
theorem leftover_and_hidden :
    (Run.Along slotStep NearSlot (some (Schedule.start dummyTrx ⟨0, 0⟩)) secondBurst ∧
      ¬ ∀ s ∈ Run.exec slotStep (some (Schedule.start dummyTrx ⟨0, 0⟩)) secondBurst,
          ∀ b ∈ s.queued 0, b.mTime.lt s.slot = false) ∧
    (Run.Along slotStep NearSlot (some (Schedule.start dummyTrx ⟨0, 0⟩)) acrossHalf ∧
      (¬ ∀ s ∈ Run.exec slotStep (some (Schedule.start dummyTrx ⟨0, 0⟩)) acrossHalf,
          ∀ p ∈ s.pushes, ∀ b ∈ s.left 0, b.mTime.lt p.slot = false) ∧
      ¬ ∀ s ∈ Run.exec slotStep (some (Schedule.start dummyTrx ⟨0, 0⟩)) acrossHalf,
          ∀ p ∈ s.pushes,
            (∀ b ∈ (listQueue pointerCompare).elems (p.found 0), b.mTime ≠ p.slot) ∨
            (p.out 0).current ≠ none) := by
  decide +kernel

end Trx
end OsmoTrx
