import OsmoTrx.Trx.Filler
import OsmoTrx.Lib.Heap

/-!
# Ownership of burst vectors

The transmit path once more, with the vectors as objects on a heap: a burst, a cell of a filler
table and an entry of the list handed to `driveTransmitRadio` hold a pointer, and every `new` and
`delete` of the source is there.  A push is cut in two where the list is handed over.

* `updateFillerTableMem`, `drainStaleMem`, `pushChannelMem`, `collect`, `release`, `memStep` — the
  code.
* `updateFillerTableMem_spec`, `drainStaleMem_spec`, `pushChannelMem_spec` — one channel: it does
  what the code without a heap does, and hands its vectors on.
* `Progress` — the invariant of the loop over the channels.
* `collect_spec`, `release_spec`, `clearQueuesMem_spec` — a push and a clearing as a whole.
* `ownership` — **every live vector has exactly one owner and none is deleted twice**, in runs in
  which no frame number on a retransmitting channel is negative.
-/

namespace OsmoTrx
namespace Trx

open GSM VectorQueue

variable {n : ℕ} {Q : BurstQueue ℕ}

/-! ## The code -/

/-- `delete burst`: the destructor deletes the vector. -/
def deleteBurst (h : Heap) (burst : RadioVector ℕ) : Option Heap := h.delete burst.vector

/-- `updateFillerTable`: the vector of the cell is deleted, and that of the burst takes its
place; the burst is left without one. -/
def updateFillerTableMem (s : TransceiverState ℕ) (h : Heap) (burst : RadioVector ℕ) :
    Option (TransceiverState ℕ × Heap × RadioVector ℕ) := do
  let tn ← slotIndex burst.mTime.TN
  let (row, col) ← fillerCell (burst.mTime.FN.tmod (s.fillerModulus tn)) burst.mTime.TN
  let h ← h.delete (s.fillerTable row col)
  some
    ({ s with
      fillerTable := Function.update s.fillerTable row
        (Function.update (s.fillerTable row) col burst.vector) },
      h, { burst with vector := none })

/-- The loop over `getStaleBurst`. -/
def drainStaleMem (nowTime : Time) : ℕ → Drained Q → Heap → Option (Drained Q × Heap)
  | 0, d, h => some (d, h)
  | fuel + 1, d, h =>
    match getStaleBurst Q d.queue nowTime with
    | (none, _) => some (d, h)
    | (some burst, queue) =>
      if d.state.mRetrans then
        match updateFillerTableMem d.state h burst with
        | none => none
        | some (state, h, rest) =>
          (deleteBurst h rest).bind (drainStaleMem nowTime fuel ⟨state, queue, d.stale ++ [burst]⟩)
      else
        (deleteBurst h burst).bind
          (drainStaleMem nowTime fuel ⟨d.state, queue, d.stale ++ [burst]⟩)

/-- The body of the channel loop of `pushRadioVector`, with the flag `filler[i]`: the vector
sent stays in the table. -/
def pushChannelMem (state : TransceiverState ℕ) (queue : Q.Carrier) (nowTime : Time) (h : Heap) :
    Option (Pushed Q × Bool × Heap) := do
  let (d, h) ← drainStaleMem nowTime (Q.size queue) ⟨state, queue, []⟩ h
  let tn ← slotIndex nowTime.TN
  let (row, col) ← fillerCell (nowTime.FN.tmod (d.state.fillerModulus tn)) nowTime.TN
  let zero := decide (d.state.chanType tn = ChannelCombination.NONE.code)
  match getCurrentBurst Q d.queue nowTime with
  | (none, queue) =>
    some (⟨d.state, queue, d.state.fillerTable row col, zero, d.stale, none⟩, true, h)
  | (some burst, queue) =>
    if d.state.mRetrans then
      let (state, h, rest) ← updateFillerTableMem d.state h burst
      let h ← deleteBurst h rest
      some (⟨state, queue, burst.vector, zero, d.stale, some burst⟩, true, h)
    else
      let h ← deleteBurst h { burst with vector := none }
      some (⟨d.state, queue, burst.vector, zero, d.stale, some burst⟩, false, h)

/-- A push in progress: the transceiver, the lists `bursts`, `zeros` and `filler`, and the
heap. -/
structure InProgress (n : ℕ) (Q : BurstQueue ℕ) where
  trx : Transceiver n Q
  bursts : Fin n → Option ℕ
  zeros : Fin n → Bool
  filler : Fin n → Bool
  heap : Heap

/-- The push once channel `i` has had its turn. -/
def InProgress.turned (s : InProgress n Q) (i : Fin n) (p : Pushed Q) (filler : Bool)
    (heap : Heap) : InProgress n Q where
  trx := { s.trx with
    mStates := Function.update s.trx.mStates i p.state
    mTxPriorityQueues := Function.update s.trx.mTxPriorityQueues i p.queue }
  bursts := Function.update s.bursts i p.burst
  zeros := Function.update s.zeros i p.zero
  filler := Function.update s.filler i filler
  heap := heap

/-- A turn of the channel loop. -/
def collectTurn (nowTime : Time) (s : InProgress n Q) (i : Fin n) : Option (InProgress n Q) :=
  (pushChannelMem (s.trx.mStates i) (s.trx.mTxPriorityQueues i) nowTime s.heap).map
    fun (p, filler, heap) => s.turned i p filler heap

/-- A transceiver and the heap of its vectors. -/
structure Allocated (n : ℕ) (Q : BurstQueue ℕ) where
  trx : Transceiver n Q
  heap : Heap

/-- `pushRadioVector` up to the call of `driveTransmitRadio`. -/
def collect (s : Allocated n Q) (nowTime : Time) : Option (InProgress n Q) :=
  (List.finRange n).foldlM (collectTurn nowTime)
    ⟨s.trx, fun _ => none, fun _ => false, fun _ => true, s.heap⟩

/-- `pushRadioVector` after it: what is not in a table is deleted. -/
def release (s : InProgress n Q) : Option (Allocated n Q) :=
  ((List.finRange n).foldlM
    (fun h i => if !s.filler i then Heap.delete h (s.bursts i) else some h) s.heap).map
    fun h => ⟨s.trx, h⟩

/-- A modulator whose bursts are all the object `a`. -/
def modulated (a : ℕ) : Modem ℕ := ⟨fun _ _ => a, fun _ _ _ => a, fun v _ => v⟩

/-- `addRadioVector`: the burst is a new vector.  The modulators have one for the lengths that
`driveTxPriorityQueue` accepts. -/
def addRadioVectorMem (s : Allocated n Q) (chan : Fin n) (bits : List UInt8) (RSSI : ℤ)
    (wTime : Time) : Allocated n Q :=
  if wTime.TN > 7 then s
  else ⟨addRadioVector (modulated s.heap.new.1) s.trx chan bits RSSI wTime, s.heap.new.2⟩

/-- `clear` of a queue: the heap afterwards. -/
def clearQueue : ℕ → Q.Carrier → Heap → Option Heap
  | 0, _, h => some h
  | fuel + 1, q, h =>
    match Q.top q with
    | none => some h
    | some burst => (deleteBurst h burst).bind (clearQueue fuel (Q.pop q))

/-- `clear` of all queues. -/
def clearQueuesMem (s : Allocated n Q) : Option (Allocated n Q) :=
  ((List.finRange n).foldlM (fun h i =>
    let q := s.trx.mTxPriorityQueues i
    clearQueue (Q.size q) q h) s.heap).map fun h => ⟨s.trx.clearQueues, h⟩

/-- One event; `none` once an access has left a table or a vector has been deleted that is not
live. -/
def memStep : Option (Allocated n Q) → Traffic n → Option (Allocated n Q)
  | none, _ => none
  | some s, .add chan bits RSSI wTime => some (addRadioVectorMem s chan bits RSSI wTime)
  | some s, .setSlot chan ts code =>
    some { s with trx := s.trx.updateState chan ((s.trx.mStates chan).setSlot ts code) }
  | some s, .clear => clearQueuesMem s
  | some s, .push now => (collect s now).bind release

/-! ## Owners -/

/-- The vectors of the bursts in a queue. -/
def queued (q : Q.Carrier) : Multiset (Option ℕ) := (Q.elems q).map RadioVector.vector

/-- The vectors in a filler table. -/
def tabled (table : Fin 102 → Fin 8 → Option ℕ) : Multiset (Option ℕ) :=
  tableValues table

/-- An entry of the list of a push, unless it stays in the table. -/
def listed (burst : Option ℕ) (filler : Bool) : Multiset (Option ℕ) :=
  if filler then 0 else {burst}

theorem queued_pop {q : Q.Carrier} {b : RadioVector ℕ} (h : Q.top q = some b) :
    queued q = b.vector ::ₘ queued (Q.pop q) := by
  rw [queued, Q.elems_pop q b h, Multiset.map_cons]
  rfl

theorem mem_tabled (table : Fin 102 → Fin 8 → Option ℕ) (row : Fin 102) (col : Fin 8) :
    table row col ∈ tabled table :=
  mem_tableValues table row col

/-- A vector that is stored changes places with the one that the cell had. -/
theorem tabled_store (table : Fin 102 → Fin 8 → Option ℕ) (row : Fin 102) (col : Fin 8)
    (v : Option ℕ) :
    table row col ::ₘ tabled (Function.update table row (Function.update (table row) col v)) =
      v ::ₘ tabled table :=
  tableValues_store table row col v

/-! ## One channel -/

section Channel

variable {s : TransceiverState ℕ} {h : Heap} {F : Multiset (Option ℕ)}

/-- Storing a burst hands its vector to the table, which gives up the one that it had. -/
theorem updateFillerTableMem_spec (hmod : s.ModulusOK) {b : RadioVector ℕ} (hb : Storable b)
    (ho : h.Owns (b.vector ::ₘ (tabled s.fillerTable + F))) :
    ∃ s' h', updateFillerTableMem s h b = some (s', h', { b with vector := none }) ∧
      updateFillerTable s b = some s' ∧ b.vector ∈ tabled s'.fillerTable ∧
      h'.Owns (tabled s'.fillerTable + F) := by
  obtain ⟨table, hup⟩ := updateFillerTable_of_storable hmod hb
  simp only [updateFillerTable, Option.bind_eq_bind] at hup
  obtain ⟨tn, htn, hup⟩ := Option.bind_eq_some_iff.mp hup
  obtain ⟨⟨row, col⟩, hcell, -⟩ := Option.bind_eq_some_iff.mp hup
  have hcells : h.Owns (s.fillerTable row col ::ₘ (tabled (Function.update s.fillerTable row
      (Function.update (s.fillerTable row) col b.vector)) + F)) := by
    rw [← Multiset.cons_add, tabled_store, Multiset.cons_add]
    exact ho
  obtain ⟨h', hdelete, ho'⟩ := hcells.delete
  refine ⟨{ s with
    fillerTable := Function.update s.fillerTable row
      (Function.update (s.fillerTable row) col b.vector) }, h', ?_, ?_, ?_, ho'⟩
  · simp only [updateFillerTableMem, Option.bind_eq_bind, htn, hcell, Option.bind_some, hdelete]
  · simp only [updateFillerTable, Option.bind_eq_bind, htn, hcell, Option.bind_some]
  · have hmem := mem_tabled (Function.update s.fillerTable row
      (Function.update (s.fillerTable row) col b.vector)) row col
    rwa [Function.update_self, Function.update_self] at hmem

variable {nowTime : Time}

variable (nowTime) in
/-- The stale loop: every vector popped goes to the table or is deleted. -/
theorem drainStaleMem_spec (fuel : ℕ) : ∀ (d : Drained Q) (h : Heap), d.state.ModulusOK →
    (d.state.mRetrans = true → ∀ b ∈ Q.elems d.queue, Storable b) →
    h.Owns (tabled d.state.fillerTable + (queued d.queue + F)) →
    ∃ d' h', drainStaleMem nowTime fuel d h = some (d', h') ∧
      drainStale nowTime fuel d = some d' ∧
      h'.Owns (tabled d'.state.fillerTable + (queued d'.queue + F)) := by
  induction fuel with
  | zero => exact fun d h _ _ ho => ⟨d, h, rfl, rfl, ho⟩
  | succ fuel ih =>
    intro d h hmod hstore ho
    rcases getStaleBurst_cases d.queue nowTime with ⟨b, htop, -, hget⟩ | ⟨-, hget⟩
    · have hsub := Q.elems_pop_subset htop
      rw [queued_pop htop, Multiset.cons_add, Multiset.add_cons] at ho
      simp only [drainStaleMem, drainStale, hget]
      by_cases hre : d.state.mRetrans = true
      · obtain ⟨s', h₁, hmem, hup, -, ho₁⟩ :=
          updateFillerTableMem_spec hmod (hstore hre b (Q.mem_of_top htop)) ho
        obtain ⟨table, rfl⟩ := updateFillerTable_eq_some hup
        simp only [if_pos hre, hmem, hup]
        exact ih ⟨{ d.state with fillerTable := table }, Q.pop d.queue, d.stale ++ [b]⟩ h₁ hmod
          (fun _ c hc => hstore hre c (hsub hc)) ho₁
      · obtain ⟨h₁, hdelete, ho₁⟩ := ho.delete
        simp only [if_neg hre, deleteBurst, hdelete, Option.bind_some]
        exact ih ⟨d.state, Q.pop d.queue, d.stale ++ [b]⟩ h₁ hmod (fun h => absurd h hre) ho₁
    · exact ⟨d, h, by rw [drainStaleMem, hget], by rw [drainStale, hget], ho⟩

/-- A push on one channel: what is sent is in the table or in the list. -/
theorem pushChannelMem_spec {queue : Q.Carrier} (hnow : nowTime.Valid) (hmod : s.ModulusOK)
    (hstore : s.mRetrans = true → ∀ b ∈ Q.elems queue, Storable b)
    (ho : h.Owns (tabled s.fillerTable + (queued queue + F))) :
    ∃ p filler h', pushChannelMem s queue nowTime h = some (p, filler, h') ∧
      pushChannel s queue nowTime = some p ∧
      p.burst ∈ tabled p.state.fillerTable + listed p.burst filler ∧
      h'.Owns (tabled p.state.fillerTable + (queued p.queue + listed p.burst filler + F)) := by
  obtain ⟨p, mid, hpush, hspec⟩ := pushChannel_spec hnow hmod hstore
  obtain ⟨d, h₁, hmem, hdrain, ho₁⟩ :=
    drainStaleMem_spec nowTime (Q.size queue) ⟨s, queue, []⟩ h hmod hstore ho
  have hfull := hpush
  simp only [pushChannel, Option.bind_eq_bind, hdrain, Option.bind_some] at hpush
  obtain ⟨tn, htn, hpush⟩ := Option.bind_eq_some_iff.mp hpush
  obtain ⟨⟨row, col⟩, hcell, hpush⟩ := Option.bind_eq_some_iff.mp hpush
  have hmod' : d.state.ModulusOK := by
    obtain ⟨table, htable⟩ := (drainStale_retains _ hdrain).choose_spec.2.rest
    rw [htable]
    exact hmod
  simp only [pushChannelMem, Option.bind_eq_bind, hmem, htn, hcell, Option.bind_some]
  rcases getCurrentBurst_cases d.queue nowTime with ⟨b, htop, heq, hget⟩ | ⟨-, hget⟩
  · -- the current burst goes to the table or to the list
    rw [queued_pop htop, Multiset.cons_add, Multiset.add_cons] at ho₁
    simp only [hget] at hpush ⊢
    by_cases hre : d.state.mRetrans = true
    · obtain ⟨s', h₂, hmem', hup, hvector, ho₂⟩ :=
        updateFillerTableMem_spec hmod' (Storable.of_valid (heq ▸ hnow)) ho₁
      simp only [if_pos hre, hup, Option.bind_some, Option.some.injEq] at hpush
      subst hpush
      refine ⟨_, true, h₂, by simp only [if_pos hre, hmem', Option.bind_some]; rfl, hfull, ?_, ?_⟩
      · simpa [listed] using hvector
      · simpa [listed] using ho₂
    · simp only [if_neg hre, Option.some.injEq] at hpush
      subst hpush
      refine ⟨_, false, h₁, by simp only [if_neg hre]; rfl, hfull, ?_, ?_⟩
      · simp [listed]
      · have hlist : tabled d.state.fillerTable +
            (queued (Q.pop d.queue) + listed b.vector false + F) =
            b.vector ::ₘ (tabled d.state.fillerTable + (queued (Q.pop d.queue) + F)) := by
          simp [listed, add_assoc]
        rw [hlist]
        exact ho₁
  · simp only [hget, Option.some.injEq] at hpush ⊢
    subst hpush
    refine ⟨_, true, h₁, rfl, hfull, ?_, ?_⟩
    · exact Multiset.mem_add.mpr (.inl (mem_tabled _ _ _))
    · simpa [listed] using ho₁

end Channel

/-! ## All channels -/

/-- What is owned on channel `i`: the vectors of its queue and its table. -/
def Transceiver.owners (t : Transceiver n Q) (i : Fin n) : Multiset (Option ℕ) :=
  tabled (t.mStates i).fillerTable + queued (t.mTxPriorityQueues i)

/-- During a push the list owns vectors as well. -/
def InProgress.owners (s : InProgress n Q) (i : Fin n) : Multiset (Option ℕ) :=
  s.trx.owners i + listed (s.bursts i) (s.filler i)

@[simp] theorem InProgress.turned_owners_self (s : InProgress n Q) (i : Fin n) (p : Pushed Q)
    (filler : Bool) (heap : Heap) : (s.turned i p filler heap).owners i =
      tabled p.state.fillerTable + queued p.queue + listed p.burst filler := by
  simp [turned, owners, Transceiver.owners]

theorem InProgress.turned_owners_of_ne {s : InProgress n Q} {i j : Fin n} {p : Pushed Q}
    {filler : Bool} {heap : Heap} (h : j ≠ i) :
    (s.turned i p filler heap).owners j = s.owners j := by
  simp [turned, owners, Transceiver.owners, h]

/-- Every live vector is owned, once, by a queued burst or a cell of a filler table … -/
def Allocated.Owned (s : Allocated n Q) : Prop := s.heap.Owns (∑ i, s.trx.owners i)

/-- … or by the list of the push in progress. -/
def InProgress.Owned (s : InProgress n Q) : Prop := s.heap.Owns (∑ i, s.owners i)

/-- The loop over the channels once those in `done` have had their turn; `p` is what the push does
on each channel. -/
structure Progress (t : Transceiver n Q) (p : Fin n → Pushed Q) (done : List (Fin n))
    (s : InProgress n Q) : Prop where
  trx : s.trx = { t with
    mStates := fun i => if i ∈ done then (p i).state else t.mStates i
    mTxPriorityQueues := fun i => if i ∈ done then (p i).queue else t.mTxPriorityQueues i }
  pending : ∀ i ∉ done, s.filler i = true
  handed : ∀ i ∈ done, s.bursts i ∈ s.owners i
  owned : s.Owned

section Loop

/-- Another index gets its value. -/
theorem update_ite_mem {α : Fin n → Type} (done : List (Fin n)) (f g : ∀ i, α i) (i : Fin n) :
    Function.update (fun j => if j ∈ done then f j else g j) i (f i) =
      fun j => if j ∈ done ++ [i] then f j else g j := by
  funext j
  by_cases hj : j = i
  · subst hj
    simp
  · simp [hj]

variable {t : Transceiver n Q} {p : Fin n → Pushed Q} {done : List (Fin n)} {s : InProgress n Q}
  {nowTime : Time}

/-- A turn of the loop. -/
theorem Progress.turn (hs : Progress t p done s) (ht : InTable t) (hnow : nowTime.Valid)
    (hp : ∀ i, pushChannel (t.mStates i) (t.mTxPriorityQueues i) nowTime = some (p i)) {i : Fin n}
    (hi : i ∉ done) :
    ∃ s', collectTurn nowTime s i = some s' ∧ Progress t p (done ++ [i]) s' := by
  have hstate : s.trx.mStates i = t.mStates i := by simp [hs.trx, hi]
  have hqueue : s.trx.mTxPriorityQueues i = t.mTxPriorityQueues i := by simp [hs.trx, hi]
  have ho : s.heap.Owns (tabled (t.mStates i).fillerTable + (queued (t.mTxPriorityQueues i) +
      ∑ j ∈ Finset.univ.erase i, s.owners j)) := by
    have hown := hs.owned
    rw [InProgress.Owned, sum_eq_part_add _ i, InProgress.owners, Transceiver.owners, hstate,
      hqueue, hs.pending i hi] at hown
    simpa [listed, add_assoc] using hown
  obtain ⟨p', filler, heap, hmem, hpush, hburst, ho'⟩ :=
    pushChannelMem_spec hnow (ht.modulus i) (ht.storable i) ho
  rw [hp i, Option.some.injEq] at hpush
  subst hpush
  refine ⟨s.turned i (p i) filler heap, by rw [collectTurn, hstate, hqueue, hmem]; rfl, ?_⟩
  constructor
  · simp only [InProgress.turned, hs.trx, update_ite_mem]
  · intro j hj
    simp only [List.mem_append, List.mem_singleton, not_or] at hj
    simpa only [InProgress.turned, Function.update_of_ne hj.2] using hs.pending j hj.1
  · intro j hj
    by_cases hji : j = i
    · subst hji
      rw [InProgress.turned_owners_self]
      simp only [InProgress.turned, Function.update_self]
      refine Multiset.mem_of_le ?_ hburst
      rw [add_right_comm]
      exact Multiset.le_add_right _ _
    · have hdone : j ∈ done := by simpa [hji] using hj
      rw [InProgress.turned_owners_of_ne hji]
      simpa only [InProgress.turned, Function.update_of_ne hji] using hs.handed j hdone
  · rw [InProgress.Owned, sum_eq_part_add_of_ne (fun j hj => InProgress.turned_owners_of_ne hj),
      InProgress.turned_owners_self]
    change heap.Owns _
    simpa only [add_assoc] using ho'

/-- The loop. -/
theorem Progress.loop (ht : InTable t) (hnow : nowTime.Valid)
    (hp : ∀ i, pushChannel (t.mStates i) (t.mTxPriorityQueues i) nowTime = some (p i))
    (l : List (Fin n)) : ∀ {done : List (Fin n)} {s : InProgress n Q}, Progress t p done s →
      (done ++ l).Nodup →
      ∃ s', l.foldlM (collectTurn nowTime) s = some s' ∧ Progress t p (done ++ l) s' := by
  induction l with
  | nil => exact fun {done s} hs _ => ⟨s, rfl, by rwa [List.append_nil]⟩
  | cons i l ih =>
    intro done s hs hnodup
    have hi : i ∉ done := fun hmem =>
      List.disjoint_of_nodup_append hnodup hmem (List.mem_cons_self ..)
    obtain ⟨s₁, hturn, hs₁⟩ := hs.turn ht hnow hp hi
    rw [List.append_cons] at hnodup ⊢
    obtain ⟨s', hrest, hs'⟩ := ih hs₁ hnodup
    exact ⟨s', by rw [List.foldlM_cons, hturn]; exact hrest, hs'⟩

variable {a : Allocated n Q}

/-- **A push up to the hand-over** is that of the code without a heap, and what it hands over is
owned. -/
theorem collect_spec (ha : a.Owned) (ht : InTable a.trx) (hnow : nowTime.Valid) :
    ∃ s p, collect a nowTime = some s ∧ pushRadioVector a.trx nowTime = some (s.trx, p) ∧
      s.Owned ∧ ∀ i, s.bursts i ∈ s.owners i := by
  obtain ⟨p, -, hpush, -⟩ := pushRadioVector_spec hnow ht.modulus ht.storable
  have hstart : Progress a.trx p [] ⟨a.trx, fun _ => none, fun _ => false, fun _ => true, a.heap⟩ :=
    { trx := by simp
      pending := fun _ _ => rfl
      handed := by simp
      owned := by simpa [InProgress.Owned, InProgress.owners, listed, Allocated.Owned] using ha }
  obtain ⟨s, hloop, hs⟩ := Progress.loop ht hnow (pushRadioVector_eq_some hpush).1
    (List.finRange n) hstart (List.nodup_finRange n)
  have htrx := hs.trx
  simp only [List.nil_append, List.mem_finRange, if_true] at htrx
  exact ⟨s, p, hloop, by rw [hpush, htrx], hs.owned, fun i => hs.handed i (by simp)⟩

/-- **The rest of a push** deletes what the list owns. -/
theorem release_spec (hs : s.Owned) : ∃ a, release s = some a ∧ a.trx = s.trx ∧ a.Owned := by
  simp only [InProgress.Owned, InProgress.owners, add_comm (s.trx.owners _)] at hs
  rw [Finset.sum_add_distrib, Fin.sum_univ_def] at hs
  have hstep (i : Fin n) (h : Heap) (owners : Multiset (Option ℕ))
      (ho : h.Owns (listed (s.bursts i) (s.filler i) + owners)) :
      ∃ h', (if !s.filler i then h.delete (s.bursts i) else some h) = some h' ∧
        h'.Owns owners := by
    cases hfiller : s.filler i with
    | true => exact ⟨h, by simp, by simpa [listed, hfiller] using ho⟩
    | false => exact Heap.Owns.delete (by simpa [listed, hfiller] using ho)
  obtain ⟨h', hrelease, ho⟩ := hs.foldlM hstep
  exact ⟨⟨s.trx, h'⟩, by rw [release, hrelease]; rfl, rfl, ho⟩

/-- Clearing a queue deletes its vectors. -/
theorem clearQueue_spec {F : Multiset (Option ℕ)} (fuel : ℕ) : ∀ (q : Q.Carrier) (h : Heap),
    Q.size q ≤ fuel → h.Owns (queued q + F) → ∃ h', clearQueue fuel q h = some h' ∧ h'.Owns F := by
  induction fuel with
  | zero =>
    intro q h hsize ho
    have hempty : Q.elems q = 0 := (Q.top_eq_none q).mp (Q.top_eq_none_of_size (by omega))
    exact ⟨h, rfl, by simpa [queued, hempty] using ho⟩
  | succ fuel ih =>
    intro q h hsize ho
    rw [clearQueue]
    cases htop : Q.top q with
    | none => exact ⟨h, rfl, by simpa [queued, (Q.top_eq_none q).mp htop] using ho⟩
    | some b =>
      rw [queued_pop htop, Multiset.cons_add] at ho
      obtain ⟨h₁, hdelete, ho₁⟩ := ho.delete
      have hsize' := Q.size_pop htop
      obtain ⟨h', hclear, ho'⟩ := ih (Q.pop q) h₁ (by omega) ho₁
      exact ⟨h', by simpa only [deleteBurst, hdelete, Option.bind_some] using hclear, ho'⟩

theorem clearQueuesMem_spec (ha : a.Owned) :
    ∃ a', clearQueuesMem a = some a' ∧ a'.trx = a.trx.clearQueues ∧ a'.Owned := by
  have hsplit : a.heap.Owns (((List.finRange n).map fun i =>
      queued (a.trx.mTxPriorityQueues i)).sum + ∑ i, tabled (a.trx.mStates i).fillerTable) := by
    rw [← Fin.sum_univ_def, ← Finset.sum_add_distrib, Finset.sum_congr rfl fun i _ => add_comm _ _]
    exact ha
  obtain ⟨h', hclear, ho⟩ := hsplit.foldlM fun i h owners ho =>
    clearQueue_spec (Q.size (a.trx.mTxPriorityQueues i)) _ h le_rfl ho
  refine ⟨⟨a.trx.clearQueues, h'⟩, by rw [clearQueuesMem, hclear]; rfl, rfl, ?_⟩
  simpa [Allocated.Owned, Transceiver.owners, Transceiver.clearQueues, queued, Q.elems_empty]
    using ho

/-- A burst that is queued adds one owner. -/
theorem sum_owners_add (t : Transceiver n Q) (v : ℕ) (chan : Fin n) (bits : List UInt8) (RSSI : ℤ)
    {wTime : Time} (htn : ¬ wTime.TN > 7) :
    ∑ i, (addRadioVector (modulated v) t chan bits RSSI wTime).owners i =
      some v ::ₘ ∑ i, t.owners i := by
  have hadd : addRadioVector (modulated v) t chan bits RSSI wTime = { t with
      mTxPriorityQueues := Function.update t.mTxPriorityQueues chan
        (Q.push (t.mTxPriorityQueues chan) ⟨wTime, some v⟩) } := by
    rw [addRadioVector, if_neg htn]
    split_ifs <;> rfl
  rw [hadd, sum_eq_part_add_of_ne (k := chan) (f := t.owners)
    (fun i hi => by simp [Transceiver.owners, hi]), sum_eq_part_add t.owners chan,
    ← Multiset.cons_add]
  simp [Transceiver.owners, queued, Q.elems_push]

theorem addRadioVectorMem_owned (ha : a.Owned) (chan : Fin n) (bits : List UInt8) (RSSI : ℤ)
    (wTime : Time) : (addRadioVectorMem a chan bits RSSI wTime).Owned := by
  unfold addRadioVectorMem
  split_ifs with htn
  · exact ha
  · rw [Allocated.Owned, sum_owners_add a.trx _ chan bits RSSI htn]
    exact Heap.Owns.new ha

theorem setSlot_owned (ha : a.Owned) (chan : Fin n) (ts : Fin 8) (code : ℤ) :
    Allocated.Owned { a with
      trx := a.trx.updateState chan ((a.trx.mStates chan).setSlot ts code) } := by
  have howners (i : Fin n) :
      (a.trx.updateState chan ((a.trx.mStates chan).setSlot ts code)).owners i =
        a.trx.owners i := by
    by_cases hi : i = chan
    · subst hi
      simp [Transceiver.owners, Transceiver.updateState]
    · simp [Transceiver.owners, Transceiver.updateState, hi]
  simpa [Allocated.Owned, howners] using ha

end Loop

/-! ## Runs -/

/-- Every cell of every table holds a live vector. -/
def Allocated.Filled (s : Allocated n Q) : Prop :=
  ∀ i row col, ∃ a, (s.trx.mStates i).fillerTable row col = some a ∧ a ∈ s.heap.live

theorem Allocated.Owned.filled {s : Allocated n Q} (hs : s.Owned) : s.Filled := by
  intro i row col
  refine hs.live (Multiset.mem_sum.mpr ⟨i, Finset.mem_univ i, ?_⟩)
  exact Multiset.mem_add.mpr (.inl (mem_tabled _ row col))

/-- The step succeeds, so that nothing is deleted twice, and every live vector has exactly one
owner afterwards.  A push also hands over live vectors only, while every live vector has exactly
one owner, and leaves the tables filled. -/
def HeapSound : Option (Allocated n Q) → Traffic n → Prop
  | none, _ => False
  | some s, .push now => ∃ mid s', collect s now = some mid ∧ mid.Owned ∧
      (∀ i, ∃ a, mid.bursts i = some a ∧ a ∈ mid.heap.live) ∧
      release mid = some s' ∧ s'.Owned ∧ s'.Filled
  | some s, e => ∃ s', memStep (some s) e = some s' ∧ s'.Owned

/-- The condition of `TrafficOK` on a step. -/
def MemOK : Option (Allocated n Q) → Traffic n → Prop
  | some s, e => TrafficOK s.trx e
  | none, _ => True

instance : ∀ (o : Option (Allocated n Q)) (e : Traffic n), Decidable (MemOK o e)
  | some s, e => inferInstanceAs (Decidable (TrafficOK s.trx e))
  | none, _ => .isTrue trivial

/-- A push under the invariant. -/
theorem push_heapSound {s : Allocated n Q} (hs : s.Owned) (hin : InTable s.trx) {now : Time}
    (hnow : now.Valid) :
    HeapSound (some s) (.push now) ∧
      ∃ s', memStep (some s) (.push now) = some s' ∧ InTable s'.trx ∧ s'.Owned := by
  obtain ⟨mid, p, hcollect, hpush, hmid, hbursts⟩ := collect_spec hs hin hnow
  obtain ⟨s', hrelease, htrx, hs'⟩ := release_spec hmid
  refine ⟨⟨mid, s', hcollect, hmid, fun i => ?_, hrelease, hs', hs'.filled⟩, s', ?_, ?_, hs'⟩
  · exact hmid.live (Multiset.mem_sum.mpr ⟨i, Finset.mem_univ i, hbursts i⟩)
  · rw [memStep, hcollect, Option.bind_some, hrelease]
  · obtain ⟨t', ht', hin'⟩ := inTable_push hin hnow
    rw [hpush, Option.map_some, Option.some.injEq] at ht'
    subst ht'
    rw [htrx]
    exact hin'

/-- The step lemma. -/
theorem owned_step {s : Allocated n Q} (hs : s.Owned) (hin : InTable s.trx) {e : Traffic n}
    (hok : TrafficOK s.trx e) :
    HeapSound (some s) e ∧ ∃ s', memStep (some s) e = some s' ∧ InTable s'.trx ∧ s'.Owned := by
  cases e with
  | add chan bits RSSI wTime =>
    have hadd := addRadioVectorMem_owned hs chan bits RSSI wTime
    refine ⟨⟨_, rfl, hadd⟩, _, rfl, ?_, hadd⟩
    unfold addRadioVectorMem
    split_ifs
    · exact hin
    · exact inTable_add hin hok
  | setSlot chan ts code =>
    have hset := setSlot_owned hs chan ts code
    exact ⟨⟨_, rfl, hset⟩, _, rfl, inTable_setSlot hin chan ts code, hset⟩
  | clear =>
    obtain ⟨s', hclear, htrx, hs'⟩ := clearQueuesMem_spec hs
    exact ⟨⟨s', hclear, hs'⟩, s', hclear, by rw [htrx]; exact inTable_clear hin, hs'⟩
  | push now => exact push_heapSound hs hin hok

/-- The vector that `init` makes for a cell. -/
def cellVector (i : Fin n) (row : Fin 102) (col : Fin 8) : ℕ := col + 8 * row + 102 * 8 * i

/-- A transceiver after `init`: every cell of every table has a vector of its own. -/
def allocated (filler : FillerType) (tx_sps : ℕ) (latency startTime : Time) (edge ext_rach : Bool) :
    Allocated n Q where
  trx :=
    let t := Transceiver.init n Q (fun _ _ _ => 0) filler tx_sps latency startTime edge ext_rach
    { t with mStates := fun i => { t.mStates i with
      fillerTable := fun row col =>
        ((t.mStates i).fillerTable row col).map fun _ => cellVector i row col } }
  heap :=
    { next := n * (102 * 8)
      live := Finset.range (n * (102 * 8))
      live_lt := fun _ ha => Finset.mem_range.mp ha }

theorem allocated_owned (filler : FillerType) {tx_sps : ℕ} (hsps : tx_sps = 1 ∨ tx_sps = 4)
    (latency startTime : Time) (edge ext_rach : Bool) :
    (allocated filler tx_sps latency startTime edge ext_rach : Allocated n Q).Owned := by
  have htable (s : TransceiverState ℕ) (f : FillerType) :
      (s.init (fun _ _ _ => 0) f tx_sps).fillerTable = fun _ _ => some 0 := by
    unfold TransceiverState.init
    rw [if_neg (by omega)]
  have howners (i : Fin n) :
      (allocated filler tx_sps latency startTime edge ext_rach : Allocated n Q).trx.owners i =
        values fun k : Fin (102 * 8) => some ((k : ℕ) + 102 * 8 * i) := by
    have hcells : ((allocated filler tx_sps latency startTime edge ext_rach :
        Allocated n Q).trx.mStates i).fillerTable = fun row col => some (cellVector i row col) := by
      simp only [allocated, Transceiver.init]
      split_ifs <;> simp [htable]
    have hqueue : queued ((allocated filler tx_sps latency startTime edge ext_rach :
        Allocated n Q).trx.mTxPriorityQueues i) = 0 := by
      simp [allocated, Transceiver.init, queued, Q.elems_empty]
    rw [Transceiver.owners, hcells, hqueue, add_zero]
    exact tableValues_fin (fun k => some (k + 102 * 8 * i)) 102 8
  rw [Allocated.Owned]
  simp only [howners]
  rw [sum_values_fin, values_fin]
  rfl

/-- **Every live vector has exactly one owner.**  In every run from an initialised transceiver in
which no frame number queued on a retransmitting channel is negative and the slots pushed are
valid, every step is sound. -/
theorem ownership (filler : FillerType) {tx_sps : ℕ} (hsps : tx_sps = 1 ∨ tx_sps = 4)
    (latency startTime : Time) (edge ext_rach : Bool) (events : List (Traffic n)) :
    let s : Allocated n Q := allocated filler tx_sps latency startTime edge ext_rach
    Run.Along memStep MemOK (some s) events → Run.Along memStep HeapSound (some s) events := by
  intro s hok
  refine Run.along_of_invariant (I := fun o => ∃ s, o = some s ∧ InTable s.trx ∧ s.Owned) ?_ ?_
    ⟨s, rfl, ?_, allocated_owned filler hsps latency startTime edge ext_rach⟩ hok
  · rintro _ e ⟨s, rfl, hin, hs⟩ hok
    exact (owned_step hs hin hok).2
  · rintro _ e ⟨s, rfl, hin, hs⟩ hok
    exact (owned_step hs hin hok).1
  · exact inTable_of_initial ⟨fun i => rfl, (initial_init _ filler tx_sps latency startTime edge
      ext_rach).2⟩

/-- Two channels, of which the first retransmits. -/
def twoChannels : Allocated 2 (listQueue (pointerCompare (V := ℕ))) :=
  allocated .FILLER_DUMMY 1 ⟨0, 0⟩ ⟨0, 0⟩ false false

/-- A stale burst and a current one for the same cell of one channel, a current one on the other,
and one that goes with its queue. -/
def sharedCell (chan other : Fin 2) (slot : Fin 8) : List (Traffic 2) :=
  [.add chan [] 0 ⟨1, slot⟩, .add chan [] 0 ⟨27, slot⟩, .add other [] 0 ⟨27, slot⟩,
    .push ⟨27, slot⟩, .add other [] 0 ⟨30, slot⟩,
    .setSlot chan slot ChannelCombination.V.code, .clear]

theorem ownership_shared_cell :
    Run.Along memStep MemOK (some twoChannels) (sharedCell 0 1 0) ∧
      Run.Along memStep HeapSound (some twoChannels) (sharedCell 0 1 0) :=
  have hok : Run.Along memStep MemOK (some twoChannels) (sharedCell 0 1 0) := by decide +kernel
  ⟨hok, ownership .FILLER_DUMMY (.inl rfl) ⟨0, 0⟩ ⟨0, 0⟩ false false (sharedCell 0 1 0) hok⟩

/-- A burst with the frame number of the datagram bytes `FF FF FF FF` would be stored outside
the table when it is stale. -/
theorem vector_outside_table :
    ¬ Run.Along memStep HeapSound (some twoChannels)
      [.add 0 [] 0 (wireTime (datagramFor 255 255 255 255)), .push ⟨0, 0⟩] := by
  rintro ⟨-, ⟨mid, s', hcollect, -⟩, -⟩
  have hsome := (congrArg Option.isSome hcollect).trans (rfl : _ = true)
  exact absurd hsome (by decide +kernel)

end Trx
end OsmoTrx
