import OsmoTrx.Trx.State
import OsmoTrx.Lib.Run

/-!
# The downlink path

From a datagram of the GSM core to the burst handed to the radio interface:
`driveTxPriorityQueue`, `addRadioVector`, `updateFillerTable` and `pushRadioVector` of
`Transceiver.cpp`.  An access to the filler table outside its 102 rows and 8 columns is
undefined behaviour; it is the result `none` here, so that a run either stays inside
the table or ends.

* `drainStale`, `pushChannel`, `pushRadioVector` — a push, one channel after the other.
* `fillerCell_eq_some_iff`, `updateFillerTable_isSome_iff` — which accesses stay inside.
* `run_inTable` — **memory safety of the table**: in every run in which the datagrams
  accepted on a retransmitting channel carry frame numbers below `2^31`, every access
  to the table is to one of its cells.
* `negative_frame_leaves_table` — a frame number with the top bit set is a negative
  `int`, and the first push that finds it stale addresses a negative row.
-/

namespace OsmoTrx
namespace Trx

open GSM VectorQueue

variable {n : ℕ} {V : Type}

/-! ## Array accesses -/

/-- The index of a timeslot array for a computed value, if it is inside the array. -/
def slotIndex (tn : ℤ) : Option (Fin 8) :=
  if h : 0 ≤ tn ∧ tn < 8 then some ⟨tn.toNat, by omega⟩ else none

/-- The cell `fillerTable[row][col]`, if it is inside the table. -/
def fillerCell (row col : ℤ) : Option (Fin 102 × Fin 8) :=
  if h : (0 ≤ row ∧ row < 102) ∧ (0 ≤ col ∧ col < 8) then
    some (⟨row.toNat, by omega⟩, ⟨col.toNat, by omega⟩)
  else none

theorem fillerCell_isSome_iff (row col : ℤ) :
    (fillerCell row col).isSome = true ↔ (0 ≤ row ∧ row < 102) ∧ (0 ≤ col ∧ col < 8) := by
  unfold fillerCell
  split_ifs with h <;> simp [h]

theorem slotIndex_of_valid {t : Time} (h : t.Valid) :
    ∃ tn : Fin 8, slotIndex t.TN = some tn ∧ (tn : ℤ) = t.mTN := by
  obtain ⟨-, hl, hh⟩ := h
  have htn : t.TN = t.mTN := u32_eq_self (by omega) (by omega)
  refine ⟨⟨t.mTN.toNat, by omega⟩, ?_, by simp [hl]⟩
  rw [slotIndex, htn, dif_pos ⟨hl, by omega⟩]

/-! ## Bursts into the queue -/

/-- The modulator and the scaling of its output; a burst is scaled by
`txFullScale * 10 ^ e`. -/
structure Modem (V : Type) where
  modulateEdgeBurst : List UInt8 → ℕ → V
  modulateBurst : List UInt8 → ℤ → ℕ → V
  scaleVector : V → ℤ → V

/-- Bits of an EDGE burst. -/
def EDGE_BURST_NBITS : ℕ := 444

/-- `addRadioVector`: modulate a burst and put it into the queue of its channel. -/
def addRadioVector {Q : BurstQueue V} (M : Modem V) (t : Transceiver n Q) (chan : Fin n)
    (bits : List UInt8) (RSSI : ℤ) (wTime : Time) : Transceiver n Q :=
  if wTime.TN > 7 then t
  else
    let burst :=
      if bits.length = EDGE_BURST_NBITS then M.modulateEdgeBurst bits t.mSPSTx
      else M.modulateBurst bits (8 + if wTime.TN % 4 = 0 then 1 else 0) t.mSPSTx
    let burst := M.scaleVector burst ((-RSSI).tdiv 10)
    { t with
      mTxPriorityQueues := Function.update t.mTxPriorityQueues chan
        (Q.push (t.mTxPriorityQueues chan) ⟨wTime, some burst⟩) }

/-- A burst for a timeslot above 7 is dropped; any other ends up in the queue. -/
theorem addRadioVector_cases {Q : BurstQueue V} (M : Modem V) (t : Transceiver n Q)
    (chan : Fin n) (bits : List UInt8) (RSSI : ℤ) (wTime : Time) :
    (7 < wTime.TN ∧ addRadioVector M t chan bits RSSI wTime = t) ∨
    (wTime.TN ≤ 7 ∧ ∃ v, addRadioVector M t chan bits RSSI wTime = { t with
      mTxPriorityQueues := Function.update t.mTxPriorityQueues chan
        (Q.push (t.mTxPriorityQueues chan) ⟨wTime, some v⟩) }) := by
  unfold addRadioVector
  by_cases htn : wTime.TN > 7
  · exact Or.inl ⟨htn, if_pos htn⟩
  · exact Or.inr ⟨not_lt.mp htn, _, if_neg htn⟩

/-- A byte read as a (signed) `char`. -/
def schar (b : UInt8) : ℤ := if b.toNat < 128 then b.toNat else b.toNat - 256

/-- The frame number of a datagram: bytes 1 to 4, big endian. -/
def wireFrame (buffer : List UInt8) : ℕ :=
  ((buffer.drop 1).take 4).foldl (fun fn b => 256 * fn + b.toNat) 0

/-- The time of a datagram: byte 0 is the timeslot, and the frame number is converted
to `int`. -/
def wireTime (buffer : List UInt8) : Time := ⟨i32 (wireFrame buffer), schar (buffer.getD 0 0)⟩

/-- Is the length of a datagram that of a burst for this transceiver? -/
def acceptsLength (mSPSTx msgLen : ℕ) : Bool :=
  msgLen = gSlotLen + 1 + 4 + 1 || (msgLen = EDGE_BURST_NBITS + 1 + 4 + 1 && mSPSTx = 4)

/-- `driveTxPriorityQueue` on the datagram `msg`: whether it is transferred, and the
transceiver afterwards. -/
def driveTxPriorityQueue {Q : BurstQueue V} (M : Modem V) (t : Transceiver n Q)
    (chan : Fin n) (msg : List UInt8) : Bool × Transceiver n Q :=
  let buffer := msg.take (EDGE_BURST_NBITS + 50)
  if acceptsLength t.mSPSTx buffer.length then
    (true, addRadioVector M t chan (buffer.drop 6) (schar (buffer.getD 5 0)) (wireTime buffer))
  else (false, t)

/-! ## Bursts out of the queue -/

/-- `updateFillerTable`: the burst replaces the vector of the table cell of its time and
frame modulus. -/
def updateFillerTable (s : TransceiverState V) (burst : RadioVector V) :
    Option (TransceiverState V) := do
  let tn ← slotIndex burst.mTime.TN
  let (row, col) ← fillerCell (burst.mTime.FN.tmod (s.fillerModulus tn)) burst.mTime.TN
  some { s with
    fillerTable := Function.update s.fillerTable row
      (Function.update (s.fillerTable row) col burst.vector) }

/-- A channel in the middle of a push: its state, its queue and the stale bursts popped
so far. -/
structure Drained {V : Type} (Q : BurstQueue V) where
  state : TransceiverState V
  queue : Q.Carrier
  stale : List (RadioVector V)

/-- The loop over `getStaleBurst`; each turn takes a burst off the queue, so its size
bounds the number of turns. -/
def drainStale {Q : BurstQueue V} (nowTime : Time) : ℕ → Drained Q → Option (Drained Q)
  | 0, d => some d
  | fuel + 1, d =>
    match getStaleBurst Q d.queue nowTime with
    | (none, _) => some d
    | (some burst, queue) =>
      if d.state.mRetrans then
        match updateFillerTable d.state burst with
        | none => none
        | some state => drainStale nowTime fuel ⟨state, queue, d.stale ++ [burst]⟩
      else drainStale nowTime fuel ⟨d.state, queue, d.stale ++ [burst]⟩

/-- What a push does on one channel: the channel afterwards, the vector and the zero flag
handed to `driveTransmitRadio`, and the bursts popped. -/
structure Pushed {V : Type} (Q : BurstQueue V) where
  state : TransceiverState V
  queue : Q.Carrier
  burst : Option V
  zero : Bool
  stale : List (RadioVector V)
  current : Option (RadioVector V)

/-- The body of the channel loop of `pushRadioVector`. -/
def pushChannel {Q : BurstQueue V} (state : TransceiverState V) (queue : Q.Carrier)
    (nowTime : Time) : Option (Pushed Q) := do
  let d ← drainStale nowTime (Q.size queue) ⟨state, queue, []⟩
  let tn ← slotIndex nowTime.TN
  let (row, col) ← fillerCell (nowTime.FN.tmod (d.state.fillerModulus tn)) nowTime.TN
  let zero := decide (d.state.chanType tn = ChannelCombination.NONE.code)
  match getCurrentBurst Q d.queue nowTime with
  | (none, queue) => some ⟨d.state, queue, d.state.fillerTable row col, zero, d.stale, none⟩
  | (some burst, queue) =>
    if d.state.mRetrans then
      let state ← updateFillerTable d.state burst
      some ⟨state, queue, burst.vector, zero, d.stale, some burst⟩
    else some ⟨d.state, queue, burst.vector, zero, d.stale, some burst⟩

/-- `pushRadioVector`: the transceiver afterwards and what was done on each channel.
A turn of the channel loop touches its own channel only. -/
def pushRadioVector {Q : BurstQueue V} (t : Transceiver n Q) (nowTime : Time) :
    Option (Transceiver n Q × (Fin n → Pushed Q)) :=
  if h : ∀ i, (pushChannel (t.mStates i) (t.mTxPriorityQueues i) nowTime).isSome = true then
    let p i := (pushChannel (t.mStates i) (t.mTxPriorityQueues i) nowTime).get (h i)
    some ({ t with
      mStates := fun i => (p i).state, mTxPriorityQueues := fun i => (p i).queue }, p)
  else none

/-! ## What one push does -/

/-- `updateFillerTable` changes the table only. -/
theorem updateFillerTable_eq_some {s s' : TransceiverState V} {b : RadioVector V}
    (h : updateFillerTable s b = some s') : ∃ table, s' = { s with fillerTable := table } := by
  simp only [updateFillerTable, Option.bind_eq_bind] at h
  cases htn : slotIndex b.mTime.TN with
  | none => simp [htn] at h
  | some tn =>
    cases hc : fillerCell (b.mTime.FN.tmod (s.fillerModulus tn)) b.mTime.TN with
    | none => simp [htn, hc] at h
    | some c =>
      simp only [htn, hc, Option.bind_some, Option.some.injEq] at h
      exact ⟨_, h.symm⟩

theorem tmod_range {fn m : ℤ} (hfn : 0 ≤ fn) (hm : m = 26 ∨ m = 51 ∨ m = 52 ∨ m = 102) :
    0 ≤ fn.tmod m ∧ fn.tmod m < 102 := by
  rw [Int.tmod_eq_emod_of_nonneg hfn]
  rcases hm with rfl | rfl | rfl | rfl <;> omega

/-- **When an update stays inside the table**: the timeslot is one, and the frame number
is not negative or divisible by the modulus of the slot. -/
theorem updateFillerTable_isSome_iff {s : TransceiverState V} (hs : s.ModulusOK)
    (b : RadioVector V) :
    (updateFillerTable s b).isSome = true ↔
      ∃ tn, slotIndex b.mTime.TN = some tn ∧
        (0 ≤ b.mTime.mFN ∨ s.fillerModulus tn ∣ b.mTime.mFN) := by
  simp only [updateFillerTable, Option.bind_eq_bind]
  cases htn : slotIndex b.mTime.TN with
  | none => simp
  | some tn =>
    have hcol : 0 ≤ b.mTime.TN ∧ b.mTime.TN < 8 := by
      by_contra hcol
      simp [slotIndex, hcol] at htn
    have hrow : (fillerCell (b.mTime.FN.tmod (s.fillerModulus tn)) b.mTime.TN).isSome = true ↔
        0 ≤ b.mTime.mFN ∨ s.fillerModulus tn ∣ b.mTime.mFN := by
      rw [fillerCell_isSome_iff, and_iff_left hcol]
      by_cases hfn : 0 ≤ b.mTime.mFN
      · simp only [hfn, true_or, iff_true]
        exact tmod_range hfn (hs tn)
      · have hneg : b.mTime.mFN.tmod (s.fillerModulus tn) =
            -((-b.mTime.mFN) % s.fillerModulus tn) := by
          rw [← Int.tmod_eq_emod_of_nonneg (by omega : 0 ≤ -b.mTime.mFN), Int.neg_tmod, neg_neg]
        rw [Time.FN, hneg]
        simp only [hfn, false_or]
        rcases hs tn with hm | hm | hm | hm <;> rw [hm] <;> omega
    cases hc : fillerCell (b.mTime.FN.tmod (s.fillerModulus tn)) b.mTime.TN with
    | none =>
      rw [hc] at hrow
      simpa [hc] using hrow
    | some c =>
      rw [hc] at hrow
      simpa [hc] using hrow

/-- A burst `updateFillerTable` can store: its timeslot is one and its frame number is
not negative. -/
def Storable (b : RadioVector V) : Prop :=
  0 ≤ b.mTime.mFN ∧ ∃ tn, slotIndex b.mTime.TN = some tn

theorem Storable.of_valid {b : RadioVector V} (h : b.mTime.Valid) : Storable b := by
  obtain ⟨tn, htn, -⟩ := slotIndex_of_valid h
  exact ⟨h.1.1, tn, htn⟩

theorem updateFillerTable_of_storable {s : TransceiverState V} (hs : s.ModulusOK)
    {b : RadioVector V} (hb : Storable b) :
    ∃ table, updateFillerTable s b = some { s with fillerTable := table } := by
  obtain ⟨hfn, tn, htn⟩ := hb
  have hsome := (updateFillerTable_isSome_iff hs b).mpr ⟨tn, htn, Or.inl hfn⟩
  obtain ⟨s', hs'⟩ := Option.isSome_iff_exists.mp hsome
  obtain ⟨table, rfl⟩ := updateFillerTable_eq_some hs'
  exact ⟨table, hs'⟩

section Push

variable {Q : BurstQueue V} {nowTime : Time}

/-- What the stale loop leaves behind, with the bursts it popped. -/
structure DrainSpec (nowTime : Time) (d d' : Drained Q) (popped : List (RadioVector V)) :
    Prop where
  state : ∃ table, d'.state = { d.state with fillerTable := table }
  stale : d'.stale = d.stale ++ popped
  elems : Q.elems d.queue = popped + Q.elems d'.queue
  /-- Every burst popped is before the slot … -/
  popped_lt : ∀ b ∈ popped, b.mTime.lt nowTime = true
  /-- … and the first burst left is not. -/
  exit : ∀ b, Q.top d'.queue = some b → b.mTime.lt nowTime = false
  ordered : Q.Ordered d.queue → Coherent pointerCompare (Q.elems d.queue) → Q.Ordered d'.queue

theorem DrainSpec.refl {d : Drained Q}
    (h : ∀ b, Q.top d.queue = some b → b.mTime.lt nowTime = false) :
    DrainSpec nowTime d d [] where
  state := ⟨d.state.fillerTable, rfl⟩
  stale := (List.append_nil _).symm
  elems := by simp
  popped_lt b hb := by simp at hb
  exit := h
  ordered ho _ := ho

/-- One more turn in front of a finished loop. -/
theorem DrainSpec.cons {d d' : Drained Q} {state : TransceiverState V} {b : RadioVector V}
    {popped : List (RadioVector V)} (htop : Q.top d.queue = some b)
    (hlt : b.mTime.lt nowTime = true)
    (hstate : ∃ table, state = { d.state with fillerTable := table })
    (h : DrainSpec nowTime ⟨state, Q.pop d.queue, d.stale ++ [b]⟩ d' popped) :
    DrainSpec nowTime d d' (b :: popped) where
  state := by
    obtain ⟨table, rfl⟩ := hstate
    obtain ⟨table', h'⟩ := h.state
    exact ⟨table', h'⟩
  stale := by rw [h.stale, List.append_assoc]; rfl
  elems := by
    rw [Q.elems_pop _ _ htop, h.elems, ← Multiset.cons_coe, Multiset.cons_add]
  popped_lt c hc := by
    rcases List.mem_cons.mp hc with rfl | hc
    · exact hlt
    · exact h.popped_lt c hc
  exit := h.exit
  ordered ho hco :=
    h.ordered (Q.ordered_pop _ ho hco) (hco.mono (Q.elems_pop_subset htop))

variable (nowTime) in
/-- **The stale loop ends**, inside the table, having popped stale bursts only and
leaving none at the front. -/
theorem drainStale_spec (fuel : ℕ) : ∀ d : Drained Q, Q.size d.queue ≤ fuel →
    d.state.ModulusOK →
    (d.state.mRetrans = true → ∀ b ∈ Q.elems d.queue, Storable b) →
    ∃ d' popped, drainStale nowTime fuel d = some d' ∧ DrainSpec nowTime d d' popped := by
  induction fuel with
  | zero =>
    intro d hsize _ _
    have htop := Q.top_eq_none_of_size (Nat.le_zero.mp hsize)
    exact ⟨d, [], rfl, DrainSpec.refl (by simp [htop])⟩
  | succ fuel ih =>
    intro d hsize hmod hstore
    rcases getStaleBurst_cases d.queue nowTime with ⟨b, htop, hlt, hget⟩ | ⟨hnone, hget⟩
    · have hsz := Q.size_pop htop
      have hsub := Q.elems_pop_subset htop
      by_cases hre : d.state.mRetrans = true
      · obtain ⟨table, hup⟩ := updateFillerTable_of_storable hmod
          (hstore hre b (Q.mem_of_top htop))
        obtain ⟨d', popped, hd, hspec⟩ :=
          ih ⟨{ d.state with fillerTable := table }, Q.pop d.queue, d.stale ++ [b]⟩
            (by simp only; omega) hmod (fun _ c hc => hstore hre c (hsub hc))
        refine ⟨d', b :: popped, ?_, hspec.cons htop hlt ⟨table, rfl⟩⟩
        rw [drainStale, hget]
        simp only []
        rw [if_pos hre, hup]
        exact hd
      · obtain ⟨d', popped, hd, hspec⟩ := ih ⟨d.state, Q.pop d.queue, d.stale ++ [b]⟩
            (by simp only; omega) hmod (fun h => absurd h hre)
        refine ⟨d', b :: popped, ?_, hspec.cons htop hlt ⟨_, rfl⟩⟩
        rw [drainStale, hget]
        simp only []
        rw [if_neg hre]
        exact hd
    · exact ⟨d, [], by rw [drainStale, hget], DrainSpec.refl hnone⟩

/-- What a push does on one channel.  `mid` is the queue between the stale loop and the
test for a current burst. -/
structure PushSpec (nowTime : Time) (state : TransceiverState V) (queue : Q.Carrier)
    (p : Pushed Q) (mid : Q.Carrier) : Prop where
  zero : ∀ tn : Fin 8, (tn : ℤ) = nowTime.mTN →
    p.zero = decide (state.chanType tn = ChannelCombination.NONE.code)
  state : ∃ table, p.state = { state with fillerTable := table }
  elems : Q.elems queue = p.stale + Q.elems mid
  stale_lt : ∀ b ∈ p.stale, b.mTime.lt nowTime = true
  mid_exit : ∀ b, Q.top mid = some b → b.mTime.lt nowTime = false
  mid_ordered : Q.Ordered queue → Coherent pointerCompare (Q.elems queue) → Q.Ordered mid
  current : (p.current = none ∧ p.queue = mid ∧ ∀ b, Q.top mid = some b → b.mTime ≠ nowTime) ∨
    ∃ b, p.current = some b ∧ Q.top mid = some b ∧ b.mTime = nowTime ∧ p.queue = Q.pop mid ∧
      p.burst = b.vector

/-- **A push of a valid slot stays inside the table** and does what `PushSpec` says. -/
theorem pushChannel_spec {state : TransceiverState V} {queue : Q.Carrier}
    (hnow : nowTime.Valid) (hmod : state.ModulusOK)
    (hstore : state.mRetrans = true → ∀ b ∈ Q.elems queue, Storable b) :
    ∃ p mid, pushChannel state queue nowTime = some p ∧
      PushSpec nowTime state queue p mid := by
  obtain ⟨d, popped, hd, hspec⟩ :=
    drainStale_spec nowTime (Q.size queue) ⟨state, queue, []⟩ le_rfl hmod hstore
  obtain ⟨table, htable⟩ := hspec.state
  obtain ⟨tn, htn, htn'⟩ := slotIndex_of_valid hnow
  have hmod' : d.state.ModulusOK := by rw [htable]; exact hmod
  have hzero : ∀ tn' : Fin 8, (tn' : ℤ) = nowTime.mTN →
      decide (d.state.chanType tn = ChannelCombination.NONE.code) =
        decide (state.chanType tn' = ChannelCombination.NONE.code) := by
    intro tn' h
    have hsame : tn = tn' := Fin.ext (by omega)
    rw [htable, hsame]
  have hcell : (fillerCell (nowTime.FN.tmod (d.state.fillerModulus tn)) nowTime.TN).isSome =
      true := by
    have hcol : nowTime.TN = nowTime.mTN := u32_eq_self (by have := hnow.2; omega)
      (by have := hnow.2; omega)
    rw [fillerCell_isSome_iff, hcol]
    exact ⟨tmod_range hnow.1.1 (hmod' tn), hnow.2.1, by have := hnow.2.2; omega⟩
  obtain ⟨cell, hcell⟩ := Option.isSome_iff_exists.mp hcell
  have hstale : d.stale = popped := by simpa using hspec.stale
  rcases getCurrentBurst_cases d.queue nowTime with ⟨b, htop, heq, hget⟩ | ⟨hnone, hget⟩
  · -- a burst for this slot
    have hb : Storable b := Storable.of_valid (heq ▸ hnow)
    obtain ⟨table', hup⟩ := updateFillerTable_of_storable hmod' hb
    refine ⟨⟨if d.state.mRetrans then { d.state with fillerTable := table' } else d.state,
        Q.pop d.queue, b.vector, decide (d.state.chanType tn = ChannelCombination.NONE.code),
        d.stale, some b⟩, d.queue, ?_, ?_⟩
    · unfold pushChannel
      simp only [hd, htn, hcell, hget, Option.bind_eq_bind, Option.bind_some, hup]
      split_ifs <;> rfl
    · exact
        { zero := hzero
          state := by
            rw [htable]
            split_ifs
            · exact ⟨table', rfl⟩
            · exact ⟨table, rfl⟩
          elems := by rw [hstale]; exact hspec.elems
          stale_lt := by rw [hstale]; exact hspec.popped_lt
          mid_exit := hspec.exit
          mid_ordered := hspec.ordered
          current := Or.inr ⟨b, rfl, htop, heq, rfl, rfl⟩ }
  · refine ⟨⟨d.state, d.queue, d.state.fillerTable cell.1 cell.2,
        decide (d.state.chanType tn = ChannelCombination.NONE.code), d.stale, none⟩,
      d.queue, ?_, ?_⟩
    · unfold pushChannel
      simp only [hd, htn, hcell, hget, Option.bind_eq_bind, Option.bind_some]
    · exact
        { zero := hzero
          state := ⟨table, htable⟩
          elems := by rw [hstale]; exact hspec.elems
          stale_lt := by rw [hstale]; exact hspec.popped_lt
          mid_exit := hspec.exit
          mid_ordered := hspec.ordered
          current := Or.inl ⟨rfl, rfl, hnone⟩ }

/-- The same for all channels of a transceiver. -/
theorem pushRadioVector_spec {t : Transceiver n Q} (hnow : nowTime.Valid)
    (hmod : ∀ i, (t.mStates i).ModulusOK)
    (hstore : ∀ i, (t.mStates i).mRetrans = true →
      ∀ b ∈ Q.elems (t.mTxPriorityQueues i), Storable b) :
    ∃ (p : Fin n → Pushed Q) (mid : Fin n → Q.Carrier),
      pushRadioVector t nowTime = some ({ t with
        mStates := fun i => (p i).state, mTxPriorityQueues := fun i => (p i).queue }, p) ∧
      ∀ i, PushSpec nowTime (t.mStates i) (t.mTxPriorityQueues i) (p i) (mid i) := by
  choose p mid hp hspec using fun i => pushChannel_spec hnow (hmod i) (hstore i)
  refine ⟨p, mid, ?_, hspec⟩
  have hall : ∀ i, (pushChannel (t.mStates i) (t.mTxPriorityQueues i) nowTime).isSome = true :=
    fun i => by rw [hp i]; rfl
  unfold pushRadioVector
  rw [dif_pos hall]
  simp only [hp, Option.get_some]

/-- A push that succeeds succeeds on every channel. -/
theorem pushRadioVector_eq_some {t t' : Transceiver n Q} {p : Fin n → Pushed Q}
    (h : pushRadioVector t nowTime = some (t', p)) :
    (∀ i, pushChannel (t.mStates i) (t.mTxPriorityQueues i) nowTime = some (p i)) ∧
      t' = { t with
        mStates := fun i => (p i).state, mTxPriorityQueues := fun i => (p i).queue } := by
  unfold pushRadioVector at h
  split_ifs at h with hall
  simp only [Option.some.injEq, Prod.mk.injEq] at h
  obtain ⟨rfl, rfl⟩ := h
  exact ⟨fun i => (Option.some_get _).symm, rfl⟩

theorem PushSpec.queue_subset {state : TransceiverState V} {queue mid : Q.Carrier}
    {p : Pushed Q} (h : PushSpec nowTime state queue p mid) :
    Q.elems p.queue ⊆ Q.elems queue := by
  have hmid : Q.elems mid ⊆ Q.elems queue := by
    rw [h.elems]
    exact fun b hb => Multiset.mem_add.mpr (Or.inr hb)
  rcases h.current with ⟨-, hq, -⟩ | ⟨b, -, htop, -, hq, -⟩
  · rw [hq]; exact hmid
  · rw [hq]; exact fun c hc => hmid (Q.elems_pop_subset htop hc)

end Push

/-! ## Runs of the downlink -/

/-- What can happen to the filler tables: a datagram on a data socket, a SETSLOT command,
a push for a slot. -/
inductive Event (n : ℕ)
  | datagram (chan : Fin n) (msg : List UInt8)
  | setSlot (chan : Fin n) (timeslot : Fin 8) (corrCode : ℤ)
  | push (nowTime : Time)

variable {Q : BurstQueue V}

/-- One event; `none` once an access has left the table. -/
def downlinkStep (M : Modem V) : Option (Transceiver n Q) → Event n → Option (Transceiver n Q)
  | none, _ => none
  | some t, .datagram chan msg => some (driveTxPriorityQueue M t chan msg).2
  | some t, .setSlot chan ts code => some (t.updateState chan ((t.mStates chan).setSlot ts code))
  | some t, .push now => (pushRadioVector t now).map Prod.fst

/-- The frame number of a datagram that is queued on a retransmitting channel is below
`2^31`; a push is for a valid slot. -/
def FrameOK : Option (Transceiver n Q) → Event n → Prop
  | none, _ => True
  | some t, .datagram chan msg =>
    let buffer := msg.take (EDGE_BURST_NBITS + 50)
    (t.mStates chan).mRetrans = true → acceptsLength t.mSPSTx buffer.length = true →
      (wireTime buffer).TN ≤ 7 → wireFrame buffer < 2 ^ 31
  | some _, .setSlot _ _ _ => True
  | some _, .push now => now.Valid

instance : ∀ (o : Option (Transceiver n Q)) (e : Event n), Decidable (FrameOK o e)
  | none, _ => .isTrue trivial
  | some _, .datagram _ _ => inferInstanceAs (Decidable (_ → _ → _ → _ < _))
  | some _, .setSlot _ _ _ => .isTrue trivial
  | some _, .push now => inferInstanceAs (Decidable now.Valid)

/-- A transceiver as `init` leaves it: empty queues, moduli of 26. -/
def Initial (t : Transceiver n Q) : Prop :=
  (∀ i, t.mTxPriorityQueues i = Q.empty) ∧ ∀ i tn, (t.mStates i).fillerModulus tn = 26

theorem initial_init (generate : FillerType → Fin 102 → Fin 8 → V) (filler : FillerType)
    (tx_sps : ℕ) (latency startTime : Time) (edge ext_rach : Bool) :
    Initial (Transceiver.init n Q generate filler tx_sps latency startTime edge ext_rach) := by
  refine ⟨fun i => rfl, fun i tn => ?_⟩
  have hinit : ∀ (s : TransceiverState V) (f : FillerType),
      (s.init generate f tx_sps).fillerModulus = s.fillerModulus := by
    intro s f
    unfold TransceiverState.init
    split_ifs <;> rfl
  simp only [Transceiver.init]
  split_ifs <;> rw [hinit] <;> rfl

/-- What keeps the accesses inside the table. -/
structure InTable (t : Transceiver n Q) : Prop where
  modulus : ∀ i, (t.mStates i).ModulusOK
  storable : ∀ i, (t.mStates i).mRetrans = true →
    ∀ b ∈ Q.elems (t.mTxPriorityQueues i), Storable b

theorem inTable_of_initial {t : Transceiver n Q} (h : Initial t) : InTable t where
  modulus i tn := Or.inl (h.2 i tn)
  storable i _ b hb := by
    rw [h.1 i, Q.elems_empty] at hb
    simp at hb

/-- The time of a datagram whose frame number is below `2^31` can be stored. -/
theorem storable_wireTime {buffer : List UInt8} {v : Option V}
    (htn : (wireTime buffer).TN ≤ 7) (hfn : wireFrame buffer < 2 ^ 31) :
    Storable (⟨wireTime buffer, v⟩ : RadioVector V) := by
  have hnonneg : 0 ≤ (wireTime buffer).TN := Int.emod_nonneg _ (by norm_num)
  refine ⟨?_, ⟨(wireTime buffer).TN.toNat, by omega⟩, ?_⟩
  · simp only [wireTime]
    rw [i32_eq_self (by omega) (by exact_mod_cast hfn)]
    exact Int.natCast_nonneg _
  · simp only [slotIndex]
    rw [dif_pos ⟨hnonneg, by omega⟩]

theorem inTable_datagram {M : Modem V} {t : Transceiver n Q} (h : InTable t) {chan : Fin n}
    {msg : List UInt8} (hok : FrameOK (some t) (.datagram chan msg)) :
    InTable (driveTxPriorityQueue M t chan msg).2 := by
  simp only [driveTxPriorityQueue]
  split_ifs with hlen
  · rcases addRadioVector_cases M t chan ((msg.take (EDGE_BURST_NBITS + 50)).drop 6)
      (schar ((msg.take (EDGE_BURST_NBITS + 50)).getD 5 0))
      (wireTime (msg.take (EDGE_BURST_NBITS + 50))) with ⟨-, heq⟩ | ⟨htn, v, heq⟩
    · rw [heq]; exact h
    · rw [heq]
      refine ⟨h.modulus, fun i hre b hb => ?_⟩
      by_cases hi : i = chan
      · subst hi
        simp only [Function.update_self, Q.elems_push] at hb
        rcases Multiset.mem_cons.mp hb with rfl | hb
        · exact storable_wireTime htn (hok hre hlen htn)
        · exact h.storable i hre b hb
      · simp only [Function.update_of_ne hi] at hb
        exact h.storable i hre b hb
  · exact h

theorem inTable_setSlot {t : Transceiver n Q} (h : InTable t) (chan : Fin n) (ts : Fin 8)
    (code : ℤ) : InTable (t.updateState chan ((t.mStates chan).setSlot ts code)) := by
  refine ⟨fun i => ?_, fun i hre b hb => ?_⟩
  · by_cases hi : i = chan
    · subst hi
      simpa using TransceiverState.modulusOK_setSlot (h.modulus i) ts code
    · simpa [Function.update_of_ne hi] using h.modulus i
  · refine h.storable i ?_ b hb
    by_cases hi : i = chan
    · subst hi
      simpa using hre
    · simpa [Function.update_of_ne hi] using hre

theorem inTable_push {t : Transceiver n Q} (h : InTable t) {now : Time} (hnow : now.Valid) :
    ∃ t', (pushRadioVector t now).map Prod.fst = some t' ∧ InTable t' := by
  obtain ⟨p, mid, hp, hspec⟩ := pushRadioVector_spec hnow h.modulus h.storable
  refine ⟨_, by rw [hp]; rfl, ⟨fun i => ?_, fun i hre b hb => ?_⟩⟩
  · obtain ⟨table, htable⟩ := (hspec i).state
    simp only [htable]
    exact h.modulus i
  · obtain ⟨table, htable⟩ := (hspec i).state
    simp only [htable] at hre
    exact h.storable i hre b ((hspec i).queue_subset hb)

/-- **The filler table is never left.**  In every run of datagrams with arbitrary bytes,
SETSLOT commands and pushes for valid slots, in which the frame numbers queued on
retransmitting channels are below `2^31`, every access to a filler table is to one of
its `102 × 8` cells. -/
theorem run_inTable (M : Modem V) {t : Transceiver n Q} (ht : Initial t) (es : List (Event n))
    (hes : Run.Along (downlinkStep M) FrameOK (some t) es) :
    (Run.exec (downlinkStep M) (some t) es).isSome = true := by
  have hinv : ∃ t', Run.exec (downlinkStep M) (some t) es = some t' ∧ InTable t' := by
    refine Run.invariant_exec (I := fun o => ∃ t', o = some t' ∧ InTable t') ?_
      ⟨t, rfl, inTable_of_initial ht⟩ hes
    rintro _ e ⟨t', rfl, h⟩ hok
    cases e with
    | datagram chan msg => exact ⟨_, rfl, inTable_datagram h hok⟩
    | setSlot chan ts code => exact ⟨_, rfl, inTable_setSlot h chan ts code⟩
    | push now => exact inTable_push h hok
  obtain ⟨t', h, -⟩ := hinv
  rw [h]
  rfl

/-! ## A run that leaves the table -/

/-- A modem that keeps nothing of a burst. -/
def nullModem : Modem Unit := ⟨fun _ _ => (), fun _ _ _ => (), fun _ _ => ()⟩

/-- A single channel that retransmits filler bursts. -/
def dummyTrx : Transceiver 1 (listQueue (pointerCompare (V := Unit))) :=
  Transceiver.init 1 _ (fun _ _ _ => ()) .FILLER_DUMMY 1 ⟨0, 0⟩ ⟨0, 0⟩ false false

/-- A datagram for timeslot 0 of the frame with the given bytes. -/
def datagramFor (b1 b2 b3 b4 : UInt8) : List UInt8 := [0, b1, b2, b3, b4, 0] ++ List.replicate 148 0

/-- A run that meets the condition: a burst for frame 1, popped as stale in frame 2. -/
theorem run_inTable_stale :
    Run.Along (downlinkStep nullModem) FrameOK (some dummyTrx)
      [.datagram 0 (datagramFor 0 0 0 1), .push ⟨2, 0⟩] ∧
    (Run.exec (downlinkStep nullModem) (some dummyTrx)
      [.datagram 0 (datagramFor 0 0 0 1), .push ⟨2, 0⟩]).isSome = true :=
  ⟨by decide +kernel,
    run_inTable nullModem (initial_init _ _ _ _ _ _ _) _ (by decide +kernel)⟩

/-- **The table can be left from the network.**  Frame number `0xFFFFFFFF` is the `int`
`-1`; the burst is stale for frame 0 and addresses row `-1 % 26 = -1`. -/
theorem negative_frame_leaves_table :
    (Run.exec (downlinkStep nullModem) (some dummyTrx)
      [.datagram 0 (datagramFor 255 255 255 255), .push ⟨0, 0⟩]).isSome = false := by
  decide +kernel

end Trx
end OsmoTrx
