import OsmoTrx.Radio.Interface
import OsmoTrx.Lib.Run

/-!
# The receive path

`driveReceiveRadio` of `radioInterface.cpp` with `pullBuffer` and `unRadioifyVector`: one
chunk of samples is taken from the device, and as many bursts as fit are formed, one for
every slot and channel.  Dereferencing a null segment pointer is undefined behaviour and
the result `none`.  The consumer of a FIFO may take bursts from it at any time.

* `fill_spec`, `unRadioifyVector_spec` — one channel.
* `Account` — the bursts formed so far are consecutive pieces of the samples received,
  labelled with consecutive slots, and the rest is in the buffers.
* `account_pull`, `account_turn`, `account_receiveLoop` — it is kept by a chunk, by a turn
  of the loop and by the loop, which ends with at most one burst left.
* `receive_conserved` — **every sample is delivered once, in order, in the burst of its
  slot**, in every run in which the device delivers full chunks.
-/

namespace OsmoTrx
namespace Radio

open GSM Trx

variable {n : ℕ} {S D : Type}

/-! ## The device -/

/-- What `readSamples` does: its result, the contents of `convertRecvBuffer`, and the two
flags. -/
structure DeviceRead (n : ℕ) (D : Type) where
  numRecv : ℤ
  data : Fin (n + 1) → ℕ → D
  overrun : Bool
  local_underrun : Bool

/-- The converted samples of a chunk. -/
def DeviceRead.chunk (convertShortFloat : D → S) (r : DeviceRead n D) (segmentLen : ℕ)
    (i : Fin (n + 1)) : List S :=
  (Mem.slice (r.data i) 0 segmentLen).map convertShortFloat

/-- Samples written through `getWriteSegment`. -/
def RadioBuffer.fill (b : RadioBuffer S) (wr : List S) : Option (RadioBuffer S) :=
  match b.getWriteSegment with
  | (none, _) => none
  | (some segment, b) => some (b.store segment wr)

/-- `pullBuffer`: take a chunk from the device. -/
def pullBuffer (convertShortFloat : D → S) (t : RadioInterface n S) (r : DeviceRead n D) :
    Option (ℤ × RadioInterface n S) :=
  let segmentLen := (t.recvBuffer 0).segmentLen
  if (t.recvBuffer 0).getFreeSegments ≤ 0 then some (-1, t)
  else
    let t := { t with overrun := r.overrun }
    if r.numRecv ≠ segmentLen then some (-1, t)
    else
      match allSome fun i => (t.recvBuffer i).fill (r.chunk convertShortFloat segmentLen i) with
      | none => none
      | some recvBuffer =>
        some (0,
          { t with
            recvBuffer := recvBuffer
            underrun := t.underrun || r.local_underrun
            readTimestamp := t.readTimestamp + UInt64.ofNat r.numRecv.toNat })

/-! ## Bursts -/

/-- What the loop of `driveReceiveRadio` does in one turn.  `clock` is the base station
clock when the bursts of the slot are formed, `held` the size of a FIFO when its burst is
about to be written, and `taken` what its consumer has taken since the turn before. -/
structure FormedSlot (n : ℕ) (S : Type) where
  time : Time
  clock : Time
  samples : Fin (n + 1) → Option (List S)
  held : Fin (n + 1) → ℕ
  taken : Fin (n + 1) → List (RadioVector (List S))

/-- The burst of a channel. -/
def FormedSlot.burst (s : FormedSlot n S) (i : Fin (n + 1)) : RadioVector (List S) :=
  ⟨s.time, s.samples i⟩

/-- Symbols in the shorter slots, guard periods included. -/
def symbolsPerSlot : ℕ := gSlotLen + 8

/-- The length of the first burst of a call. -/
def slotSize (mSPSRx : ℕ) (tN : ℤ) : ℕ :=
  if mSPSRx = 4 then 625 else symbolsPerSlot + if tN % 4 = 0 then 1 else 0

/-- `unRadioifyVector`: the samples of a vector of `size`; without enough samples the
vector is left as it was allocated. -/
def unRadioifyVector (b : RadioBuffer S) (size : ℕ) : Option (List S) × RadioBuffer S :=
  if size > b.availSamples then (none, b) else b.read size

/-- The variables of the loop of `driveReceiveRadio`, with the slots formed so far. -/
structure RxLoop (n : ℕ) (S : Type) where
  radio : RadioInterface n S
  rcvClock : Time
  recvSz : ℕ
  burstSize : ℕ
  log : List (FormedSlot n S)

/-- The slot of the next turn; `take i` bursts of FIFO `i` have been taken before it. -/
def RxLoop.slot (l : RxLoop n S) (take : Fin (n + 1) → ℕ) : FormedSlot n S where
  time := l.rcvClock
  clock := l.radio.mClock
  samples i := (unRadioifyVector (l.radio.recvBuffer i) l.burstSize).1
  held i := ((l.radio.mReceiveFIFO i).drop (take i)).length
  taken i := (l.radio.mReceiveFIFO i).take (take i)

/-- One turn: a burst for every channel, written to its FIFO unless that holds 32. -/
def RxLoop.turn (l : RxLoop n S) (take : Fin (n + 1) → ℕ) : RxLoop n S :=
  let t := l.radio
  let rcvClock := l.rcvClock.incTN 1
  { radio := { t with
      recvBuffer := fun i => (unRadioifyVector (t.recvBuffer i) l.burstSize).2
      mReceiveFIFO := fun i =>
        if (l.slot take).held i < 32 then
          (t.mReceiveFIFO i).drop (take i) ++ [(l.slot take).burst i]
        else (t.mReceiveFIFO i).drop (take i)
      mClock := t.mClock.incTN 1 }
    rcvClock := rcvClock
    recvSz := l.recvSz - l.burstSize
    burstSize :=
      if t.mSPSRx ≠ 4 then (symbolsPerSlot + if rcvClock.TN % 4 = 0 then 1 else 0) * t.mSPSRx
      else l.burstSize
    log := l.log ++ [l.slot take] }

/-- The loop; a turn takes at least one sample, so the number of samples bounds the turns.
`taken k i` is what the consumer of channel `i` takes before turn `k`. -/
def receiveLoop (taken : ℕ → Fin (n + 1) → ℕ) : ℕ → RxLoop n S → RxLoop n S
  | 0, l => l
  | fuel + 1, l =>
    if l.recvSz > l.burstSize then receiveLoop taken fuel (l.turn (taken l.log.length)) else l

/-- `driveReceiveRadio`: its result, the radio interface afterwards and the slots formed. -/
def driveReceiveRadio (convertShortFloat : D → S) (t : RadioInterface n S) (r : DeviceRead n D)
    (taken : ℕ → Fin (n + 1) → ℕ) : Option (ℤ × RadioInterface n S × List (FormedSlot n S)) :=
  if !t.mOn then some (0, t, [])
  else
    match pullBuffer convertShortFloat t r with
    | none => none
    | some (rc, t) =>
      if rc < 0 then some (-1, t, [])
      else
        let rcvClock := t.mClock.decTN t.receiveOffset
        let recvSz := (t.recvBuffer 0).availSamples
        let l := receiveLoop taken recvSz
          ⟨t, rcvClock, recvSz, slotSize t.mSPSRx rcvClock.TN, []⟩
        some (1, l.radio, l.log)

/-! ## One channel -/

theorem RadioBuffer.fill_spec {b : RadioBuffer S} {xs ys : List S} (h : b.Holds xs)
    (hdir : b.outDirection = false) (hal : b.segmentLen ∣ b.writeIndex)
    (hlen : ys.length = b.segmentLen) (hfit : xs.length + b.segmentLen ≤ b.bufferLen) :
    ∃ b', b.fill ys = some b' ∧ b'.Holds (xs ++ ys) ∧ b'.toLayout = b.toLayout ∧
      b'.segmentLen ∣ b'.writeIndex := by
  obtain ⟨off, b', hget, hholds, hlay, hal'⟩ := getWriteSegment_spec h hdir hal hlen hfit
  exact ⟨b'.store off ys, by rw [fill, hget], hholds, hlay, hal'⟩

theorem unRadioifyVector_spec {b : RadioBuffer S} {xs : List S} {size : ℕ} (h : b.Holds xs)
    (hdir : b.outDirection = false) (hh : b.hLen = 0) (hsize : size ≤ xs.length) :
    (unRadioifyVector b size).1 = some (xs.take size) ∧
      (unRadioifyVector b size).2.Holds (xs.drop size) ∧
      (unRadioifyVector b size).2.toLayout = b.toLayout ∧
      (unRadioifyVector b size).2.writeIndex = b.writeIndex := by
  rw [unRadioifyVector, if_neg (by rw [h.avail]; omega)]
  exact RadioBuffer.read_spec h hdir hh hsize

@[simp] theorem receiveLoop_mOn (taken : ℕ → Fin (n + 1) → ℕ) (fuel : ℕ) :
    ∀ l : RxLoop n S, (receiveLoop taken fuel l).radio.mOn = l.radio.mOn := by
  induction fuel with
  | zero => intro l; rfl
  | succ fuel ih =>
    intro l
    rw [receiveLoop]
    split_ifs
    · exact ih _
    · rfl

/-! ## The account of the samples -/

/-- Samples in the burst of a slot: 625 at 4 samples per symbol, and the pattern
157, 156, 156, 156 at 1. -/
def slotLen (sps : ℕ) (t : Time) : ℕ := if sps = 4 then 625 else if t.mTN % 4 = 0 then 157 else 156

/-- The sample at which the burst after the first `k` slots starts. -/
def startOf (sps : ℕ) (log : List (FormedSlot n S)) (k : ℕ) : ℕ :=
  ((log.take k).map fun s => slotLen sps s.time).sum

@[simp] theorem startOf_zero (sps : ℕ) (log : List (FormedSlot n S)) : startOf sps log 0 = 0 := by
  simp [startOf]

theorem startOf_succ (sps : ℕ) (log : List (FormedSlot n S)) {k : ℕ} (hk : k < log.length) :
    startOf sps log (k + 1) = startOf sps log k + slotLen sps log[k].time := by
  rw [startOf, startOf, List.take_add_one, List.getElem?_eq_getElem hk, Option.toList_some,
    List.map_append, List.sum_append, List.map_singleton, List.sum_singleton]

theorem startOf_le (sps : ℕ) (log : List (FormedSlot n S)) (k : ℕ) :
    startOf sps log k ≤ startOf sps log log.length := by
  rw [startOf, startOf, List.take_length]
  conv_rhs => rw [← List.take_append_drop k log]
  rw [List.map_append, List.sum_append]
  exact Nat.le_add_right _ _

theorem startOf_append (sps : ℕ) (log : List (FormedSlot n S)) (s : FormedSlot n S) {k : ℕ}
    (hk : k ≤ log.length) : startOf sps (log ++ [s]) k = startOf sps log k := by
  rw [startOf, List.take_append_of_le_length hk, startOf]

theorem startOf_concat (sps : ℕ) (log : List (FormedSlot n S)) (s : FormedSlot n S) :
    startOf sps (log ++ [s]) (log ++ [s]).length =
      startOf sps log log.length + slotLen sps s.time := by
  simp [startOf]

theorem slotLen_pos (sps : ℕ) (t : Time) : 0 < slotLen sps t := by
  unfold slotLen
  split_ifs <;> omega

theorem slotSize_eq {sps : ℕ} {t : Time} (ht : t.Valid) : slotSize sps t.TN = slotLen sps t := by
  obtain ⟨-, hl, hh⟩ := ht
  have htn : t.TN = t.mTN := u32_eq_self (by omega) (by omega)
  rw [slotSize, slotLen, htn]
  split_ifs <;> rfl

/-- A burst is at most a chunk long. -/
theorem slotLen_le {sps : ℕ} (hsps : sps = 1 ∨ sps = 4) (t : Time) :
    slotLen sps t ≤ CHUNK * sps := by
  unfold slotLen CHUNK
  rcases hsps with rfl | rfl <;> split_ifs <;> omega

/-- The account of a run: what is in the radio interface and in the log after the samples
`input` have been received, for bursts that start with the slot `first`, at `sps` samples
per symbol and a clock `offset` slots ahead.  `next` is the slot of the next burst. -/
structure Account (first : Time) (sps : ℕ) (offset : ℤ)
    (fifo : Fin (n + 1) → List (RadioVector (List S))) (input : Fin (n + 1) → List S)
    (t : RadioInterface n S) (log : List (FormedSlot n S)) (next : Time) : Prop where
  sps_eq : t.mSPSRx = sps
  offset_eq : t.receiveOffset = offset
  layout : ∀ i, (t.recvBuffer i).toLayout = bufferLayout sps false
  aligned : ∀ i, (t.recvBuffer i).segmentLen ∣ (t.recvBuffer i).writeIndex
  level : ∀ i, (input i).length = (input 0).length
  /-- The samples not in a burst yet are in the buffers. -/
  formed_le : startOf sps log log.length ≤ (input 0).length
  holds : ∀ i, (t.recvBuffer i).Holds ((input i).drop (startOf sps log log.length))
  /-- A burst is the piece of the samples that follows the burst before it. -/
  piece : ∀ k (hk : k < log.length), ∀ i,
    log[k].samples i = some (((input i).drop (startOf sps log k)).take (slotLen sps log[k].time))
  /-- The bursts are labelled with consecutive slots. -/
  time : ∀ k (hk : k < log.length), log[k].time.Valid ∧
    log[k].time.slot = (first.slot + k) % Time.hyperslots ∧ log[k].clock = log[k].time.incTN offset
  next_valid : next.Valid
  next_slot : next.slot = (first.slot + log.length) % Time.hyperslots
  clock : t.mClock = next.incTN offset
  /-- A burst is missing in the FIFO only if the FIFO held 32 bursts when it was formed. -/
  delivered : ∀ i, (log.flatMap fun s => s.taken i) ++ t.mReceiveFIFO i =
    fifo i ++ (log.filter fun s => s.held i < 32).map fun s => s.burst i

namespace Account

variable {first next : Time} {sps : ℕ} {offset : ℤ}
  {fifo : Fin (n + 1) → List (RadioVector (List S))} {input : Fin (n + 1) → List S}
  {t : RadioInterface n S} {log : List (FormedSlot n S)}

theorem avail (h : Account first sps offset fifo input t log next) (i : Fin (n + 1)) :
    (t.recvBuffer i).availSamples = (input 0).length - startOf sps log log.length := by
  rw [(h.holds i).avail, List.length_drop, h.level i]

/-- A chunk for every channel is appended to the samples. -/
theorem pull (h : Account first sps offset fifo input t log next)
    (hfit : (input 0).length - startOf sps log log.length ≤ CHUNK * sps)
    (convertShortFloat : D → S) {r : DeviceRead n D} (hfull : r.numRecv = (CHUNK * sps : ℕ)) :
    ∃ t', pullBuffer convertShortFloat t r = some (0, t') ∧ t'.mOn = t.mOn ∧
      Account first sps offset fifo
        (fun i => input i ++ r.chunk convertShortFloat (CHUNK * sps) i) t' log next := by
  have hseg : ∀ i, (t.recvBuffer i).segmentLen = CHUNK * sps := fun i => by
    rw [h.layout i, bufferLayout]
  have hlen : ∀ i, (r.chunk convertShortFloat (CHUNK * sps) i).length = CHUNK * sps := fun i => by
    rw [DeviceRead.chunk, List.length_map, Mem.length_slice]
  have hroom : ∀ i, ((input i).drop (startOf sps log log.length)).length +
      (t.recvBuffer i).segmentLen ≤ (t.recvBuffer i).bufferLen := fun i => by
    rw [List.length_drop, h.level i, RadioBuffer.bufferLen, h.layout i, bufferLayout]
    simp only [NUMCHUNKS]
    omega
  choose b hb hholds hlay hal using fun i => RadioBuffer.fill_spec (h.holds i)
    (by rw [h.layout i, bufferLayout]) (h.aligned i) ((hlen i).trans (hseg i).symm) (hroom i)
  have hfree := (h.holds 0).getFreeSegments_pos (hroom 0)
  refine ⟨{ t with
      recvBuffer := b
      overrun := r.overrun
      underrun := t.underrun || r.local_underrun
      readTimestamp := t.readTimestamp + UInt64.ofNat r.numRecv.toNat }, ?_, rfl, ?_⟩
  · simp only [pullBuffer, not_le.mpr hfree, if_false, hseg 0, hfull, ne_eq, not_true_eq_false,
      allSome_eq_some hb]
  · exact
      { sps_eq := h.sps_eq
        offset_eq := h.offset_eq
        layout := fun i => (hlay i).trans (h.layout i)
        aligned := hal
        level := fun i => by
          rw [List.length_append, List.length_append, hlen, hlen, h.level i]
        formed_le := h.formed_le.trans (by rw [List.length_append]; omega)
        holds := fun i => by
          have hi := hholds i
          rwa [← List.drop_append_of_le_length (by rw [h.level i]; exact h.formed_le)] at hi
        piece := fun k hk i => by
          -- the pieces lie in the samples received before
          have hle := startOf_le sps log (k + 1)
          rw [startOf_succ sps log hk] at hle
          have hin : startOf sps log k + slotLen sps log[k].time ≤ (input i).length := by
            rw [h.level i]
            exact hle.trans h.formed_le
          rw [h.piece k hk i, List.drop_append_of_le_length (by omega),
            List.take_append_of_le_length (by rw [List.length_drop]; omega)]
        time := h.time
        next_valid := h.next_valid
        next_slot := h.next_slot
        clock := h.clock
        delivered := h.delivered }

/-- A turn takes bursts off the front of a FIFO and writes at most one to its end. -/
theorem delivered_turn (l : RxLoop n S) (take : Fin (n + 1) → ℕ) {i : Fin (n + 1)}
    {log : List (FormedSlot n S)} {f : List (RadioVector (List S))}
    (hd : (log.flatMap fun s => s.taken i) ++ l.radio.mReceiveFIFO i =
      f ++ (log.filter fun s => s.held i < 32).map fun s => s.burst i) :
    ((log ++ [l.slot take]).flatMap fun s => s.taken i) ++ (l.turn take).radio.mReceiveFIFO i =
      f ++ ((log ++ [l.slot take]).filter fun s => s.held i < 32).map fun s => s.burst i := by
  have hcut : (l.slot take).taken i ++ (l.radio.mReceiveFIFO i).drop (take i) =
      l.radio.mReceiveFIFO i := List.take_append_drop _ _
  rw [← hcut, ← List.append_assoc] at hd
  rw [List.flatMap_append, List.flatMap_singleton, List.filter_append, List.map_append,
    ← List.append_assoc f, ← hd]
  by_cases hheld : (l.slot take).held i < 32
  · have hkeep : ([l.slot take].filter fun s => s.held i < 32) = [l.slot take] := by
      simp only [List.filter_cons, hheld, decide_true, if_true, List.filter_nil]
    simp only [RxLoop.turn]
    rw [if_pos hheld, hkeep, List.map_singleton, List.append_assoc, List.append_assoc,
      List.append_assoc]
  · have hdrop : ([l.slot take].filter fun s => s.held i < 32) = [] := by
      simp only [List.filter_cons, hheld, decide_false, Bool.false_eq_true, if_false,
        List.filter_nil]
    simp only [RxLoop.turn]
    rw [if_neg hheld, hdrop, List.map_nil, List.append_nil]

/-- A turn of the loop forms the bursts of the next slot, if its samples are there. -/
theorem turn {l : RxLoop n S} {prior : List (FormedSlot n S)}
    (h : Account first sps offset fifo input l.radio (prior ++ l.log) l.rcvClock)
    (hoff : 0 ≤ offset ∧ offset ≤ 8) (hburst : l.burstSize = slotLen sps l.rcvClock)
    (hlen : startOf sps (prior ++ l.log) (prior ++ l.log).length + l.burstSize ≤ (input 0).length)
    (take : Fin (n + 1) → ℕ) :
    Account first sps offset fifo input (l.turn take).radio (prior ++ (l.turn take).log)
      (l.turn take).rcvClock := by
  have hroom : ∀ i, l.burstSize ≤
      ((input i).drop (startOf sps (prior ++ l.log) (prior ++ l.log).length)).length := fun i => by
    rw [List.length_drop, h.level i]
    omega
  have hread := fun i => unRadioifyVector_spec (h.holds i) (by rw [h.layout i, bufferLayout])
    (by rw [h.layout i, bufferLayout]) (hroom i)
  have hlog : prior ++ (l.turn take).log = (prior ++ l.log) ++ [l.slot take] :=
    (List.append_assoc _ _ _).symm
  have hend : startOf sps ((prior ++ l.log) ++ [l.slot take])
      ((prior ++ l.log) ++ [l.slot take]).length =
      startOf sps (prior ++ l.log) (prior ++ l.log).length + l.burstSize := by
    rw [startOf_concat, hburst]
    rfl
  rw [hlog]
  exact
    { sps_eq := h.sps_eq
      offset_eq := h.offset_eq
      layout := fun i => (hread i).2.2.1.trans (h.layout i)
      aligned := fun i => by
        have hlay := congrArg Layout.segmentLen (hread i).2.2.1
        simp only [RxLoop.turn]
        rw [hlay, (hread i).2.2.2]
        exact h.aligned i
      level := h.level
      formed_le := by rw [hend]; exact hlen
      holds := fun i => by
        have hi := (hread i).2.1
        rw [List.drop_drop] at hi
        rw [hend]
        exact hi
      piece := fun k hk i => by
        rcases Run.getElem_log_cases hk with ⟨hold, hget⟩ | ⟨rfl, hget⟩
        · rw [hget, startOf_append _ _ _ hold.le]
          exact h.piece k hold i
        · rw [hget, startOf_append _ _ _ le_rfl]
          simp only [RxLoop.slot]
          rw [← hburst]
          exact (hread i).1
      time := fun k hk => by
        rcases Run.getElem_log_cases hk with ⟨hold, hget⟩ | ⟨rfl, hget⟩
        · rw [hget]
          exact h.time k hold
        · rw [hget]
          exact ⟨h.next_valid, h.next_slot, h.clock⟩
      next_valid := Time.incTN_valid h.next_valid (by norm_num) (by norm_num)
      next_slot := by
        simp only [RxLoop.turn]
        rw [Time.slot_incTN h.next_valid (by norm_num) (by norm_num), h.next_slot,
          Int.emod_add_emod]
        congr 1
        push_cast [List.length_append, List.length_singleton]
        ring
      clock := by
        simp only [RxLoop.turn]
        rw [h.clock, Time.incTN_comm h.next_valid hoff.1 hoff.2 (by norm_num) (by norm_num)]
      delivered := fun i => by
        exact delivered_turn l take (h.delivered i) }

/-- The state of the loop: the account, and how many samples are left for it. -/
structure InLoop (first : Time) (sps : ℕ) (offset : ℤ)
    (fifo : Fin (n + 1) → List (RadioVector (List S))) (input : Fin (n + 1) → List S)
    (prior : List (FormedSlot n S)) (l : RxLoop n S) : Prop where
  account : Account first sps offset fifo input l.radio (prior ++ l.log) l.rcvClock
  recvSz_eq : l.recvSz + startOf sps (prior ++ l.log) (prior ++ l.log).length = (input 0).length
  burst_eq : l.burstSize = slotLen sps l.rcvClock

theorem inLoop_turn {l : RxLoop n S} {prior : List (FormedSlot n S)}
    (h : InLoop first sps offset fifo input prior l) (hsps : sps = 1 ∨ sps = 4)
    (hoff : 0 ≤ offset ∧ offset ≤ 8) (hgo : l.recvSz > l.burstSize) (take : Fin (n + 1) → ℕ) :
    InLoop first sps offset fifo input prior (l.turn take) := by
  have hrecv := h.recvSz_eq
  have hacc := h.account.turn hoff h.burst_eq (by omega) take
  refine ⟨hacc, ?_, ?_⟩
  · have hlog : prior ++ (l.turn take).log = (prior ++ l.log) ++ [l.slot take] :=
      (List.append_assoc _ _ _).symm
    rw [hlog, startOf_concat]
    have hs : slotLen sps (l.slot take).time = l.burstSize := h.burst_eq.symm
    rw [hs]
    simp only [RxLoop.turn]
    omega
  · have hs : l.radio.mSPSRx = sps := h.account.sps_eq
    have hnext : slotSize sps (l.turn take).rcvClock.TN = slotLen sps (l.turn take).rcvClock :=
      slotSize_eq hacc.next_valid
    rw [← hnext]
    simp only [RxLoop.turn, hs, slotSize]
    rcases hsps with rfl | rfl
    · simp
    · rw [if_neg (by norm_num), if_pos rfl, h.burst_eq, slotLen, if_pos rfl]

/-- The loop keeps the account and ends with at most one burst left in the buffers. -/
theorem inLoop_receiveLoop (hsps : sps = 1 ∨ sps = 4) (hoff : 0 ≤ offset ∧ offset ≤ 8)
    (taken : ℕ → Fin (n + 1) → ℕ) (fuel : ℕ) : ∀ {l : RxLoop n S} {prior : List (FormedSlot n S)},
    InLoop first sps offset fifo input prior l → l.recvSz ≤ fuel →
    InLoop first sps offset fifo input prior (receiveLoop taken fuel l) ∧
      (receiveLoop taken fuel l).recvSz ≤ (receiveLoop taken fuel l).burstSize := by
  induction fuel with
  | zero =>
    intro l prior h hfuel
    exact ⟨h, hfuel.trans (Nat.zero_le _)⟩
  | succ fuel ih =>
    intro l prior h hfuel
    rw [receiveLoop]
    by_cases hgo : l.recvSz > l.burstSize
    · rw [if_pos hgo]
      have hpos : 0 < l.burstSize := by
        rw [h.burst_eq]
        exact slotLen_pos _ _
      refine ih (inLoop_turn h hsps hoff hgo _) ?_
      simp only [RxLoop.turn]
      omega
    · rw [if_neg hgo]
      exact ⟨h, not_lt.mp hgo⟩

end Account

/-! ## Runs -/

/-- A call of `driveReceiveRadio`: what the device delivers, and what the consumers of the
FIFOs take before every turn of the loop. -/
structure RxCall (n : ℕ) (D : Type) where
  read : DeviceRead n D
  taken : ℕ → Fin (n + 1) → ℕ

/-- The radio interface, the slots formed and the results of the calls. -/
structure Reception (n : ℕ) (S : Type) where
  radio : RadioInterface n S
  log : List (FormedSlot n S)
  rets : List ℤ

/-- One call; `none` once a null pointer has been dereferenced. -/
def receiveStep (convertShortFloat : D → S) :
    Option (Reception n S) → RxCall n D → Option (Reception n S)
  | none, _ => none
  | some s, c =>
    (driveReceiveRadio convertShortFloat s.radio c.read c.taken).map fun r =>
      ⟨r.2.1, s.log ++ r.2.2, s.rets ++ [r.1]⟩

/-- The samples the device delivers on a channel. -/
def delivered (convertShortFloat : D → S) (sps : ℕ) (calls : List (RxCall n D))
    (i : Fin (n + 1)) : List S :=
  calls.flatMap fun c => c.read.chunk convertShortFloat (CHUNK * sps) i

/-- The account after a number of calls, at most one burst being left in the buffers. -/
structure Received (first : Time) (sps : ℕ) (offset : ℤ)
    (fifo : Fin (n + 1) → List (RadioVector (List S))) (input : Fin (n + 1) → List S)
    (s : Reception n S) (next : Time) : Prop where
  on : s.radio.mOn = true
  account : Account first sps offset fifo input s.radio s.log next
  leftover : (input 0).length ≤ startOf sps s.log s.log.length + slotLen sps next
  rets : ∀ r ∈ s.rets, r = 1

variable {first next : Time} {sps : ℕ} {offset : ℤ}
  {fifo : Fin (n + 1) → List (RadioVector (List S))} {input : Fin (n + 1) → List S}

/-- One call takes a full chunk and keeps the account. -/
theorem received_step {s : Reception n S} (h : Received first sps offset fifo input s next)
    (hsps : sps = 1 ∨ sps = 4) (hoff : 0 ≤ offset ∧ offset ≤ 8) (convertShortFloat : D → S)
    {c : RxCall n D} (hfull : c.read.numRecv = (CHUNK * sps : ℕ)) :
    ∃ s' next', receiveStep convertShortFloat (some s) c = some s' ∧
      Received first sps offset fifo
        (fun i => input i ++ c.read.chunk convertShortFloat (CHUNK * sps) i) s' next' := by
  have hfit : (input 0).length - startOf sps s.log s.log.length ≤ CHUNK * sps := by
    have := h.leftover
    have := slotLen_le hsps next
    omega
  obtain ⟨t, hpull, hon, hacc⟩ := h.account.pull hfit convertShortFloat hfull
  have hclock : t.mClock.decTN t.receiveOffset = next := by
    rw [hacc.clock, hacc.offset_eq, Time.decTN_incTN h.account.next_valid hoff.1 hoff.2]
  have hloop : Account.InLoop first sps offset fifo
      (fun i => input i ++ c.read.chunk convertShortFloat (CHUNK * sps) i) s.log
      ⟨t, next, (t.recvBuffer 0).availSamples, slotSize t.mSPSRx next.TN, []⟩ := by
    refine ⟨by rw [List.append_nil]; exact hacc, ?_, ?_⟩
    · have := hacc.formed_le
      have := hacc.avail 0
      simp only [List.append_nil] at *
      omega
    · rw [hacc.sps_eq]
      exact slotSize_eq hacc.next_valid
  obtain ⟨hend, hleft⟩ := Account.inLoop_receiveLoop hsps hoff c.taken _ hloop le_rfl
  generalize hl : receiveLoop c.taken (t.recvBuffer 0).availSamples
    ⟨t, next, (t.recvBuffer 0).availSamples, slotSize t.mSPSRx next.TN, []⟩ = l at hend hleft
  refine ⟨⟨l.radio, s.log ++ l.log, s.rets ++ [1]⟩, l.rcvClock, ?_, ?_⟩
  · have hon' : s.radio.mOn = true := h.on
    simp only [receiveStep, driveReceiveRadio, hon', Bool.not_true, Bool.false_eq_true, if_false,
      hpull, lt_irrefl, hclock, hl, Option.map_some]
  · refine ⟨?_, hend.account, ?_, ?_⟩
    · rw [← hl, receiveLoop_mOn, hon]
      exact h.on
    · have := hend.recvSz_eq
      have := hend.burst_eq
      simp only at *
      omega
    · exact Run.forall_mem_log h.rets rfl

/-- A radio interface that has just been started has delivered nothing. -/
theorem received_start {t : RadioInterface n S} (ht : Started t)
    (hsps : t.mSPSRx = 1 ∨ t.mSPSRx = 4) (hclock : t.mClock.Valid)
    (hoff : 0 ≤ t.receiveOffset ∧ t.receiveOffset ≤ 8) :
    Received (t.mClock.decTN t.receiveOffset) t.mSPSRx t.receiveOffset t.mReceiveFIFO
      (fun _ => []) ⟨t, [], []⟩ (t.mClock.decTN t.receiveOffset) where
  on := ht.on
  account :=
    { sps_eq := rfl
      offset_eq := rfl
      layout := fun i => (ht.recv i).layout
      aligned := fun i => by rw [(ht.recv i).write]; exact dvd_zero _
      level := fun _ => rfl
      formed_le := le_rfl
      holds := fun i => by
        rw [List.drop_nil]
        exact (ht.recv i).holds (by omega)
      piece := by intro k hk; simp at hk
      time := by intro k hk; simp at hk
      next_valid := Time.decTN_valid hclock hoff.1 hoff.2
      next_slot := by
        have hr := Time.slot_range (Time.decTN_valid hclock hoff.1 hoff.2)
        rw [List.length_nil, Nat.cast_zero, add_zero, Int.emod_eq_of_lt hr.1 hr.2]
      clock := (Time.incTN_decTN hclock hoff.1 hoff.2).symm
      delivered := by simp }
  leftover := Nat.zero_le _
  rets := by intro r hr; simp at hr

/-- A run keeps the account. -/
theorem received_exec (hsps : sps = 1 ∨ sps = 4) (hoff : 0 ≤ offset ∧ offset ≤ 8)
    (convertShortFloat : D → S) (calls : List (RxCall n D)) :
    ∀ {s : Reception n S} {next : Time} {input : Fin (n + 1) → List S},
    Received first sps offset fifo input s next →
    (∀ c ∈ calls, c.read.numRecv = (CHUNK * sps : ℕ)) →
    ∃ s' next', Run.exec (receiveStep convertShortFloat) (some s) calls = some s' ∧
      Received first sps offset fifo
        (fun i => input i ++ delivered convertShortFloat sps calls i) s' next' := by
  induction calls with
  | nil =>
    intro s next input h _
    refine ⟨s, next, rfl, ?_⟩
    simpa only [delivered, List.flatMap_nil, List.append_nil] using h
  | cons c calls ih =>
    intro s next input h hfull
    obtain ⟨s', next', hstep, h'⟩ := received_step h hsps hoff convertShortFloat
      (hfull c List.mem_cons_self)
    obtain ⟨s'', next'', hexec, h''⟩ := ih h' fun c' hc' => hfull c' (List.mem_cons_of_mem _ hc')
    refine ⟨s'', next'', ?_, ?_⟩
    · rw [Run.exec_cons, hstep, hexec]
    · simpa only [delivered, List.flatMap_cons, List.append_assoc] using h''

/-- **Every sample is delivered once, in order, in the burst of its slot.**  In every run
of calls from a start, at 1 or 4 samples per symbol, in which the device delivers full
chunks, no call fails or faults; the bursts are consecutive pieces of the samples of
their channel, labelled with consecutive slots from the first; the base station clock is
`receiveOffset` slots ahead of the next burst; and all buffers hold the same number of
samples, at most one burst, with a free segment. -/
theorem receive_conserved (convertShortFloat : D → S) {t : RadioInterface n S} (ht : Started t)
    (hsps : t.mSPSRx = 1 ∨ t.mSPSRx = 4) (hclock : t.mClock.Valid)
    (hoff : 0 ≤ t.receiveOffset ∧ t.receiveOffset ≤ 8) (calls : List (RxCall n D))
    (hfull : ∀ c ∈ calls, c.read.numRecv = (CHUNK * t.mSPSRx : ℕ)) :
    ∃ s next, Run.exec (receiveStep convertShortFloat) (some ⟨t, [], []⟩) calls = some s ∧
      Account (t.mClock.decTN t.receiveOffset) t.mSPSRx t.receiveOffset t.mReceiveFIFO
        (delivered convertShortFloat t.mSPSRx calls) s.radio s.log next ∧
      (∀ i, (s.radio.recvBuffer i).availSamples = (s.radio.recvBuffer 0).availSamples ∧
        (s.radio.recvBuffer i).availSamples ≤ slotLen t.mSPSRx next ∧
        0 < (s.radio.recvBuffer i).getFreeSegments) ∧
      ∀ r ∈ s.rets, r = 1 := by
  obtain ⟨s, next, hexec, h⟩ := received_exec hsps hoff convertShortFloat calls
    (received_start ht hsps hclock hoff) hfull
  simp only [List.nil_append] at h
  refine ⟨s, next, hexec, h.account, fun i => ?_, h.rets⟩
  have hleft := h.leftover
  have hlen := slotLen_le hsps next
  have hi := h.account.avail i
  refine ⟨hi.trans (h.account.avail 0).symm, by omega, ?_⟩
  refine (h.account.holds i).getFreeSegments_pos ?_
  rw [List.length_drop, h.account.level i, RadioBuffer.bufferLen, h.account.layout i, bufferLayout]
  simp only [NUMCHUNKS]
  omega

/-- Two full chunks. -/
def twoChunks : List (RxCall 0 ℤ) :=
  [⟨⟨625, fun _ k => k, false, false⟩, fun _ _ => 0⟩,
    ⟨⟨625, fun _ k => 1000 + k, false, false⟩, fun _ _ => 1⟩]

theorem receive_conserved_two :
    ∃ s next, Run.exec (receiveStep id) (some ⟨oneChannel, [], []⟩) twoChunks = some s ∧
      Account (oneChannel.mClock.decTN oneChannel.receiveOffset) oneChannel.mSPSRx
        oneChannel.receiveOffset oneChannel.mReceiveFIFO
        (delivered id oneChannel.mSPSRx twoChunks) s.radio s.log next ∧
      (∀ i, (s.radio.recvBuffer i).availSamples = (s.radio.recvBuffer 0).availSamples ∧
        (s.radio.recvBuffer i).availSamples ≤ slotLen oneChannel.mSPSRx next ∧
        0 < (s.radio.recvBuffer i).getFreeSegments) ∧
      ∀ r ∈ s.rets, r = 1 :=
  receive_conserved id oneChannel_started (Or.inl rfl) (by decide) (by decide) twoChunks
    (by decide)

end Radio
end OsmoTrx
