import OsmoTrx.Trx.NoiseVector
import OsmoTrx.Trx.ReceiveData
import OsmoTrx.Trx.TrainingSearch

/-!
# The uplink

The receive half of `Transceiver.cpp`, from the FIFOs that the radio interface fills to the data
sockets, with the control threads beside it.  Samples and levels are rational numbers; the logarithm
behind a level in dBFS is a parameter.

* `pullRadioVector`, `driveReceiveFIFO` — the code.
* `Uplink`, `uplinkStep` — all channels with their queues; a step is a whole turn of one of the
  threads.
* `pullRadioVector_spec` — **one burst**: no search and no demodulator reads outside of a vector, a
  burst of a slot that is off or idle has no soft bits, and only an idle one changes the noise level.
* `UplinkInv`, `uplinkStep_inv` — the invariant, and a lemma for each event.
* `uplink_run` — **in every run** each burst that has come in is in a queue, dropped or handled once,
  in order, with a datagram that has its time or with none, and the noise level of a channel is the
  average of its last 20 idle levels.
-/

namespace OsmoTrx
namespace Trx

open Dsp GSM Search Receiver

variable {n : ℕ} {V ρ : Type} {Q : BurstQueue V}

/-! ## The code -/

/-- A `radioVector` with the vectors of its diversity paths. -/
structure RxVector where
  mTime : Time
  vectors : List (SignalVector ℚ)

/-- What stays as it is: the library, `20.0 * log10(rxFullScale / x)`, the samples a symbol and the
offset of the levels. -/
structure UplinkSetup where
  lib : Receiver ℚ
  dBFS : ℚ → ℚ
  mSPSRx : ℕ
  rssiOffset : ℚ

def BURST_THRESH : ℚ := 4

def NOISE_CNT : ℕ := 20

/-- `(CorrType) rc`. -/
def CorrType.ofInt (rc : ℤ) : CorrType :=
  [CorrType.OFF, .TSC, .EXT_RACH, .RACH, .EDGE, .IDLE].getD rc.toNat .OFF

/-- The type of burst that `pullRadioVector` looks for. -/
def Transceiver.burstType (t : Transceiver n Q) (time : Time) (chan : Fin n) : Option CorrType :=
  (slotIndex time.TN).map fun tn =>
    let type := expectedCorrType t tn (u32 time.FN).toNat chan
    if t.mEdge ∧ type = .TSC then .EDGE else type

/-- The variables of the loop over the diversity paths. -/
structure Diversity where
  max : ℚ
  max_i : ℤ
  avg : ℚ

/-- A turn of this loop. -/
def diversityTurn (mSPSRx : ℕ) (vectors : List (SignalVector ℚ)) (s : Diversity) (i : ℕ) :
    Option Diversity := do
  let pow ← energyDetect (← vectors[i]?) (20 * mSPSRx)
  some (if pow > s.max then ⟨pow, i, s.avg + pow⟩ else { s with avg := s.avg + pow })

/-- The loop. -/
def selectDiversity (mSPSRx : ℕ) (vectors : List (SignalVector ℚ)) : Option Diversity :=
  (List.range vectors.length).foldlM (diversityTurn mSPSRx vectors) ⟨-1, -1, 0⟩

/-- The references of `pullRadioVector`. -/
structure PullRefs where
  wTime : Time
  RSSI : ℚ
  isRssiValid : Bool
  timingOffset : ℚ
  noise : ℚ

/-- What `pullRadioVector` returns and leaves, with the bursts that it deletes. -/
structure Pulled where
  bits : Option (List ℚ)
  refs : PullRefs
  mNoises : NoiseVector ℚ
  mNoiseLev : ℚ
  deleted : List RxVector

/-- What the variables hold that have never been assigned. -/
structure UplinkJunk where
  refs : PullRefs
  amp : ℚ × ℚ
  toa : ℚ
  burstString : ℕ → UInt8

/-- `pullRadioVector` from the search on. -/
def detectPulled (u : UplinkSetup) (t : Transceiver n Q) (junk : UplinkJunk) (radio_burst : RxVector)
    (burst : SignalVector ℚ) (type : CorrType) (p : Pulled) : Option Pulled := do
  let r ← u.lib.detectAnyBurst burst (u32 t.mTSC).toNat BURST_THRESH u.mSPSRx type junk.amp junk.toa
    (t.maxToa type)
  if r.rc > 0 then do
    let bits ← u.lib.demodAnyBurst burst u.mSPSRx r.amp r.toa (CorrType.ofInt r.rc)
    some { p with
      bits := bits
      refs := { p.refs with timingOffset := r.toa }
      deleted := [radio_burst] }
  else some { p with deleted := [radio_burst] }

/-- `pullRadioVector` after its blocking read. -/
def pullRadioVector (u : UplinkSetup) (t : Transceiver n Q) (mNoises : NoiseVector ℚ)
    (junk : UplinkJunk) (chan : Fin n) (radio_burst : RxVector) : Option Pulled := do
  let mNoiseLev := (t.mStates chan).mNoiseLev
  let p : Pulled := ⟨none, { junk.refs with isRssiValid := false }, mNoises, mNoiseLev, []⟩
  let type ← t.burstType radio_burst.mTime chan
  if type = .OFF then some { p with deleted := [radio_burst] }
  else do
    let d ← selectDiversity u.mSPSRx radio_burst.vectors
    if d.max_i < 0 then some { p with deleted := [radio_burst] }
    else do
      let burst ← radio_burst.vectors[d.max_i.toNat]?
      let avg := u.lib.sqrt (d.avg / radio_burst.vectors.length)
      let refs := { p.refs with
        wTime := radio_burst.mTime
        RSSI := u.dBFS avg
        isRssiValid := true }
      if type = .IDLE then
        let mNoises := (mNoises.insert avg).2
        some ⟨none, { refs with noise := u.dBFS mNoises.avg }, mNoises, mNoises.avg, [radio_burst]⟩
      else
        detectPulled u t junk radio_burst burst type
          { p with refs := { refs with noise := u.dBFS mNoiseLev } }

/-- `driveReceiveFIFO` after `pullRadioVector`: the datagram, if there is one. -/
def sendPulled (u : UplinkSetup) (junk : UplinkJunk) (p : Pulled) : Option (Option (List UInt8)) :=
  match p.bits with
  | none => some none
  | some bits => (driveReceiveFIFO junk.burstString u.rssiOffset
      ⟨p.refs.wTime, bits, p.refs.RSSI, p.refs.timingOffset⟩).map some

/-! ## The system -/

/-- A burst that has been handled: the type that was looked for, and the datagram. -/
structure HandledBurst where
  burst : RxVector
  type : CorrType
  datagram : Option (List UInt8)

/-- The transceiver with its radio, its receive queues and noise vectors, and what each channel has
handled and dropped. -/
structure Uplink (n : ℕ) (ρ : Type) (Q : BurstQueue V) where
  trx : Transceiver n Q
  radio : ρ
  mReceiveFIFO : Fin n → List RxVector
  mNoises : Fin n → NoiseVector ℚ
  log : Fin n → List HandledBurst
  dropped : Fin n → List RxVector

/-- What happens: a burst comes from the radio interface, `driveReceiveFIFO` takes one from its queue,
or a datagram arrives on a control socket. -/
inductive UplinkEvent (n : ℕ)
  | receive (chan : Fin n) (burst : RxVector)
  | drive (chan : Fin n) (junk : UplinkJunk)
  | control (e : ControlEvent n)

/-- The end of `driveReceiveRadio`: a queue takes 32 bursts. -/
def Uplink.receive (s : Uplink n ρ Q) (chan : Fin n) (burst : RxVector) : Uplink n ρ Q :=
  if (s.mReceiveFIFO chan).length < 32 then
    { s with
      mReceiveFIFO := Function.update s.mReceiveFIFO chan (s.mReceiveFIFO chan ++ [burst]) }
  else { s with dropped := Function.update s.dropped chan (s.dropped chan ++ [burst]) }

/-- The system after a channel has handled the first burst of its queue. -/
def Uplink.handled (s : Uplink n ρ Q) (chan : Fin n) (rest : List RxVector) (type : CorrType)
    (p : Pulled) (datagram : Option (List UInt8)) : Uplink n ρ Q :=
  { s with
    trx := s.trx.updateState chan { s.trx.mStates chan with mNoiseLev := p.mNoiseLev }
    mReceiveFIFO := Function.update s.mReceiveFIFO chan rest
    mNoises := Function.update s.mNoises chan p.mNoises
    log := Function.update s.log chan
      (s.log chan ++ p.deleted.map fun burst => ⟨burst, type, datagram⟩) }

/-- A turn of `RxUpperLoopAdapter`; with an empty queue the thread waits. -/
def Uplink.drive (u : UplinkSetup) (s : Uplink n ρ Q) (chan : Fin n) (junk : UplinkJunk) :
    Option (Uplink n ρ Q) :=
  match s.mReceiveFIFO chan with
  | [] => some s
  | radio_burst :: rest => do
    let type ← s.trx.burstType radio_burst.mTime chan
    let p ← pullRadioVector u s.trx (s.mNoises chan) junk chan radio_burst
    let datagram ← sendPulled u junk p
    some (s.handled chan rest type p datagram)

/-- One event; `none` is a read outside of a vector or a table. -/
def uplinkStep (u : UplinkSetup) (R : RadioCalls ρ n) (s : Uplink n ρ Q) :
    UplinkEvent n → Option (Uplink n ρ Q)
  | .receive chan burst => some (s.receive chan burst)
  | .drive chan junk => s.drive u chan junk
  | .control e =>
    let c := controlStep R (s.trx, s.radio) e
    some { s with trx := c.1, radio := c.2 }

/-! ## Diversity -/

section Diversity

/-- The power of a diversity path. -/
def pathEnergy (mSPSRx : ℕ) (vectors : List (SignalVector ℚ)) (i : ℕ) : ℚ :=
  (vectors[i]?.bind fun v => energyDetect v (20 * mSPSRx)).getD 0

/-- The level of a burst. -/
def UplinkSetup.level (u : UplinkSetup) (b : RxVector) : ℚ :=
  u.lib.sqrt ((∑ i ∈ Finset.range b.vectors.length, pathEnergy u.mSPSRx b.vectors i) /
    b.vectors.length)

/-- What the radio interface passes up: a slot's worth of samples for each diversity path. -/
structure RxVector.Slot (mSPSRx : ℕ) (b : RxVector) : Prop where
  valid : b.mTime.Valid
  paths : b.vectors ≠ []
  size : ∀ v ∈ b.vectors, SlotSize mSPSRx v

/-- The power of a slot is taken without a read outside. -/
theorem energyDetect_slot {mSPSRx : ℕ} {v : SignalVector ℚ} (h : SlotSize mSPSRx v) :
    ∃ pow, energyDetect v (20 * mSPSRx) = some pow ∧ 0 ≤ pow := by
  have hpos : 0 < 20 * mSPSRx := by
    rcases h with ⟨rfl, -⟩ | ⟨rfl, -⟩ <;> norm_num
  have hreads : ∀ i < min (20 * mSPSRx) v.size, 4 * i < v.size := by
    rcases h with ⟨rfl, hlow, -⟩ | ⟨rfl, hsize⟩ <;> omega
  refine ⟨_, (energyDetect_eq v hpos).trans (if_pos hreads), div_nonneg ?_ (Nat.cast_nonneg _)⟩
  exact Finset.sum_nonneg fun i _ => add_nonneg (mul_self_nonneg _) (mul_self_nonneg _)

variable {mSPSRx : ℕ} {vectors : List (SignalVector ℚ)}

theorem energyDetect_path (hsize : ∀ v ∈ vectors, SlotSize mSPSRx v) {i : ℕ}
    (hi : i < vectors.length) :
    energyDetect vectors[i] (20 * mSPSRx) = some (pathEnergy mSPSRx vectors i) ∧
      0 ≤ pathEnergy mSPSRx vectors i := by
  obtain ⟨e, he, hnonneg⟩ := energyDetect_slot (hsize _ (List.getElem_mem hi))
  have hval : pathEnergy mSPSRx vectors i = e := by
    rw [pathEnergy, List.getElem?_eq_getElem hi, Option.bind_some, he, Option.getD_some]
  rw [hval]
  exact ⟨he, hnonneg⟩

/-- The loop as far as path `m`: with one added to each power it is a search for a record. -/
theorem diversity_loop (hsize : ∀ v ∈ vectors, SlotSize mSPSRx v) {m : ℕ} (hm : m ≤ vectors.length) :
    ∃ d r, (List.range m).foldlM (diversityTurn mSPSRx vectors) ⟨-1, -1, 0⟩ = some d ∧
      Record (fun i => pathEnergy mSPSRx vectors i + 1) m r ∧
      d.max = toBeat (fun i => pathEnergy mSPSRx vectors i + 1) r - 1 ∧ d.max_i = place r ∧
      d.avg = ∑ j ∈ Finset.range m, pathEnergy mSPSRx vectors j := by
  set pow := pathEnergy mSPSRx vectors with hpow
  induction m with
  | zero => exact ⟨_, none, rfl, record_zero _, by simp [toBeat], rfl, rfl⟩
  | succ m ih =>
    obtain ⟨d, r, hd, hr, hmax, hindex, havg⟩ := ih (by omega)
    have hbeat : pow m > d.max ↔ pow m + 1 > toBeat (fun i => pow i + 1) r := by
      rw [hmax, gt_iff_lt, gt_iff_lt, sub_lt_iff_lt_add]
    refine ⟨if pow m > d.max then ⟨pow m, m, d.avg + pow m⟩ else { d with avg := d.avg + pow m }, _,
      ?_, hr.succ, ?_⟩
    · rw [List.range_succ, List.foldlM_append, hd]
      simp only [Option.bind_eq_bind, Option.bind_some, List.foldlM_cons, List.foldlM_nil,
        diversityTurn, List.getElem?_eq_getElem (show m < vectors.length by omega),
        (energyDetect_path hsize (show m < vectors.length by omega)).1, Option.pure_def, ← hpow]
    · rw [Finset.sum_range_succ, ← havg]
      by_cases hwin : pow m > d.max
      · rw [if_pos hwin, if_pos (hbeat.mp hwin)]
        exact ⟨by simp [toBeat], rfl, rfl⟩
      · rw [if_neg hwin, if_neg (fun h => hwin (hbeat.mpr h))]
        exact ⟨hmax, hindex, rfl⟩

/-- **The path with the highest energy** is selected, the first one of several. -/
theorem selectDiversity_spec (hne : vectors ≠ []) (hsize : ∀ v ∈ vectors, SlotSize mSPSRx v) :
    ∃ d i, selectDiversity mSPSRx vectors = some d ∧ d.max_i = (i : ℕ) ∧ i < vectors.length ∧
      (∀ j < vectors.length, pathEnergy mSPSRx vectors j ≤ pathEnergy mSPSRx vectors i) ∧
      (∀ j < i, pathEnergy mSPSRx vectors j < pathEnergy mSPSRx vectors i) ∧
      d.avg = ∑ j ∈ Finset.range vectors.length, pathEnergy mSPSRx vectors j := by
  obtain ⟨d, r, hd, hr, -, hindex, havg⟩ := diversity_loop hsize le_rfl
  cases r with
  | none =>
    have hpos := List.length_pos_iff.mpr hne
    have hzero := hr 0 hpos
    have hnonneg := (energyDetect_path hsize hpos).2
    linarith
  | some i =>
    obtain ⟨hi, -, hall, hfirst⟩ := hr
    refine ⟨d, i, hd, hindex, hi, fun j hj => ?_, fun j hj => ?_, havg⟩
    · have := hall j hj
      linarith
    · have := hfirst j hj
      linarith

end Diversity

/-! ## One burst -/

section Pull

variable {u : UplinkSetup} {f : FloatValues ℚ} {v : ReceiveValues ℚ} {sse3 : Bool}
  {t : Transceiver n Q} {chan : Fin n}

theorem CorrType.ofInt_toInt (type : CorrType) : CorrType.ofInt type.toInt = type := by
  cases type <;> rfl

/-- The soft bits of a burst with their time, level and timing offset. -/
structure SoftBits (u : UplinkSetup) (b : RxVector) (type : CorrType) (max_toa : ℤ) (refs : PullRefs)
    (bits : List ℚ) : Prop where
  time : refs.wTime = b.mTime
  RSSI : refs.RSSI = u.dBFS (u.level b)
  valid : refs.isRssiValid = true
  offset : ∃ k : ℤ, refs.timingOffset = k / 512 ∧ -29 * 512 < k ∧ k < (max_toa + 29) * 512
  length : 156 ≤ bits.length ∧ bits.length ≤ 157 ∨ bits.length = 444 ∧ type = .EDGE

/-- What `pullRadioVector` does with a burst of a type. -/
structure PullsAs (u : UplinkSetup) (t : Transceiver n Q) (mNoises : NoiseVector ℚ) (chan : Fin n)
    (b : RxVector) (type : CorrType) (p : Pulled) : Prop where
  deleted : p.deleted = [b]
  silent : type = .OFF ∨ type = .IDLE → p.bits = none
  idle : type = .IDLE →
    p.mNoises = (mNoises.insert (u.level b)).2 ∧ p.mNoiseLev = (mNoises.insert (u.level b)).2.avg
  frame : type ≠ .IDLE → p.mNoises = mNoises ∧ p.mNoiseLev = (t.mStates chan).mNoiseLev
  soft : ∀ bits, p.bits = some bits → SoftBits u b type (t.maxToa type) p.refs bits

/-- The search and the demodulator. -/
theorem detectPulled_spec (hlib : u.lib = Receiver.setup f v (convolveInit sse3)) {type : CorrType}
    (hmax : MaxSearch (t.maxToa type)) {burst : SignalVector ℚ} (hsize : SlotSize u.mSPSRx burst)
    (junk : UplinkJunk) (b : RxVector) (p : Pulled) :
    ∃ bits refs, detectPulled u t junk b burst type p =
        some { p with bits := bits, refs := refs, deleted := [b] } ∧
      ((bits = p.bits ∧ refs = p.refs ∧ ∀ r, u.lib.detectAnyBurst burst (u32 t.mTSC).toNat
          BURST_THRESH u.mSPSRx type junk.amp junk.toa (t.maxToa type) = some r → r.rc ≤ 0) ∨
        (type ≠ .OFF ∧ type ≠ .IDLE) ∧ ∃ soft, bits = some soft ∧ ∃ k : ℤ,
          (refs = { p.refs with timingOffset := k / 512 } ∧ -29 * 512 < k ∧
            k < (t.maxToa type + 29) * 512) ∧
          (156 ≤ soft.length ∧ soft.length ≤ 157 ∨ soft.length = 444 ∧ type = .EDGE)) := by
  have hsearch : Searchable u.mSPSRx burst := by
    rcases hsize with ⟨h1, -, h157⟩ | ⟨-, h625⟩
    · exact ⟨fun h4 => by omega, h157.trans (by decide)⟩
    · exact ⟨fun _ => by rw [h625]; decide, h625.le.trans (by decide)⟩
  obtain ⟨r, hr, hreported⟩ := detectAnyBurst_spec f v sse3 (u32 t.mTSC).toNat BURST_THRESH junk.amp
    junk.toa type hmax hsearch
  rw [← hlib] at hr
  by_cases hrc : r.rc > 0
  · obtain ⟨harrives, hoff, hidle, hfound⟩ := hreported hrc
    obtain ⟨soft, hsoft, hlen⟩ := demodAnyBurst_found f v sse3 harrives hmax hsize r.amp
      (CorrType.ofInt r.rc)
    rw [← hlib] at hsoft
    obtain ⟨k, hk, hlow, hhigh⟩ := harrives
    refine ⟨some soft, { p.refs with timingOffset := r.toa }, ?_, Or.inr ⟨⟨hoff, hidle⟩, soft, rfl, k,
      ⟨by rw [hk], hlow, hhigh⟩, ?_⟩⟩
    · simp only [detectPulled, hr, if_pos hrc, hsoft, Option.bind_eq_bind, Option.bind_some]
    · rw [hlen]
      have hsymbols := hsize.symbols
      rcases hfound with hrc' | ⟨rfl, hrc'⟩ <;> rw [hrc', CorrType.ofInt_toInt]
      · by_cases hedge : type = .EDGE
        · exact Or.inr ⟨by rw [softLength, if_pos hedge], hedge⟩
        · rw [softLength, if_neg hedge]
          exact Or.inl hsymbols
      · rw [softLength, if_neg (by decide)]
        exact Or.inl hsymbols
  · refine ⟨p.bits, p.refs, ?_, Or.inl ⟨rfl, rfl, fun r' hr' => ?_⟩⟩
    · simp only [detectPulled, hr, if_neg hrc, Option.bind_eq_bind, Option.bind_some]
    · rw [hr, Option.some_inj] at hr'
      exact hr' ▸ not_lt.mp hrc

/-- **One burst.**  A slot's worth of samples is pulled without a read outside of a vector or a table,
whatever they are, and deleted once. -/
theorem pullRadioVector_spec (hlib : u.lib = Receiver.setup f v (convolveInit sse3))
    (hmax : ∀ type, MaxSearch (t.maxToa type)) {b : RxVector} (hslot : b.Slot u.mSPSRx)
    (mNoises : NoiseVector ℚ) (junk : UplinkJunk) :
    ∃ type p, t.burstType b.mTime chan = some type ∧
      pullRadioVector u t mNoises junk chan b = some p ∧ PullsAs u t mNoises chan b type p := by
  obtain ⟨tn, htn, -⟩ := slotIndex_of_valid hslot.valid
  obtain ⟨type, htype⟩ : ∃ type, t.burstType b.mTime chan = some type := by
    rw [Transceiver.burstType, htn]
    exact ⟨_, rfl⟩
  obtain ⟨d, i, hd, hindex, hi, -, -, havg⟩ := selectDiversity_spec hslot.paths hslot.size
  have hlevel : u.lib.sqrt (d.avg / b.vectors.length) = u.level b := by
    rw [havg, UplinkSetup.level]
  have hburst : b.vectors[d.max_i.toNat]? = some b.vectors[i] := by
    rw [hindex, Int.toNat_natCast, List.getElem?_eq_getElem hi]
  have hpath : ¬ d.max_i < 0 := by omega
  set p : Pulled := ⟨none, { junk.refs with isRssiValid := false }, mNoises,
    (t.mStates chan).mNoiseLev, []⟩ with hp
  by_cases hoff : type = .OFF
  · subst hoff
    have hpull : pullRadioVector u t mNoises junk chan b = some { p with deleted := [b] } := by
      simp only [pullRadioVector, htype, Option.bind_eq_bind, Option.bind_some, if_true, hp]
    refine ⟨_, _, htype, hpull, rfl, fun _ => rfl, fun h => ?_, fun _ => ⟨rfl, rfl⟩, fun bits h => ?_⟩
    · cases h
    · cases h
  set refs : PullRefs := { p.refs with
    wTime := b.mTime
    RSSI := u.dBFS (u.level b)
    isRssiValid := true } with hrefs
  by_cases hidle : type = .IDLE
  · subst hidle
    set noises := (mNoises.insert (u.level b)).2 with hnoises
    have hpull : pullRadioVector u t mNoises junk chan b = some
        ⟨none, { refs with noise := u.dBFS noises.avg }, noises, noises.avg, [b]⟩ := by
      simp only [pullRadioVector, htype, hd, hburst, hlevel, if_neg hpath, Option.bind_eq_bind,
        Option.bind_some, reduceCtorEq, if_false, if_true, hrefs, hp, hnoises]
    refine ⟨_, _, htype, hpull, rfl, fun _ => rfl, fun _ => ⟨rfl, rfl⟩, fun h => absurd rfl h,
      fun bits h => ?_⟩
    cases h
  · obtain ⟨bits, refs', hdetect, hcases⟩ := detectPulled_spec hlib (hmax type)
      (hslot.size _ (List.getElem_mem hi)) junk b
      { p with refs := { refs with noise := u.dBFS (t.mStates chan).mNoiseLev } }
    have hpull : pullRadioVector u t mNoises junk chan b =
        some { p with bits := bits, refs := refs', deleted := [b] } := by
      simp only [pullRadioVector, htype, hd, hburst, hlevel, if_neg hpath, if_neg hoff,
        if_neg hidle, Option.bind_eq_bind, Option.bind_some]
      exact hdetect
    refine ⟨type, _, htype, hpull, rfl, fun h => absurd h (not_or.mpr ⟨hoff, hidle⟩),
      fun h => absurd h hidle, fun _ => ⟨rfl, rfl⟩, fun soft hsoft => ?_⟩
    have hsoft' : bits = some soft := hsoft
    rcases hcases with ⟨hbits, -, -⟩ | ⟨-, soft', hbits, k, ⟨hrefs', hlow, hhigh⟩, hlen⟩
    · rw [hbits] at hsoft'
      cases hsoft'
    · rw [hbits, Option.some_inj] at hsoft'
      subst hsoft'
      rw [hrefs']
      exact ⟨rfl, rfl, rfl, ⟨k, rfl, hlow, hhigh⟩, hlen⟩

/-- A burst that the search finds on every path has soft bits. -/
theorem pullRadioVector_found (hlib : u.lib = Receiver.setup f v (convolveInit sse3))
    (hmax : ∀ type, MaxSearch (t.maxToa type)) {b : RxVector} (hslot : b.Slot u.mSPSRx)
    {mNoises : NoiseVector ℚ} {junk : UplinkJunk} {type : CorrType}
    (htype : t.burstType b.mTime chan = some type) (hoff : type ≠ .OFF) (hidle : type ≠ .IDLE)
    (hfound : ∀ x ∈ b.vectors, ∃ r, u.lib.detectAnyBurst x (u32 t.mTSC).toNat BURST_THRESH u.mSPSRx
      type junk.amp junk.toa (t.maxToa type) = some r ∧ 0 < r.rc) {p : Pulled}
    (hp : pullRadioVector u t mNoises junk chan b = some p) : p.bits ≠ none := by
  obtain ⟨d, i, hd, hindex, hi, -⟩ := selectDiversity_spec hslot.paths hslot.size
  have hburst : b.vectors[d.max_i.toNat]? = some b.vectors[i] := by
    rw [hindex, Int.toNat_natCast, List.getElem?_eq_getElem hi]
  simp only [pullRadioVector, htype, hd, hburst, if_neg (show ¬ d.max_i < 0 by omega), if_neg hoff,
    if_neg hidle, Option.bind_eq_bind, Option.bind_some] at hp
  obtain ⟨bits, refs, hdetect, hcases⟩ := detectPulled_spec hlib (hmax type)
    (hslot.size _ (List.getElem_mem hi)) junk b _
  obtain rfl := Option.some.inj (hdetect.symm.trans hp)
  rcases hcases with ⟨-, -, hnone⟩ | ⟨-, soft, hsoft, -⟩
  · obtain ⟨r, hr, hrc⟩ := hfound _ (List.getElem_mem hi)
    exact absurd (hnone r hr) (not_le.mpr hrc)
  · exact fun h => Option.some_ne_none soft (hsoft.symm.trans h)

end Pull

/-! ## The invariant -/

section Invariant

variable {u : UplinkSetup} {f : FloatValues ℚ} {v : ReceiveValues ℚ} {sse3 : Bool}
  {R : RadioCalls ρ n} {s : Uplink n ρ Q}

/-- The timeslot and the frame of a datagram. -/
def stamp (msg : List UInt8) : ℤ × ℤ :=
  ((ReceiveData.ofMessage msg).timeslot, (ReceiveData.ofMessage msg).frame)

/-- A burst has been handled as its type asks for. -/
structure HandledBurst.Right (h : HandledBurst) : Prop where
  silent : h.type = .OFF ∨ h.type = .IDLE → h.datagram = none
  time : ∀ msg, h.datagram = some msg → stamp msg = (h.burst.mTime.mTN, h.burst.mTime.mFN)
  soft : ∀ msg, h.datagram = some msg → (ReceiveData.ofMessage msg).soft.length = 148 ∨
    (ReceiveData.ofMessage msg).soft.length = 444 ∧ h.type = .EDGE

/-- The levels of the idle bursts among those handled. -/
def idleLevels (u : UplinkSetup) (log : List HandledBurst) : List ℚ :=
  (log.filter fun h => h.type = .IDLE).map fun h => u.level h.burst

/-- The delay limits are such that the places of a search are exact. -/
def Limits (t : Transceiver n Q) : Prop := ∀ type, MaxSearch (t.maxToa type)

/-- What holds of a channel that has been given the bursts `received`. -/
structure ChannelInv (u : UplinkSetup) (received fifo : List RxVector) (mNoises : NoiseVector ℚ)
    (mNoiseLev : ℚ) (log : List HandledBurst) (dropped : List RxVector) : Prop where
  slots : ∀ b ∈ fifo, b.Slot u.mSPSRx
  bounded : fifo.length ≤ 32
  order : (log.map HandledBurst.burst ++ fifo).Sublist received
  once : (log.map HandledBurst.burst ++ fifo ++ dropped).Perm received
  noises : mNoises = (NoiseVector.new NOISE_CNT).insertAll (idleLevels u log)
  level : mNoiseLev = mNoises.avg
  right : ∀ h ∈ log, h.Right

/-- **The invariant.** -/
structure UplinkInv (u : UplinkSetup) (received : Fin n → List RxVector) (s : Uplink n ρ Q) :
    Prop where
  limits : Limits s.trx
  channel : ∀ i, ChannelInv u (received i) (s.mReceiveFIFO i) (s.mNoises i)
    (s.trx.mStates i).mNoiseLev (s.log i) (s.dropped i)

/-- The bursts that an event brings. -/
def UplinkEvent.received (i : Fin n) : UplinkEvent n → List RxVector
  | .receive chan burst => if chan = i then [burst] else []
  | _ => []

/-- What comes from the radio interface is a slot, and the delay limits that are set are those of an
exact search. -/
def UplinkEvent.Admissible (u : UplinkSetup) : UplinkEvent n → Prop
  | .receive _ burst => burst.Slot u.mSPSRx
  | .drive _ _ => True
  | .control e => ∀ type params, recognised e.msg = some (limitCommand type, params) →
      MaxSearch (argument e.junk (limitCommand type) params 0)

section Channel

variable {received fifo : List RxVector} {mNoises : NoiseVector ℚ} {mNoiseLev : ℚ}
  {log : List HandledBurst} {dropped : List RxVector} {b : RxVector}

/-- A burst is queued. -/
theorem ChannelInv.write (h : ChannelInv u received fifo mNoises mNoiseLev log dropped)
    (hb : b.Slot u.mSPSRx) (hroom : fifo.length < 32) :
    ChannelInv u (received ++ [b]) (fifo ++ [b]) mNoises mNoiseLev log dropped where
  slots b' hb' := by
    rcases List.mem_append.mp hb' with hold | hnew
    · exact h.slots b' hold
    · rw [List.mem_singleton.mp hnew]
      exact hb
  bounded := by
    rw [List.length_append, List.length_singleton]
    omega
  order := by
    rw [← List.append_assoc]
    exact h.order.append (List.Sublist.refl [b])
  once := by
    have hswap : (log.map HandledBurst.burst ++ (fifo ++ [b]) ++ dropped).Perm
        (log.map HandledBurst.burst ++ fifo ++ dropped ++ [b]) := by
      simp only [List.append_assoc]
      exact (List.perm_append_comm.append_left _).append_left _
    exact hswap.trans (h.once.append_right [b])
  noises := h.noises
  level := h.level
  right := h.right

/-- A burst is dropped. -/
theorem ChannelInv.drop (h : ChannelInv u received fifo mNoises mNoiseLev log dropped) :
    ChannelInv u (received ++ [b]) fifo mNoises mNoiseLev log (dropped ++ [b]) :=
  { h with
    order := h.order.trans (List.sublist_append_left received [b])
    once := by
      rw [← List.append_assoc]
      exact h.once.append_right [b] }

/-- A burst is handled. -/
theorem ChannelInv.handle (h : ChannelInv u received (b :: fifo) mNoises mNoiseLev log dropped)
    {t : Transceiver n Q} {chan : Fin n} {type : CorrType} {p : Pulled}
    (hlevel : (t.mStates chan).mNoiseLev = mNoiseLev) (hp : PullsAs u t mNoises chan b type p)
    {datagram : Option (List UInt8)} (hright : HandledBurst.Right ⟨b, type, datagram⟩) :
    ChannelInv u received fifo p.mNoises p.mNoiseLev (log ++ [⟨b, type, datagram⟩]) dropped where
  slots b' hb' := h.slots b' (List.mem_cons_of_mem b hb')
  bounded := (Nat.le_succ _).trans h.bounded
  order := by
    rw [List.map_append, List.append_assoc]
    exact h.order
  once := by
    rw [List.map_append, List.append_assoc _ _ fifo]
    exact h.once
  noises := by
    by_cases hidle : type = .IDLE
    · have hlevels : idleLevels u (log ++ [⟨b, type, datagram⟩]) = idleLevels u log ++ [u.level b] := by
        simp [idleLevels, List.filter_append, hidle]
      rw [(hp.idle hidle).1, hlevels, h.noises, NoiseVector.insertAll, NoiseVector.insertAll,
        List.foldl_append]
      rfl
    · have hlevels : idleLevels u (log ++ [⟨b, type, datagram⟩]) = idleLevels u log := by
        simp [idleLevels, List.filter_append, hidle]
      rw [(hp.frame hidle).1, hlevels, h.noises]
  level := by
    by_cases hidle : type = .IDLE
    · rw [(hp.idle hidle).1, (hp.idle hidle).2]
    · rw [(hp.frame hidle).1, (hp.frame hidle).2, hlevel, h.level]
  right := Run.forall_mem_log h.right hright

end Channel

/-- A burst that comes in is queued, or dropped if there are 32 in the queue. -/
theorem receive_inv {received : Fin n → List RxVector} (h : UplinkInv u received s) {chan : Fin n}
    {burst : RxVector} (hslot : burst.Slot u.mSPSRx) :
    UplinkInv u (fun i => received i ++ (UplinkEvent.receive chan burst).received i)
      (s.receive chan burst) := by
  by_cases hroom : (s.mReceiveFIFO chan).length < 32
  · rw [Uplink.receive, if_pos hroom]
    refine ⟨h.limits, fun i => ?_⟩
    by_cases hi : chan = i
    · subst hi
      simp only [UplinkEvent.received, if_true, Function.update_self]
      exact (h.channel chan).write hslot hroom
    · simp only [UplinkEvent.received, if_neg hi, List.append_nil, Function.update_of_ne (Ne.symm hi)]
      exact h.channel i
  · rw [Uplink.receive, if_neg hroom]
    refine ⟨h.limits, fun i => ?_⟩
    by_cases hi : chan = i
    · subst hi
      simp only [UplinkEvent.received, if_true, Function.update_self]
      exact (h.channel chan).drop
    · simp only [UplinkEvent.received, if_neg hi, List.append_nil, Function.update_of_ne (Ne.symm hi)]
      exact h.channel i

/-- The datagram of a burst that has been pulled. -/
theorem sendPulled_right {b : RxVector} {type : CorrType} {p : Pulled} {t : Transceiver n Q}
    {mNoises : NoiseVector ℚ} {chan : Fin n} (hp : PullsAs u t mNoises chan b type p)
    (hvalid : b.mTime.Valid) (junk : UplinkJunk) :
    ∃ datagram, sendPulled u junk p = some datagram ∧ HandledBurst.Right ⟨b, type, datagram⟩ := by
  cases hbits : p.bits with
  | none =>
    refine ⟨none, by rw [sendPulled, hbits], fun _ => rfl, fun msg h => ?_, fun msg h => ?_⟩
    · cases h
    · cases h
  | some soft =>
    obtain ⟨htime, -, -, -, hlen⟩ := hp.soft soft hbits
    set rx : RxBurst := ⟨p.refs.wTime, soft, p.refs.RSSI, p.refs.timingOffset⟩ with hrx
    have hbound : rx.nbits = if soft.length = 444 then 444 else 148 := rfl
    have henough : rx.nbits ≤ rx.softBits.length := by
      rw [hbound]
      split_ifs with h444
      · exact h444.ge
      · show 148 ≤ soft.length
        omega
    have hrxvalid : rx.burstTime.Valid := by
      change p.refs.wTime.Valid
      rw [htime]
      exact hvalid
    obtain ⟨msg, hmsg, hfields⟩ := RxBurst.fields hrxvalid henough junk.burstString u.rssiOffset
    have hsend : sendPulled u junk p = some (some msg) := by
      rw [sendPulled, hbits]
      exact congrArg (Option.map some) hmsg
    refine ⟨some msg, hsend, fun h => ?_, fun msg' h => ?_, fun msg' h => ?_⟩
    · rw [hp.silent h] at hbits
      cases hbits
    · obtain rfl := Option.some.inj h
      obtain ⟨⟨hfn, -⟩, htn, -⟩ := hvalid
      rw [stamp, hfields, show rx.burstTime = b.mTime from htime]
      exact Prod.ext (Int.toNat_of_nonneg htn) (Int.toNat_of_nonneg hfn)
    · obtain rfl := Option.some.inj h
      rw [hfields, List.length_map, List.length_range, hbound]
      split_ifs with h444
      · refine Or.inr ⟨rfl, ?_⟩
        rcases hlen with ⟨-, hle⟩ | ⟨-, hedge⟩
        · omega
        · exact hedge
      · exact Or.inl rfl

/-- **A turn of the thread of a channel** that has a burst. -/
theorem drive_handles (hlib : u.lib = Receiver.setup f v (convolveInit sse3))
    (hlimits : Limits s.trx) {chan : Fin n} {b : RxVector} {rest : List RxVector}
    (hfifo : s.mReceiveFIFO chan = b :: rest) (hslot : b.Slot u.mSPSRx) (junk : UplinkJunk) :
    ∃ type p datagram, s.trx.burstType b.mTime chan = some type ∧
      pullRadioVector u s.trx (s.mNoises chan) junk chan b = some p ∧
      PullsAs u s.trx (s.mNoises chan) chan b type p ∧ sendPulled u junk p = some datagram ∧
      HandledBurst.Right ⟨b, type, datagram⟩ ∧
      s.drive u chan junk = some (s.handled chan rest type p datagram) := by
  obtain ⟨type, p, htype, hpull, hp⟩ : ∃ type p, s.trx.burstType b.mTime chan = some type ∧
      pullRadioVector u s.trx (s.mNoises chan) junk chan b = some p ∧
      PullsAs u s.trx (s.mNoises chan) chan b type p :=
    pullRadioVector_spec hlib hlimits hslot (s.mNoises chan) junk
  obtain ⟨datagram, hsend, hright⟩ := sendPulled_right hp hslot.valid junk
  refine ⟨type, p, datagram, htype, hpull, hp, hsend, hright, ?_⟩
  simp only [Uplink.drive, hfifo, htype, hpull, hsend, Option.bind_eq_bind, Option.bind_some]

/-- A turn keeps the invariant. -/
theorem drive_inv (hlib : u.lib = Receiver.setup f v (convolveInit sse3))
    {received : Fin n → List RxVector} (h : UplinkInv u received s) (chan : Fin n)
    (junk : UplinkJunk) : ∃ s', s.drive u chan junk = some s' ∧ UplinkInv u received s' := by
  cases hfifo : s.mReceiveFIFO chan with
  | nil => exact ⟨s, by rw [Uplink.drive, hfifo], h⟩
  | cons b rest =>
    have hchannel := h.channel chan
    rw [hfifo] at hchannel
    obtain ⟨type, p, datagram, -, -, hp, -, hright, hdrive⟩ :=
      drive_handles hlib h.limits hfifo (hchannel.slots b List.mem_cons_self) junk
    refine ⟨_, hdrive, h.limits, fun i => ?_⟩
    simp only [Uplink.handled, hp.deleted, List.map_cons, List.map_nil,
      Transceiver.updateState_mStates]
    by_cases hi : i = chan
    · subst hi
      simp only [Function.update_self]
      exact hchannel.handle rfl hp hright
    · simp only [Function.update_of_ne hi]
      exact h.channel i

section Control

variable (R)

theorem updateState_mNoiseLev {t : Transceiver n Q} {chan : Fin n} {s : TransceiverState V}
    (h : s.mNoiseLev = (t.mStates chan).mNoiseLev) (i : Fin n) :
    ((t.updateState chan s).mStates i).mNoiseLev = (t.mStates i).mNoiseLev := by
  rw [Transceiver.updateState_mStates]
  by_cases hi : i = chan
  · subst hi
    rw [Function.update_self, h]
  · rw [Function.update_of_ne hi]

/-- A control command leaves the noise levels alone. -/
theorem handle_mNoiseLev (junk : ℕ → ℤ) (t : Transceiver n Q) (r : ρ) (chan i : Fin n) (c : Command)
    (params : List Char) :
    ((handle R junk t r chan c params).trx.mStates i).mNoiseLev = (t.mStates i).mNoiseLev := by
  cases c with
  | POWEROFF =>
    obtain ⟨_, _, heq⟩ := t.stop_writes R r
    rw [handle, heq]
  | POWERON =>
    obtain ⟨_, _, _, _, _, _, heq⟩ := handle_poweron_trx R junk t r chan params
    rw [heq]
  | RXTUNE => rw [handle_rxtune_trx]
  | TXTUNE => rw [handle_txtune_trx]
  | NOISELEV => rw [handle_noiselev_trx]
  | HANDOVER =>
    simp only [handle]
    split_ifs <;> rfl
  | NOHANDOVER =>
    simp only [handle]
    split_ifs <;> rfl
  | SETTSC =>
    simp only [handle]
    split_ifs <;> rfl
  | SETPOWER => exact updateState_mNoiseLev (by rfl) i
  | ADJPOWER => exact updateState_mNoiseLev (by rfl) i
  | SETSLOT =>
    simp only [handle]
    split_ifs
    · rfl
    · refine updateState_mNoiseLev ?_ i
      simp only [TransceiverState.setSlot, TransceiverState.setModulus]
      split <;> rfl
  | _ => rfl

theorem controlStep_mNoiseLev (c : Transceiver n Q × ρ) (e : ControlEvent n) (i : Fin n) :
    ((controlStep R c e).1.mStates i).mNoiseLev = (c.1.mStates i).mNoiseLev := by
  unfold controlStep
  cases hrec : recognised e.msg with
  | none => rw [driveControl_of_unrecognised R e.junk c.1 c.2 e.chan hrec]
  | some p =>
    rw [driveControl_of_recognised R e.junk c.1 c.2 e.chan hrec]
    exact handle_mNoiseLev R e.junk c.1 c.2 e.chan i p.1 p.2

/-- A control command keeps the delay limits, or sets one to its number. -/
theorem controlStep_limits {c : Transceiver n Q × ρ} (h : Limits c.1) {e : ControlEvent n}
    (he : (UplinkEvent.control e).Admissible u) : Limits (controlStep R c e).1 := by
  intro type
  by_cases hother : OtherCommand type e
  · rw [maxToa_controlStep R c hother]
    exact h type
  · obtain ⟨params, hrec⟩ : ∃ params, recognised e.msg = some (limitCommand type, params) := by
      by_contra hnone
      exact hother fun params hrec => hnone ⟨params, hrec⟩
    obtain ⟨hlow, hhigh⟩ := he type params hrec
    have hstored := (handle_limitCommand R e.junk c.1 c.2 e.chan type params).2
    rw [u32_eq_self hlow (by omega)] at hstored
    unfold controlStep
    rw [driveControl_of_recognised R e.junk c.1 c.2 e.chan hrec]
    exact ⟨hlow.trans hstored.ge, hstored.le.trans hhigh⟩

end Control

end Invariant

/-! ## Runs -/

section Runs

variable {u : UplinkSetup} {f : FloatValues ℚ} {v : ReceiveValues ℚ} {sse3 : Bool}

/-- The system before the first burst. -/
def Uplink.start (trx : Transceiver n Q) (radio : ρ) : Uplink n ρ Q where
  trx := trx
  radio := radio
  mReceiveFIFO _ := []
  mNoises _ := NoiseVector.new NOISE_CNT
  log _ := []
  dropped _ := []

/-- **One event** keeps the invariant, and no read is outside of a vector or a table. -/
theorem uplinkStep_inv (hlib : u.lib = Receiver.setup f v (convolveInit sse3)) (R : RadioCalls ρ n)
    {received : Fin n → List RxVector} {s : Uplink n ρ Q} (h : UplinkInv u received s)
    {e : UplinkEvent n} (he : e.Admissible u) :
    ∃ s', uplinkStep u R s e = some s' ∧ UplinkInv u (fun i => received i ++ e.received i) s' := by
  cases e with
  | receive chan burst => exact ⟨_, rfl, receive_inv h he⟩
  | drive chan junk =>
    obtain ⟨s', hs', hinv⟩ := drive_inv hlib h chan junk
    refine ⟨s', hs', ?_⟩
    simpa only [UplinkEvent.received, List.append_nil] using hinv
  | control e =>
    refine ⟨_, rfl, controlStep_limits R h.limits he, fun i => ?_⟩
    simp only [UplinkEvent.received, List.append_nil, controlStep_mNoiseLev]
    exact h.channel i

theorem uplink_exec (hlib : u.lib = Receiver.setup f v (convolveInit sse3)) (R : RadioCalls ρ n)
    {events : List (UplinkEvent n)} (hadm : ∀ e ∈ events, e.Admissible u)
    {received : Fin n → List RxVector} {s : Uplink n ρ Q} (h : UplinkInv u received s) :
    ∃ s', events.foldlM (uplinkStep u R) s = some s' ∧
      UplinkInv u (fun i => received i ++ events.flatMap (UplinkEvent.received i)) s' := by
  induction events generalizing s received with
  | nil => exact ⟨s, rfl, by simpa only [List.flatMap_nil, List.append_nil] using h⟩
  | cons e events ih =>
    obtain ⟨s₁, hs₁, h₁⟩ := uplinkStep_inv hlib R h (hadm e List.mem_cons_self)
    obtain ⟨s', hs', h'⟩ := ih (fun e' he' => hadm e' (List.mem_cons_of_mem e he')) h₁
    refine ⟨s', ?_, by simpa only [List.flatMap_cons, List.append_assoc] using h'⟩
    rw [List.foldlM_cons, hs₁]
    exact hs'

theorem uplink_start {trx : Transceiver n Q} (hlimits : Limits trx)
    (hlevel : ∀ i, (trx.mStates i).mNoiseLev = 0) (radio : ρ) :
    UplinkInv u (fun _ => []) (Uplink.start trx radio) where
  limits := hlimits
  channel i :=
    { slots := fun b hb => by cases hb
      bounded := Nat.zero_le _
      order := List.Sublist.refl []
      once := List.Perm.refl []
      noises := rfl
      level := by
        rw [show (Uplink.start trx radio).trx.mStates i = trx.mStates i from rfl, hlevel,
          NoiseVector.avg_eq]
        simp [Uplink.start, NoiseVector.new]
      right := fun h hh => by cases hh }

/-- The datagrams of a channel have the times of bursts that have been handled, in their order. -/
theorem stamps_sublist {log : List HandledBurst} (h : ∀ x ∈ log, x.Right) :
    ((log.filterMap HandledBurst.datagram).map stamp).Sublist
      (log.map fun x => (x.burst.mTime.mTN, x.burst.mTime.mFN)) := by
  induction log with
  | nil => exact List.Sublist.refl []
  | cons x log ih =>
    have hrest := ih fun y hy => h y (List.mem_cons_of_mem x hy)
    cases hdatagram : x.datagram with
    | none =>
      rw [List.filterMap_cons_none hdatagram, List.map_cons]
      exact hrest.cons _
    | some msg =>
      rw [List.filterMap_cons_some hdatagram, List.map_cons, List.map_cons,
        (h x List.mem_cons_self).time msg hdatagram]
      exact hrest.cons_cons _

/-- The average of the noise vector after some levels. -/
theorem avg_insertAll (vals : List ℚ) : ((NoiseVector.new NOISE_CNT).insertAll vals).avg =
    (vals.rtake NOISE_CNT).sum / NOISE_CNT := by
  have hpos : 0 < (NoiseVector.new NOISE_CNT : NoiseVector ℚ).size := by decide
  have hring : 0 < ((List.replicate NOISE_CNT (0 : ℚ), 0) : List ℚ × ℕ).1.length := hpos
  obtain ⟨hlen, -, -⟩ := Window.pushAll_rotate hring (Nat.zero_le _) vals
  rw [List.length_replicate] at hlen
  have hlast : vals.rtake (min vals.length NOISE_CNT) = vals.rtake NOISE_CNT := by
    rw [List.rtake, List.rtake]
    congr 1
    omega
  rw [NoiseVector.avg_eq, NoiseVector.insertAll_eq hpos, ← hlast,
    ← Window.sum_pushAll (show 0 < NOISE_CNT by decide) vals]
  exact congrArg (fun size : ℕ =>
    (Window.pushAll (List.replicate NOISE_CNT (0 : ℚ), 0) vals).1.sum / size) hlen

/-- **The uplink over whole runs.**  Bursts come in, threads take them, and control commands arrive in
any order.  No search and no demodulator ever reads outside of a vector or a table.  On each channel
every burst that has come in is handled, queued or dropped, and just once; those handled and queued
are in the order in which they came in, and no queue has more than 32.  The datagrams have the times
of bursts that came in, in their order and none twice; a slot that is off or idle has none; and
the noise level is the sum of the last 20 idle levels divided by 20. -/
theorem uplink_run (hlib : u.lib = Receiver.setup f v (convolveInit sse3)) (R : RadioCalls ρ n)
    {trx : Transceiver n Q} (hlimits : Limits trx) (hlevel : ∀ i, (trx.mStates i).mNoiseLev = 0)
    (radio : ρ) {events : List (UplinkEvent n)} (hadm : ∀ e ∈ events, e.Admissible u) :
    ∃ s, events.foldlM (uplinkStep u R) (Uplink.start trx radio) = some s ∧ ∀ i,
      let arrived := events.flatMap (UplinkEvent.received i)
      ((s.log i).map HandledBurst.burst ++ s.mReceiveFIFO i).Sublist arrived ∧
      ((s.log i).map HandledBurst.burst ++ s.mReceiveFIFO i ++ s.dropped i).Perm arrived ∧
      (s.mReceiveFIFO i).length ≤ 32 ∧
      (((s.log i).filterMap HandledBurst.datagram).map stamp).Sublist
        (arrived.map fun b => (b.mTime.mTN, b.mTime.mFN)) ∧
      (∀ h ∈ s.log i, h.Right) ∧
      (s.trx.mStates i).mNoiseLev = ((idleLevels u (s.log i)).rtake NOISE_CNT).sum / NOISE_CNT := by
  obtain ⟨s, hs, hinv⟩ := uplink_exec hlib R hadm (uplink_start hlimits hlevel radio)
  refine ⟨s, hs, fun i => ?_⟩
  have h := hinv.channel i
  simp only [List.nil_append] at h
  refine ⟨h.order, h.once, h.bounded, ?_, h.right, by rw [h.level, h.noises, avg_insertAll]⟩
  have hhandled := (List.sublist_append_left _ _).trans h.order
  refine (stamps_sublist h.right).trans ?_
  have hmap := hhandled.map fun b : RxVector => (b.mTime.mTN, b.mTime.mFN)
  rwa [List.map_map] at hmap

/-- Interpolation that is right at the samples, and a square root. -/
def plainReceive : ReceiveValues ℚ :=
  { quarterTurnsBack with
    sinc := fun x => if x = 0 then 1 else 0
    sqrt := Rat.sqrt }

/-- A transceiver at one sample a symbol. -/
def plainSetup : UplinkSetup :=
  ⟨Receiver.setup quarterTurns plainReceive (convolveInit true), fun _ => 0, 1, 0⟩

/-- Nothing in the variables. -/
def plainJunk : UplinkJunk := ⟨⟨⟨0, 0⟩, 0, false, 0, 0⟩, (0, 0), 0, fun _ => 0⟩

/-- A normal burst as it arrives, in time. -/
def normalBurst : SignalVector ℚ :=
  { (.new 157 : SignalVector ℚ) with
    data := fun j =>
      let s := if 0 ≤ j ∧ j < 296 then
        cmul (Loop.loadPair quarterTurns.GMSKRotation1 (2 * (j / 2)))
          (SigProcLib.symbol ((SigProcLib.normalBits id 0).getD (j / 2).toNat 0))
      else 0
      if j % 2 = 0 then s.1 else s.2 }

/-- A burst of nothing but noise, of level three. -/
def noiseBurst : SignalVector ℚ :=
  { (.new 156 : SignalVector ℚ) with data := fun j => if j % 2 = 0 then 3 else 0 }

/-- A burst in a frame of an SDCCH/8, one in an idle frame, and one in a slot that is off. -/
def threeBursts (chan : Fin 1) : List (UplinkEvent 1) :=
  [.receive chan ⟨⟨11, 0⟩, [normalBurst]⟩, .receive chan ⟨⟨12, 0⟩, [noiseBurst]⟩,
    .receive chan ⟨⟨12, 1⟩, [.new 156]⟩, .control ⟨chan, "CMD SETSLOT 0 7".toList, fun _ => 0⟩,
    .drive chan plainJunk, .drive chan plainJunk, .drive chan plainJunk]

/-- It is found at sample 6 of its correlation. -/
theorem normalBurst_found (amp : ℚ × ℚ) (toa : ℚ) :
    ∃ r, plainSetup.lib.detectAnyBurst normalBurst 0 BURST_THRESH 1 .TSC amp toa (0 : ℕ) = some r ∧
      r.rc = 1 := by
  have hpeak : LonePeak (correlation normalBurst (midambleTap quarterTurns 0) 75) 12 6 :=
    ⟨by decide, by decide, ⟨by decide, by decide +kernel, by decide +kernel, by decide +kernel⟩,
      by decide +kernel⟩
  exact detectAnyBurst_found quarterTurns plainReceive true (by decide) (by decide) (by decide)
    (by decide) hpeak (by decide +kernel) amp toa

/-- What a channel looks for does not depend on its noise level. -/
theorem burstType_mNoiseLev (t : Transceiver n Q) (chan i : Fin n) (x : ℚ) (time : Time) :
    (t.updateState chan { t.mStates chan with mNoiseLev := x }).burstType time i =
      t.burstType time i := by
  have hchan : ((t.updateState chan { t.mStates chan with mNoiseLev := x }).mStates i).chanType =
      (t.mStates i).chanType := by
    rw [Transceiver.updateState_mStates]
    by_cases hi : i = chan
    · rw [hi, Function.update_self]
    · rw [Function.update_of_ne hi]
  simp only [Transceiver.burstType, expectedCorrType, hchan]
  rfl

/-- Nor does it on what has been handled. -/
theorem handled_burstType {s : Uplink n ρ Q} {chan : Fin n} {rest : List RxVector} {type : CorrType}
    {p : Pulled} {datagram : Option (List UInt8)} (time : Time) (i : Fin n) :
    (s.handled chan rest type p datagram).trx.burstType time i = s.trx.burstType time i :=
  burstType_mNoiseLev _ _ _ _ _

/-- What the log of a channel holds after a turn. -/
theorem handled_log {s : Uplink n ρ Q} {chan : Fin n} {b : RxVector} {rest : List RxVector}
    {type : CorrType} {p : Pulled} (hp : p.deleted = [b]) (datagram : Option (List UInt8)) :
    (s.handled chan rest type p datagram).log chan = s.log chan ++ [⟨b, type, datagram⟩] := by
  simp [Uplink.handled, hp]

/-- The first gives a datagram with its time, and the second the noise level. -/
theorem uplink_run_three :
    ∃ s msg, (threeBursts 0).foldlM (uplinkStep plainSetup (obedientRadio 1))
        (Uplink.start (newTrx 1) ()) = some s ∧
      (s.log 0).map (fun h => (h.type, h.datagram)) =
        [(.TSC, some msg), (.IDLE, none), (.OFF, none)] ∧
      stamp msg = (0, 11) ∧ (s.trx.mStates 0).mNoiseLev = 3 / 20 := by
  have hlimits : Limits (newTrx 1) := by
    intro type
    cases type <;> exact ⟨by decide, by decide⟩
  have hadm : ∀ e ∈ threeBursts 0, e.Admissible plainSetup := by
    intro e he
    simp only [threeBursts, List.mem_cons, List.not_mem_nil, or_false] at he
    rcases he with rfl | rfl | rfl | rfl | rfl | rfl | rfl
    · exact ⟨⟨by decide, by decide⟩, by simp, by
        simp [SlotSize, plainSetup, normalBurst, SignalVector.new, SignalVector.withHead]⟩
    · exact ⟨⟨by decide, by decide⟩, by simp, by
        simp [SlotSize, plainSetup, noiseBurst, SignalVector.new, SignalVector.withHead]⟩
    · exact ⟨⟨by decide, by decide⟩, by simp, by
        simp [SlotSize, plainSetup, SignalVector.new, SignalVector.withHead]⟩
    · intro type params hrec
      have hslot : recognised "CMD SETSLOT 0 7".toList = some (.SETSLOT, "0 7".toList) := by decide
      rw [hslot, Option.some_inj, Prod.mk.injEq] at hrec
      cases type <;> cases hrec.1
    · trivial
    · trivial
    · trivial
  have hlib : plainSetup.lib = setup quarterTurns plainReceive (convolveInit true) := rfl
  obtain ⟨s, hs, h⟩ := uplink_run hlib (obedientRadio 1) hlimits (by decide +kernel) () hadm
  obtain ⟨-, -, -, -, hright, hlevel⟩ := h 0
  -- the state before the first turn
  set t := (controlStep (obedientRadio 1) (newTrx 1, ())
    ⟨0, "CMD SETSLOT 0 7".toList, fun _ => 0⟩).1 with ht
  obtain ⟨s₁, hs₁, hfifo₁, hlog₁, ht₁⟩ :
      ∃ s₁ : Uplink 1 Unit (listQueue (pointerCompare (V := Unit))),
      ((threeBursts 0).take 4).foldlM (uplinkStep plainSetup (obedientRadio 1))
        (Uplink.start (newTrx 1) ()) = some s₁ ∧
      s₁.mReceiveFIFO 0 = [⟨⟨11, 0⟩, [normalBurst]⟩, ⟨⟨12, 0⟩, [noiseBurst]⟩,
        ⟨⟨12, 1⟩, [.new 156]⟩] ∧
      s₁.log 0 = [] ∧ s₁.trx = t :=
    ⟨_, rfl, rfl, rfl, rfl⟩
  have hlimits₁ : Limits s₁.trx := by
    rw [ht₁]
    intro type
    cases type <;> exact ⟨by decide +kernel, by decide +kernel⟩
  have htsc : t.burstType ⟨11, 0⟩ 0 = some .TSC := by decide +kernel
  have hidle : t.burstType ⟨12, 0⟩ 0 = some .IDLE := by decide +kernel
  have hoff : t.burstType ⟨12, 1⟩ 0 = some .OFF := by decide +kernel
  have hmTSC : (u32 t.mTSC).toNat = 0 := by decide +kernel
  have hmax : t.maxToa .TSC = (0 : ℕ) := by decide +kernel
  have hslot₁ : RxVector.Slot 1 ⟨⟨11, 0⟩, [normalBurst]⟩ := hadm (.receive 0 _) List.mem_cons_self
  have hslot₂ : RxVector.Slot 1 ⟨⟨12, 0⟩, [noiseBurst]⟩ :=
    hadm (.receive 0 _) (List.mem_cons_of_mem _ List.mem_cons_self)
  have hslot₃ : RxVector.Slot 1 ⟨⟨12, 1⟩, [.new 156]⟩ :=
    hadm (.receive 0 _) (List.mem_cons_of_mem _ (List.mem_cons_of_mem _ List.mem_cons_self))
  -- the normal burst
  obtain ⟨type, p₁, d₁, htype, hpull, hp₁, hsend, -, hdrive₁⟩ :=
    drive_handles hlib hlimits₁ hfifo₁ hslot₁ plainJunk
  obtain rfl : CorrType.TSC = type := Option.some.inj (htsc.symm.trans (ht₁ ▸ htype))
  have hbits : p₁.bits ≠ none := by
    refine pullRadioVector_found hlib hlimits₁ hslot₁ htype (by decide) (by decide)
      (fun x hx => ?_) hpull
    obtain rfl := List.mem_singleton.mp hx
    obtain ⟨r, hr, hrc⟩ := normalBurst_found plainJunk.amp plainJunk.toa
    exact ⟨r, by rw [ht₁, hmTSC, hmax]; exact hr, by omega⟩
  obtain ⟨msg, rfl⟩ : ∃ msg, d₁ = some msg := by
    obtain ⟨bits, hsome⟩ := Option.ne_none_iff_exists'.mp hbits
    rw [sendPulled, hsome] at hsend
    obtain ⟨msg, -, hmsg⟩ := Option.map_eq_some_iff.mp hsend
    exact ⟨msg, hmsg.symm⟩
  -- the idle frame
  set s₂ := s₁.handled 0 _ .TSC p₁ (some msg) with hs₂
  obtain ⟨type, p₂, d₂, htype, -, hp₂, -, hright₂, hdrive₂⟩ :=
    drive_handles hlib (show Limits s₂.trx from hlimits₁) (Function.update_self ..) hslot₂ plainJunk
  rw [hs₂, handled_burstType, ht₁, hidle, Option.some_inj] at htype
  subst htype
  obtain rfl := hright₂.silent (Or.inr rfl)
  -- the slot that is off
  set s₃ := s₂.handled 0 _ .IDLE p₂ none with hs₃
  obtain ⟨type, p₃, d₃, htype, -, hp₃, -, hright₃, hdrive₃⟩ :=
    drive_handles hlib (show Limits s₃.trx from hlimits₁) (Function.update_self ..) hslot₃ plainJunk
  rw [hs₃, handled_burstType, hs₂, handled_burstType, ht₁, hoff, Option.some_inj] at htype
  subst htype
  obtain rfl := hright₃.silent (Or.inl rfl)
  have hrun : (threeBursts 0).foldlM (uplinkStep plainSetup (obedientRadio 1))
      (Uplink.start (newTrx 1) ()) = some (s₃.handled 0 [] .OFF p₃ none) := by
    rw [← List.take_append_drop 4 (threeBursts 0), List.foldlM_append, hs₁]
    show [.drive 0 plainJunk, .drive 0 plainJunk, .drive 0 plainJunk].foldlM
      (uplinkStep plainSetup (obedientRadio 1)) s₁ = _
    simp only [List.foldlM_cons, List.foldlM_nil, uplinkStep, hdrive₁, hdrive₂, hdrive₃,
      Option.bind_eq_bind, Option.bind_some, Option.pure_def]
  obtain rfl := Option.some.inj (hrun.symm.trans hs)
  have hlog : (s₃.handled 0 [] .OFF p₃ none).log 0 = [⟨⟨⟨11, 0⟩, [normalBurst]⟩, .TSC, some msg⟩,
      ⟨⟨⟨12, 0⟩, [noiseBurst]⟩, .IDLE, none⟩, ⟨⟨⟨12, 1⟩, [.new 156]⟩, .OFF, none⟩] := by
    rw [handled_log hp₃.deleted, hs₃, handled_log hp₂.deleted, hs₂, handled_log hp₁.deleted, hlog₁]
    rfl
  have hnoise : plainSetup.level ⟨⟨12, 0⟩, [noiseBurst]⟩ = 3 := by decide +kernel
  rw [hlog] at hright hlevel
  refine ⟨_, msg, hs, by rw [hlog]; rfl, (hright _ List.mem_cons_self).time msg rfl, ?_⟩
  rw [hlevel]
  simp [idleLevels, hnoise, NOISE_CNT, List.rtake]

end Runs

end Trx
end OsmoTrx
