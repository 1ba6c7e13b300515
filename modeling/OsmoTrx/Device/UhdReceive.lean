import OsmoTrx.Device.SmplBufErrors
import OsmoTrx.Device.UhdAlignment

/-!
# The UHD receiver

`uhd_device::readSamples` of `UHDDevice.cpp`: packets come from the driver until the sample buffer
of the first channel has enough, and then all the buffers are read.  What the driver answers is a
list of packets; a sample of a packet is a sample of each channel.  Times are those of the driver.

* `checkRxMdErr`, `flushRecv`, `readLoop`, `readSamples` — the code.  A call that has not returned
  when there are no more packets is `none`.
* `SmplBuf.map`, `write_map`, `read_map` — the buffer does not look at the samples.
* `UhdReceiver.spread` — the channels of a device with one channel, whose samples are those of all.
* `channels_aligned` — **in every run** the device does with its channels what the device with one
  channel does, whatever errors there are: what it returns on all of them has been received
  together.
-/

namespace OsmoTrx
namespace Device

open Mem

/-! ## The buffer does not look at the samples -/

namespace SmplBuf

variable {α β : Type*}

/-- The buffer with its samples replaced. -/
def map (f : α → β) (b : SmplBuf α) : SmplBuf β := { b with data := fun k => f (b.data k) }

theorem slice_map (f : α → β) (d : ℕ → α) (off len : ℕ) :
    slice (fun k => f (d k)) off len = (slice d off len).map f := by
  simp [slice]

theorem blit_map (f : α → β) (d : ℕ → α) (off : ℕ) (xs : List α) :
    blit (fun k => f (d k)) off (xs.map f) = fun k => f (blit d off xs k) := by
  funext k
  simp only [blit, List.getElem?_map]
  split_ifs
  · rfl
  · cases xs[k - off]? <;> rfl

theorem write_map (f : α → β) (b : SmplBuf α) (xs : List α) (timestamp : ℕ) :
    (b.map f).write (xs.map f) timestamp =
      ((b.write xs timestamp).1, (b.write xs timestamp).2.map f) := by
  have hdata (c : Prop) [Decidable c] (d e : ℕ → α) :
      (if c then fun k => f (d k) else fun k => f (e k)) = fun k => f ((if c then d else e) k) := by
    split_ifs <;> rfl
  have hxs : (xs.map f).length = xs.length := List.length_map f
  unfold write
  by_cases hlen : xs.length = 0 ∨ xs.length ≥ b.bufLen
  · rw [if_pos hlen, if_pos (by rw [hxs]; exact hlen)]
  by_cases hend : add64 timestamp xs.length ≤ b.timeEnd
  · rw [if_neg hlen, if_pos hend, if_neg (by rw [hxs]; exact hlen),
      if_pos (by rw [hxs]; exact hend)]
  · rw [if_neg hlen, if_neg hend, if_neg (by rw [hxs]; exact hlen),
      if_neg (by rw [hxs]; exact hend)]
    simp only [map, hxs, ← List.map_take, ← List.map_drop, blit_map, hdata]
    rfl

theorem read_map (f : α → β) (b : SmplBuf α) (len timestamp : ℕ) :
    (b.map f).read len timestamp = ((b.read len timestamp).1, (b.read len timestamp).2.1.map f,
      (b.read len timestamp).2.2.map f) := by
  unfold read
  by_cases hstart : timestamp < b.timeStart
  · rw [if_pos hstart, if_pos (show timestamp < (b.map f).timeStart from hstart)]
    rfl
  rw [if_neg hstart, if_neg (show ¬ timestamp < (b.map f).timeStart from hstart)]
  by_cases hend : timestamp ≥ b.timeEnd
  · rw [if_pos hend, if_pos (show timestamp ≥ (b.map f).timeEnd from hend)]
    rfl
  rw [if_neg hend, if_neg (show ¬ timestamp ≥ (b.map f).timeEnd from hend)]
  by_cases hlen : len ≥ b.bufLen
  · rw [if_pos hlen, if_pos (show len ≥ (b.map f).bufLen from hlen)]
    rfl
  rw [if_neg hlen, if_neg (show ¬ len ≥ (b.map f).bufLen from hlen)]
  simp only [map, slice_map, ← List.map_append, apply_ite (List.map f)]
  rfl

/-- `avail_smpls`. -/
def availSmpls (b : SmplBuf α) (timestamp : ℕ) : ℤ :=
  if timestamp < b.timeStart then ErrCode.timestamp.value
  else if timestamp ≥ b.timeEnd then 0
  else b.timeEnd - timestamp

end SmplBuf

namespace Uhd

/-! ## The driver -/

/-- `uhd::rx_metadata_t::error_code`. -/
inductive RxErrorCode
  | NONE
  | TIMEOUT
  | LATE_COMMAND
  | BROKEN_CHAIN
  | OVERFLOW
  | ALIGNMENT
  | BAD_PACKET
  deriving DecidableEq, Repr

/-- `uhd::time_spec_t` at the receive rate; ticks are a `TIMESTAMP`. -/
structure TimeSpecs (S : Type) where
  to_ticks : S → ℕ
  from_ticks : ℕ → S
  lt : S → S → Bool
  to_ticks_lt : ∀ s, to_ticks s < 2 ^ 64

/-- What `recv` answers: samples of all channels, and `uhd::rx_metadata_t`. -/
structure RxPacket (n : ℕ) (S α : Type) where
  samples : List (Fin (n + 1) → α)
  error_code : RxErrorCode
  has_time_spec : Bool
  time_spec : S

/-- The part of `uhd_device` that receives. -/
structure UhdReceiver (n : ℕ) (S α : Type) where
  tx : UhdDevice
  rx_spp : ℕ
  ts_offset : ℕ
  ts_initial : ℕ
  prev_ts : S
  rx_pkt_cnt : ℕ
  rx_buffers : Fin (n + 1) → SmplBuf α

variable {n : ℕ} {S α : Type}

/-! ## The code -/

/-- The codes of `uhd_device::err_code`, or the time that `check_rx_md_err` leaves in the
metadata. -/
inductive RxCheck (S : Type)
  | ERROR_UNRECOVERABLE
  | ERROR_TIMEOUT
  | ERROR_TIMING
  | ERROR_UNHANDLED
  | passed (time_spec : S)

/-- `check_rx_md_err`. -/
def checkRxMdErr (T : TimeSpecs S) (d : UhdReceiver n S α) (p : RxPacket n S α) : RxCheck S :=
  if p.samples.length = 0 then
    if p.error_code = .TIMEOUT then .ERROR_TIMEOUT else .ERROR_UNHANDLED
  else if !p.has_time_spec then .ERROR_UNRECOVERABLE
  else if T.lt p.time_spec d.prev_ts then .ERROR_TIMING
  else
    let ticks := T.to_ticks p.time_spec
    if sub64 ticks (T.to_ticks d.prev_ts) = sub64 d.rx_spp 1 then
      .passed (T.from_ticks (add64 ticks 1))
    else .passed p.time_spec

/-- `flush_recv`: the result, `ts_initial` and the packets that follow. -/
def flushRecv (T : TimeSpecs S) :
    List (RxPacket n S α) → ℕ → ℕ → Option (Bool × ℕ × List (RxPacket n S α))
  | [], num_pkts, ts_initial =>
    if ts_initial ≠ 0 ∧ num_pkts = 0 then some (true, ts_initial, []) else none
  | p :: packets, num_pkts, ts_initial =>
    if ts_initial ≠ 0 ∧ num_pkts = 0 then some (true, ts_initial, p :: packets)
    else
      let num_pkts := if ts_initial = 0 then num_pkts else num_pkts - 1
      if p.samples.length = 0 then
        if p.error_code = .TIMEOUT then some (false, ts_initial, packets)
        else flushRecv T packets num_pkts ts_initial
      else flushRecv T packets num_pkts (T.to_ticks p.time_spec)

/-- `restart`. -/
def UhdReceiver.restart (T : TimeSpecs S) (d : UhdReceiver n S α)
    (packets : List (RxPacket n S α)) : Option (UhdReceiver n S α × List (RxPacket n S α)) :=
  (flushRecv T packets 10 0).map fun r =>
    ({ d with tx := (d.tx.restart r.1).1, ts_initial := r.2.1 }, r.2.2)

/-- `(rc < 0) && (rc != smpl_buf::ERROR_OVERFLOW)`. -/
def failsWrite : Except ErrCode ℕ → Bool
  | .ok _ => false
  | .error e => e ≠ .overflow

/-- The loop over the buffers that writes a packet, from a channel on. -/
def writeBuffers (samples : List (Fin (n + 1) → α)) (ticks : ℕ) :
    List (Fin (n + 1)) → (Fin (n + 1) → SmplBuf α) → Bool × (Fin (n + 1) → SmplBuf α)
  | [], rx_buffers => (true, rx_buffers)
  | i :: chans, rx_buffers =>
    let r := (rx_buffers i).write (samples.map fun s => s i) ticks
    let rx_buffers := Function.update rx_buffers i r.2
    if failsWrite r.1 then (false, rx_buffers) else writeBuffers samples ticks chans rx_buffers

/-- How the loop over packets ends. -/
inductive LoopEnd
  | enough
  | failed
  | exited

/-- The loop that receives until there are enough samples; each turn takes a packet, so that their
number bounds the turns. -/
def readLoop (T : TimeSpecs S) (len timestamp : ℕ) :
    ℕ → UhdReceiver n S α → List (RxPacket n S α) →
      Option (LoopEnd × UhdReceiver n S α × List (RxPacket n S α))
  | fuel, d, packets =>
    if ¬ (d.rx_buffers 0).availSmpls timestamp < len then some (.enough, d, packets)
    else
      match fuel, packets with
      | fuel + 1, p :: packets =>
        let d := { d with rx_pkt_cnt := d.rx_pkt_cnt + 1 }
        match checkRxMdErr T d p with
        | .ERROR_UNRECOVERABLE => some (.exited, d, packets)
        | .ERROR_TIMEOUT => some (.failed, d, packets)
        | .ERROR_TIMING => do
          let (d, packets) ← d.restart T packets
          readLoop T len timestamp fuel d packets
        | .ERROR_UNHANDLED => readLoop T len timestamp fuel d packets
        | .passed time_spec =>
          match writeBuffers p.samples (T.to_ticks time_spec) (List.finRange (n + 1))
            d.rx_buffers with
          | (true, rx_buffers) =>
            readLoop T len timestamp fuel { d with prev_ts := time_spec, rx_buffers := rx_buffers }
              packets
          | (false, rx_buffers) =>
            some (.failed, { d with prev_ts := time_spec, rx_buffers := rx_buffers }, packets)
      | _, _ => none

/-- `(rc < 0) || (rc != len)`. -/
def failsRead (len : ℕ) : Except ErrCode ℕ → Bool
  | .ok rc => rc ≠ len
  | .error _ => true

/-- The loop over the buffers that reads, from a channel on, with what has been copied. -/
def readBuffers (len timestamp : ℕ) :
    List (Fin (n + 1)) → (Fin (n + 1) → SmplBuf α) → (Fin (n + 1) → List α) →
      Bool × (Fin (n + 1) → SmplBuf α) × (Fin (n + 1) → List α)
  | [], rx_buffers, bufs => (true, rx_buffers, bufs)
  | i :: chans, rx_buffers, bufs =>
    let r := (rx_buffers i).read len timestamp
    let rx_buffers := Function.update rx_buffers i r.2.2
    let bufs := Function.update bufs i r.2.1
    if failsRead len r.1 then (false, rx_buffers, bufs)
    else readBuffers len timestamp chans rx_buffers bufs

/-- What a call of `readSamples` does: it returns, with samples copied for each channel, or it ends
the process. -/
inductive Outcome (n : ℕ) (α : Type)
  | exited
  | returned (ret : ℤ) (bufs : Fin (n + 1) → List α)

/-- `readSamples`, with `size` buffers to read to. -/
def readSamples (T : TimeSpecs S) (d : UhdReceiver n S α) (packets : List (RxPacket n S α))
    (size len timestamp : ℕ) :
    Option (Outcome n α × UhdReceiver n S α × List (RxPacket n S α)) :=
  if size ≠ n + 1 then some (.returned (-1) fun _ => [], d, packets)
  else
    let timestamp := add64 timestamp d.ts_offset
    if (d.rx_buffers 0).availSmpls timestamp < 0 then some (.returned 0 fun _ => [], d, packets)
    else
      match readLoop T len timestamp packets.length d packets with
      | none => none
      | some (.exited, d, packets) => some (.exited, d, packets)
      | some (.failed, d, packets) => some (.returned 0 fun _ => [], d, packets)
      | some (.enough, d, packets) =>
        let r := readBuffers len timestamp (List.finRange (n + 1)) d.rx_buffers fun _ => []
        some (.returned (if r.1 then len else 0) r.2.2, { d with rx_buffers := r.2.1 }, packets)

/-! ## One channel for all -/

/-- The channels of a packet whose samples are those of all channels. -/
def RxPacket.spread (p : RxPacket 0 S (Fin (n + 1) → α)) : RxPacket n S α :=
  ⟨p.samples.map fun s => s (Fin.last 0), p.error_code, p.has_time_spec, p.time_spec⟩

/-- A packet with one channel, whose samples are those of all channels. -/
def RxPacket.together (p : RxPacket n S α) : RxPacket 0 S (Fin (n + 1) → α) :=
  ⟨p.samples.map fun s _ => s, p.error_code, p.has_time_spec, p.time_spec⟩

@[simp] theorem RxPacket.spread_together (p : RxPacket n S α) : p.together.spread = p := by
  simp [RxPacket.together, RxPacket.spread, Function.comp_def]

/-- The channels of a device whose samples are those of all channels. -/
def UhdReceiver.spread (d : UhdReceiver 0 S (Fin (n + 1) → α)) : UhdReceiver n S α where
  tx := d.tx
  rx_spp := d.rx_spp
  ts_offset := d.ts_offset
  ts_initial := d.ts_initial
  prev_ts := d.prev_ts
  rx_pkt_cnt := d.rx_pkt_cnt
  rx_buffers i := (d.rx_buffers (Fin.last 0)).map fun s => s i

/-! ### All buffers -/

section Buffers

variable {b : SmplBuf (Fin (n + 1) → α)} {rx_buffers : Fin (n + 1) → SmplBuf α}

/-- One more channel in a loop over channels. -/
theorem update_ite_mem {ι β : Type*} [DecidableEq ι] (f g : ι → β) (i : ι) (chans : List ι) :
    (fun j => if j ∈ chans then f j else Function.update g i (f i) j) =
      fun j => if j ∈ i :: chans then f j else g j := by
  funext j
  by_cases hj : j ∈ chans
  · rw [if_pos hj, if_pos (List.mem_cons_of_mem _ hj)]
  · rw [if_neg hj]
    by_cases hji : j = i
    · subst hji
      rw [Function.update_self, if_pos List.mem_cons_self]
    · rw [Function.update_of_ne hji, if_neg]
      exact fun h => (List.mem_cons.mp h).elim hji hj

/-- The buffers of the other channels. -/
theorem update_of_nodup {i : Fin (n + 1)} {chans : List (Fin (n + 1))} (hi : i ∉ chans)
    (hrx : ∀ j ∈ i :: chans, rx_buffers j = b.map fun s => s j) (b' : SmplBuf α) :
    ∀ j ∈ chans, Function.update rx_buffers i b' j = b.map fun s => s j := by
  intro j hj
  rw [Function.update_of_ne (ne_of_mem_of_not_mem hj hi)]
  exact hrx j (List.mem_cons_of_mem _ hj)

/-- The channels that are written to, if a packet can be written. -/
theorem writeBuffers_passes {samples : List (Fin (n + 1) → α)} {ticks : ℕ}
    (hpasses : failsWrite (b.write samples ticks).1 = false) {chans : List (Fin (n + 1))}
    (hnodup : chans.Nodup) (hrx : ∀ i ∈ chans, rx_buffers i = b.map fun s => s i) :
    writeBuffers samples ticks chans rx_buffers = (true, fun i =>
      if i ∈ chans then (b.write samples ticks).2.map fun s => s i else rx_buffers i) := by
  induction chans generalizing rx_buffers with
  | nil => simp [writeBuffers]
  | cons i chans ih =>
    obtain ⟨hi, hnodup⟩ := List.nodup_cons.mp hnodup
    rw [writeBuffers]
    simp only [hrx i List.mem_cons_self, SmplBuf.write_map, hpasses, Bool.false_eq_true, if_false]
    rw [ih hnodup (update_of_nodup hi hrx _)]
    exact congrArg (Prod.mk true)
      (update_ite_mem (fun j => (b.write samples ticks).2.map fun s => s j) rx_buffers i chans)

/-- **A packet is written to all buffers or to none.** -/
theorem writeBuffers_all (hb : b.Ranged) (hrx : ∀ i, rx_buffers i = b.map fun s => s i)
    (samples : List (Fin (n + 1) → α)) (ticks : ℕ) :
    writeBuffers samples ticks (List.finRange (n + 1)) rx_buffers =
      (!failsWrite (b.write samples ticks).1,
        fun i => (b.write samples ticks).2.map fun s => s i) := by
  cases hfails : failsWrite (b.write samples ticks).1 with
  | false =>
    rw [writeBuffers_passes hfails (List.nodup_finRange _) fun i _ => hrx i]
    simp
  | true =>
    -- the write fails at the first channel, and has not changed the buffer
    have hsame : (b.write samples ticks).2 = b := by
      have hhonest := (hb.honest_write samples ticks).1
      simp only at hhonest
      rcases hwrite : b.write samples ticks with ⟨e | k, b'⟩
      · rw [hwrite] at hfails hhonest
        cases e with
        | overflow => cases hfails
        | _ => exact hhonest
      · rw [hwrite] at hfails
        cases hfails
    have hfirst : (rx_buffers 0).write (samples.map fun s => s 0) ticks =
        ((b.write samples ticks).1, rx_buffers 0) := by
      rw [hrx 0, SmplBuf.write_map, hsame]
    rw [List.finRange_succ, writeBuffers]
    simp only [hfirst, hfails, if_true, Function.update_eq_self, hsame, Bool.not_true]
    exact congrArg (Prod.mk false) (funext hrx)

/-- The channels that are read, if a buffer can be read. -/
theorem readBuffers_passes {len timestamp : ℕ}
    (hpasses : failsRead len (b.read len timestamp).1 = false) {chans : List (Fin (n + 1))}
    (hnodup : chans.Nodup) (hrx : ∀ i ∈ chans, rx_buffers i = b.map fun s => s i)
    (bufs : Fin (n + 1) → List α) :
    readBuffers len timestamp chans rx_buffers bufs = (true,
      (fun i => if i ∈ chans then (b.read len timestamp).2.2.map fun s => s i else rx_buffers i),
      fun i => if i ∈ chans then (b.read len timestamp).2.1.map fun s => s i else bufs i) := by
  induction chans generalizing rx_buffers bufs with
  | nil => simp [readBuffers]
  | cons i chans ih =>
    obtain ⟨hi, hnodup⟩ := List.nodup_cons.mp hnodup
    rw [readBuffers]
    simp only [hrx i List.mem_cons_self, SmplBuf.read_map, hpasses, Bool.false_eq_true, if_false]
    rw [ih hnodup (update_of_nodup hi hrx _)]
    rw [update_ite_mem (fun j => (b.read len timestamp).2.2.map fun s => s j),
      update_ite_mem (fun j => (b.read len timestamp).2.1.map fun s => s j)]

/-- There are enough samples from a time on. -/
def Enough (b : SmplBuf α) (len timestamp : ℕ) : Prop :=
  0 ≤ b.availSmpls timestamp ∧ ¬ b.availSmpls timestamp < len

/-- A read of samples that are there copies them, or leaves the buffer alone. -/
theorem read_enough {b : SmplBuf α} (hb : b.Ranged) {len timestamp : ℕ} (h : Enough b len timestamp)
    (ht : timestamp < 2 ^ 64) :
    (b.read len timestamp).2.2.Ranged ∧
      (failsRead len (b.read len timestamp).1 = false → (b.read len timestamp).2.1.length = len) ∧
      (failsRead len (b.read len timestamp).1 = true → (b.read len timestamp).2 = ([], b)) := by
  obtain ⟨hvalid, henough⟩ := h
  have hwithin : b.Within (.read len timestamp) := by
    intro hstart hend _
    rw [SmplBuf.availSmpls, if_neg (by omega), if_neg (by omega)] at henough
    omega
  have hranged : (b.read len timestamp).2.2.Ranged := hb.step (c := .read len timestamp) ht hwithin
  by_cases hrefused : timestamp < b.timeStart ∨ b.timeEnd ≤ timestamp ∨ b.bufLen ≤ len
  · obtain ⟨hsame, hresult⟩ := SmplBuf.read_refused hrefused
    refine ⟨hranged, fun hpasses => ?_, fun _ => hsame⟩
    rcases hresult with hzero | ⟨e, herror⟩
    · rw [hzero] at hpasses
      have hlen : 0 = len := not_not.mp (of_decide_eq_false hpasses)
      rw [hsame, ← hlen]
      rfl
    · rw [herror] at hpasses
      cases hpasses
  · push Not at hrefused
    obtain ⟨hstart, hend, hlen⟩ := hrefused
    have hfit := hwithin hstart hend hlen
    have hend' := hb.end_lt
    have hok : (b.read len timestamp).1 = .ok len := by
      rw [SmplBuf.read_eq hstart hend hlen]
      simp only
      rw [add64_eq (by omega), if_neg (by omega), min_eq_left (by omega)]
    have hpasses : failsRead len (b.read len timestamp).1 = false := by
      rw [hok]
      exact decide_eq_false (not_not.mpr rfl)
    refine ⟨hranged, fun _ => ?_, fun hfails => ?_⟩
    · have hhonest := ((hb.honest_read_iff ht).mpr hwithin).1
      rcases hread : b.read len timestamp with ⟨r, out, b'⟩
      rw [hread] at hok
      simp only at hok hhonest
      rw [hread, hok] at hhonest
      rw [hhonest.1, SmplBuf.samplesFrom, List.length_map, List.length_range]
    · rw [hpasses] at hfails
      cases hfails

/-- **All buffers are read or none.** -/
theorem readBuffers_all (hb : b.Ranged) (hrx : ∀ i, rx_buffers i = b.map fun s => s i)
    {len timestamp : ℕ} (h : Enough b len timestamp) (ht : timestamp < 2 ^ 64) :
    readBuffers len timestamp (List.finRange (n + 1)) rx_buffers (fun _ => []) =
      (!failsRead len (b.read len timestamp).1,
        (fun i => (b.read len timestamp).2.2.map fun s => s i),
        fun i => (b.read len timestamp).2.1.map fun s => s i) := by
  cases hfails : failsRead len (b.read len timestamp).1 with
  | false =>
    rw [readBuffers_passes hfails (List.nodup_finRange _) fun i _ => hrx i]
    simp
  | true =>
    have hsame := (read_enough hb h ht).2.2 hfails
    have hfirst : (rx_buffers 0).read len timestamp =
        ((b.read len timestamp).1, [], rx_buffers 0) := by
      rw [hrx 0, SmplBuf.read_map, hsame]
      rfl
    rw [List.finRange_succ, readBuffers]
    simp only [hfirst, hfails, if_true, Function.update_eq_self, hsame, Bool.not_true,
      List.map_nil]
    exact congrArg (Prod.mk false) (congrArg (Prod.mk · _) (funext hrx))

end Buffers

/-! ### The loop -/

variable {T : TimeSpecs S} {len timestamp : ℕ}

/-- A device with one channel writes a packet to it. -/
theorem writeBuffers_one {β : Type} (rx_buffers : Fin 1 → SmplBuf β) (samples : List (Fin 1 → β))
    (ticks : ℕ) :
    writeBuffers samples ticks (List.finRange 1) rx_buffers =
      (!failsWrite ((rx_buffers 0).write (samples.map fun s => s 0) ticks).1,
        fun _ => ((rx_buffers 0).write (samples.map fun s => s 0) ticks).2) := by
  have hupdate (b : SmplBuf β) : Function.update rx_buffers 0 b = fun _ => b := by
    funext i
    rw [Subsingleton.elim i 0, Function.update_self]
  simp only [List.finRange_succ, List.finRange_zero, List.map_nil, writeBuffers, hupdate]
  cases failsWrite ((rx_buffers 0).write (samples.map fun s => s 0) ticks).1 <;> rfl

/-- A device with one channel reads it. -/
theorem readBuffers_one {β : Type} (rx_buffers : Fin 1 → SmplBuf β) (bufs : Fin 1 → List β) :
    readBuffers len timestamp (List.finRange 1) rx_buffers bufs =
      (!failsRead len ((rx_buffers 0).read len timestamp).1,
        (fun _ => ((rx_buffers 0).read len timestamp).2.2),
        fun _ => ((rx_buffers 0).read len timestamp).2.1) := by
  have hupdate {γ : Type} (f : Fin 1 → γ) (x : γ) : Function.update f 0 x = fun _ => x := by
    funext i
    rw [Subsingleton.elim i 0, Function.update_self]
  simp only [List.finRange_succ, List.finRange_zero, List.map_nil, readBuffers, hupdate]
  cases failsRead len ((rx_buffers 0).read len timestamp).1 <;> rfl

/-- The checks do not look at the samples. -/
theorem checkRxMdErr_spread (d : UhdReceiver 0 S (Fin (n + 1) → α))
    (p : RxPacket 0 S (Fin (n + 1) → α)) :
    checkRxMdErr T d.spread p.spread = checkRxMdErr T d p := by
  simp only [checkRxMdErr, RxPacket.spread, UhdReceiver.spread, List.length_map]
  rfl

theorem flushRecv_spread (packets : List (RxPacket 0 S (Fin (n + 1) → α)))
    (num_pkts ts_initial : ℕ) :
    flushRecv T (packets.map RxPacket.spread) num_pkts ts_initial =
      (flushRecv T packets num_pkts ts_initial).map fun r =>
        (r.1, r.2.1, r.2.2.map RxPacket.spread) := by
  induction packets generalizing num_pkts ts_initial with
  | nil =>
    simp only [flushRecv, List.map_nil]
    split_ifs <;> rfl
  | cons p packets ih =>
    have hlen : p.spread.samples.length = p.samples.length := List.length_map _
    have hcode : p.spread.error_code = p.error_code := rfl
    have htime : p.spread.time_spec = p.time_spec := rfl
    simp only [List.map_cons, flushRecv, hlen, hcode, htime, ih]
    split_ifs <;> rfl

theorem restart_spread (d : UhdReceiver 0 S (Fin (n + 1) → α))
    (packets : List (RxPacket 0 S (Fin (n + 1) → α))) :
    d.spread.restart T (packets.map RxPacket.spread) =
      (d.restart T packets).map fun r => (r.1.spread, r.2.map RxPacket.spread) := by
  rw [UhdReceiver.restart, flushRecv_spread, UhdReceiver.restart, Option.map_map, Option.map_map]
  rfl

/-- The loop ends when there are enough samples, … -/
theorem readLoop_enough {d : UhdReceiver n S α}
    (h : ¬ (d.rx_buffers 0).availSmpls timestamp < len) (fuel : ℕ)
    (packets : List (RxPacket n S α)) :
    readLoop T len timestamp fuel d packets = some (.enough, d, packets) := by
  unfold readLoop
  rw [if_pos h]

/-- … waits if no packet comes, … -/
theorem readLoop_waits {d : UhdReceiver n S α} (h : (d.rx_buffers 0).availSmpls timestamp < len)
    {fuel : ℕ} {packets : List (RxPacket n S α)} (hnone : fuel = 0 ∨ packets = []) :
    readLoop T len timestamp fuel d packets = none := by
  unfold readLoop
  rw [if_neg (not_not.mpr h)]
  rcases hnone with rfl | rfl
  · rfl
  · cases fuel <;> rfl

/-- … and takes a packet otherwise. -/
theorem readLoop_turn {d : UhdReceiver n S α} (h : (d.rx_buffers 0).availSmpls timestamp < len)
    (fuel : ℕ) (p : RxPacket n S α) (packets : List (RxPacket n S α)) :
    readLoop T len timestamp (fuel + 1) d (p :: packets) =
      match checkRxMdErr T d p with
      | .ERROR_UNRECOVERABLE => some (.exited, { d with rx_pkt_cnt := d.rx_pkt_cnt + 1 }, packets)
      | .ERROR_TIMEOUT => some (.failed, { d with rx_pkt_cnt := d.rx_pkt_cnt + 1 }, packets)
      | .ERROR_TIMING =>
        (UhdReceiver.restart T { d with rx_pkt_cnt := d.rx_pkt_cnt + 1 } packets).bind fun r =>
          readLoop T len timestamp fuel r.1 r.2
      | .ERROR_UNHANDLED =>
        readLoop T len timestamp fuel { d with rx_pkt_cnt := d.rx_pkt_cnt + 1 } packets
      | .passed time_spec =>
        let w := writeBuffers p.samples (T.to_ticks time_spec) (List.finRange (n + 1)) d.rx_buffers
        let d := { d with
          rx_pkt_cnt := d.rx_pkt_cnt + 1
          prev_ts := time_spec
          rx_buffers := w.2 }
        if w.1 then readLoop T len timestamp fuel d packets else some (.failed, d, packets) := by
  rw [readLoop, if_neg (not_not.mpr h)]
  have hcheck : checkRxMdErr T { d with rx_pkt_cnt := d.rx_pkt_cnt + 1 } p = checkRxMdErr T d p :=
    rfl
  simp only [hcheck]
  cases checkRxMdErr T d p with
  | passed time_spec =>
    simp only
    rcases writeBuffers p.samples (T.to_ticks time_spec) (List.finRange (n + 1)) d.rx_buffers with
      ⟨_ | _, rx_buffers⟩ <;> rfl
  | _ => rfl

/-- A write does not move the start. -/
theorem timeStart_write {β : Type} (b : SmplBuf β) (xs : List β) (ticks : ℕ) :
    (b.write xs ticks).2.timeStart = b.timeStart := by
  by_cases hrefused : xs.length = 0 ∨ b.bufLen ≤ xs.length ∨ add64 ticks xs.length ≤ b.timeEnd
  · obtain ⟨e, hwrite⟩ := SmplBuf.write_refused hrefused
    rw [hwrite]
  · push Not at hrefused
    obtain ⟨hpos, hlen, hend⟩ := hrefused
    rw [SmplBuf.write_eq (Nat.pos_of_ne_zero hpos) hlen hend]

theorem availSmpls_nonneg_iff {β : Type} {b : SmplBuf β} :
    0 ≤ b.availSmpls timestamp ↔ b.timeStart ≤ timestamp := by
  unfold SmplBuf.availSmpls
  split_ifs
  · simp only [ErrCode.value]
    omega
  · omega
  · omega

/-- How the loop ends: the buffer is in order, and there are enough samples if it says so. -/
structure LoopSpec {β : Type} (len timestamp : ℕ) (r : LoopEnd × UhdReceiver 0 S β) : Prop where
  ranged : (r.2.rx_buffers 0).Ranged
  start_le : (r.2.rx_buffers 0).timeStart ≤ timestamp
  enough : r.1 = .enough → Enough (r.2.rx_buffers 0) len timestamp

variable (T len timestamp) in
/-- **The loop** of the device does with all channels what it does with one. -/
theorem readLoop_spread (fuel : ℕ) : ∀ (d : UhdReceiver 0 S (Fin (n + 1) → α))
    (packets : List (RxPacket 0 S (Fin (n + 1) → α))), (d.rx_buffers 0).Ranged →
    (d.rx_buffers 0).timeStart ≤ timestamp →
    readLoop T len timestamp fuel d.spread (packets.map RxPacket.spread) =
        (readLoop T len timestamp fuel d packets).map
          (fun r => (r.1, r.2.1.spread, r.2.2.map RxPacket.spread)) ∧
      ∀ r, readLoop T len timestamp fuel d packets = some r →
        LoopSpec len timestamp (r.1, r.2.1) := by
  induction fuel using Nat.strong_induction_on with
  | _ fuel ih =>
    intro d packets hb hstart
    by_cases hmore : (d.rx_buffers 0).availSmpls timestamp < len
    swap
    · have hmore' : ¬ (d.spread.rx_buffers 0).availSmpls timestamp < len := hmore
      rw [readLoop_enough hmore', readLoop_enough hmore]
      refine ⟨rfl, fun r hr => ?_⟩
      cases hr
      exact ⟨hb, hstart, fun _ => ⟨availSmpls_nonneg_iff.mpr hstart, hmore⟩⟩
    have hmore' : (d.spread.rx_buffers 0).availSmpls timestamp < len := hmore
    cases fuel with
    | zero =>
      rw [readLoop_waits hmore' (.inl rfl), readLoop_waits hmore (.inl rfl)]
      exact ⟨rfl, fun r hr => by cases hr⟩
    | succ fuel =>
      have hfuel := Nat.lt_succ_self fuel
      cases packets with
      | nil =>
        rw [List.map_nil, readLoop_waits hmore' (.inr rfl), readLoop_waits hmore (.inr rfl)]
        exact ⟨rfl, fun r hr => by cases hr⟩
      | cons p packets =>
        set d₁ : UhdReceiver 0 S (Fin (n + 1) → α) :=
          { d with rx_pkt_cnt := d.rx_pkt_cnt + 1 } with hd₁
        have hspread : d₁.spread = { d.spread with rx_pkt_cnt := d.spread.rx_pkt_cnt + 1 } := rfl
        rw [List.map_cons, readLoop_turn hmore', readLoop_turn hmore, checkRxMdErr_spread, ← hd₁,
          ← hspread]
        cases checkRxMdErr T d p with
        | ERROR_UNRECOVERABLE | ERROR_TIMEOUT =>
          refine ⟨rfl, fun r hr => ?_⟩
          cases hr
          exact ⟨hb, hstart, fun h => by cases h⟩
        | ERROR_UNHANDLED => exact ih fuel hfuel d₁ packets hb hstart
        | ERROR_TIMING =>
          simp only
          rw [restart_spread]
          cases hrestart : d₁.restart T packets with
          | none => exact ⟨rfl, fun r hr => by cases hr⟩
          | some s =>
            -- a restart leaves the buffers alone
            have hbuffers : s.1.rx_buffers = d.rx_buffers := by
              obtain ⟨f, -, rfl⟩ := Option.map_eq_some_iff.mp hrestart
              rfl
            exact ih fuel hfuel s.1 s.2 (hbuffers ▸ hb) (hbuffers ▸ hstart)
        | passed time_spec =>
          set w := (d.rx_buffers 0).write p.spread.samples (T.to_ticks time_spec) with hw
          have hall : writeBuffers p.spread.samples (T.to_ticks time_spec) (List.finRange (n + 1))
              d.spread.rx_buffers = (!failsWrite w.1, fun i => w.2.map fun s => s i) :=
            writeBuffers_all hb (fun _ => rfl) _ _
          have hone : writeBuffers p.samples (T.to_ticks time_spec) (List.finRange (0 + 1))
              d.rx_buffers = (!failsWrite w.1, fun _ => w.2) := writeBuffers_one _ _ _
          simp only [hall, hone]
          have hranged : w.2.Ranged :=
            hb.step (c := .write p.spread.samples (T.to_ticks time_spec)) (T.to_ticks_lt _) trivial
          have hstart' : w.2.timeStart ≤ timestamp := (timeStart_write _ _ _).trans_le hstart
          cases failsWrite w.1 with
          | true =>
            refine ⟨rfl, fun r hr => ?_⟩
            cases hr
            exact ⟨hranged, hstart', fun h => by cases h⟩
          | false =>
            exact ih fuel hfuel { d₁ with prev_ts := time_spec, rx_buffers := fun _ => w.2 } packets
              hranged hstart'

/-! ## Any run -/

/-- The samples for each channel in what has been read for all. -/
def Outcome.spread : Outcome 0 (Fin (n + 1) → α) → Outcome n α
  | .exited => .exited
  | .returned ret bufs => .returned ret fun i => (bufs (Fin.last 0)).map fun s => s i

/-- A call returns an error, nothing, or the samples asked for on every channel; or it does not
return. -/
def Outcome.Whole (len : ℕ) : Outcome n α → Prop
  | .exited => True
  | .returned ret bufs => ret = -1 ∨ ret = 0 ∨ ret = len ∧ ∀ i, (bufs i).length = len

/-- The number of buffers for a device with one channel. -/
def sizeForOne (n size : ℕ) : ℕ := if size = n + 1 then 1 else 0

/-- **A call.** -/
theorem readSamples_spread (d : UhdReceiver 0 S (Fin (n + 1) → α))
    (packets : List (RxPacket 0 S (Fin (n + 1) → α))) (hb : (d.rx_buffers 0).Ranged)
    (size len timestamp : ℕ) :
    readSamples T d.spread (packets.map RxPacket.spread) size len timestamp =
        (readSamples T d packets (sizeForOne n size) len timestamp).map
          (fun r => (r.1.spread, r.2.1.spread, r.2.2.map RxPacket.spread)) ∧
      ∀ r, readSamples T d packets (sizeForOne n size) len timestamp = some r →
        (r.2.1.rx_buffers 0).Ranged ∧ r.1.Whole len := by
  by_cases hsize : size = n + 1
  swap
  · have hone : sizeForOne n size ≠ 0 + 1 := by
      rw [sizeForOne, if_neg hsize]
      decide
    rw [readSamples, readSamples, if_pos hsize, if_pos hone]
    refine ⟨rfl, fun r hr => ?_⟩
    cases hr
    exact ⟨hb, .inl rfl⟩
  have hone : ¬ sizeForOne n size ≠ 0 + 1 := by
    rw [sizeForOne, if_pos hsize]
    decide
  rw [readSamples, readSamples, if_neg (not_not.mpr hsize), if_neg hone]
  set t := add64 timestamp d.ts_offset with ht
  have ht' : add64 timestamp d.spread.ts_offset = t := rfl
  have hlt : t < 2 ^ 64 := Nat.mod_lt _ (by norm_num)
  have havail : (d.spread.rx_buffers 0).availSmpls t = (d.rx_buffers 0).availSmpls t := rfl
  simp only [ht', havail, List.length_map]
  by_cases hpast : (d.rx_buffers 0).availSmpls t < 0
  · rw [if_pos hpast, if_pos hpast]
    refine ⟨rfl, fun r hr => ?_⟩
    cases hr
    exact ⟨hb, .inr (.inl rfl)⟩
  rw [if_neg hpast, if_neg hpast]
  obtain ⟨hloop, hspec⟩ := readLoop_spread T len t packets.length d packets hb
    (availSmpls_nonneg_iff.mp (not_lt.mp hpast))
  rw [hloop]
  cases hend : readLoop T len t packets.length d packets with
  | none => exact ⟨rfl, fun r hr => by cases hr⟩
  | some r =>
    obtain ⟨why, d', packets'⟩ := r
    obtain ⟨hranged, -, henough⟩ := hspec _ hend
    cases why with
    | exited =>
      refine ⟨rfl, fun r hr => ?_⟩
      cases hr
      exact ⟨hranged, trivial⟩
    | failed =>
      refine ⟨rfl, fun r hr => ?_⟩
      cases hr
      exact ⟨hranged, .inr (.inl rfl)⟩
    | enough =>
      obtain ⟨hranged', hlength, -⟩ := read_enough hranged (henough rfl) hlt
      set read := (d'.rx_buffers 0).read len t with hread
      have hall : readBuffers len t (List.finRange (n + 1)) d'.spread.rx_buffers (fun _ => []) =
          (!failsRead len read.1, (fun i => read.2.2.map fun s => s i),
            fun i => read.2.1.map fun s => s i) :=
        readBuffers_all hranged (fun _ => rfl) (henough rfl) hlt
      have hone : readBuffers len t (List.finRange (0 + 1)) d'.rx_buffers (fun _ => []) =
          (!failsRead len read.1, (fun _ => read.2.2), fun _ => read.2.1) :=
        readBuffers_one d'.rx_buffers _
      simp only [Option.map_some, hall, hone]
      refine ⟨rfl, fun r hr => ?_⟩
      cases hr
      refine ⟨hranged', ?_⟩
      cases hfails : failsRead len read.1 with
      | true => exact .inr (.inl rfl)
      | false => exact .inr (.inr ⟨rfl, fun _ => hlength hfails⟩)

/-- The arguments of a call of `readSamples`. -/
structure ReadCall where
  size : ℕ
  len : ℕ
  timestamp : ℕ
  deriving DecidableEq, Repr

/-- The device with the packets that the driver has for it, and what the calls have done, with the
samples that they asked for. -/
structure Reception (n : ℕ) (S α : Type) where
  device : UhdReceiver n S α
  packets : List (RxPacket n S α)
  log : List (ℕ × Outcome n α)

/-- The process has ended. -/
def Reception.ended (s : Reception n S α) : Bool :=
  match s.log.getLast? with
  | some (_, .exited) => true
  | _ => false

/-- One call; `none` is a call that waits. -/
def receptionStep (T : TimeSpecs S) :
    Option (Reception n S α) → ReadCall → Option (Reception n S α)
  | none, _ => none
  | some s, c =>
    if s.ended then some s
    else (readSamples T s.device s.packets c.size c.len c.timestamp).map fun r =>
      ⟨r.2.1, r.2.2, s.log ++ [(c.len, r.1)]⟩

/-- The call for a device with one channel. -/
def ReadCall.forOne (n : ℕ) (c : ReadCall) : ReadCall := { c with size := sizeForOne n c.size }

/-- The channels of a reception. -/
def Reception.spread (s : Reception 0 S (Fin (n + 1) → α)) : Reception n S α :=
  ⟨s.device.spread, s.packets.map RxPacket.spread, s.log.map fun x => (x.1, x.2.spread)⟩

/-- The device with one channel, whose samples are those of all. -/
def UhdReceiver.together (d : UhdReceiver n S α) (mem : Fin (n + 1) → ℕ → α) (bufLen : ℕ) :
    UhdReceiver 0 S (Fin (n + 1) → α) where
  tx := d.tx
  rx_spp := d.rx_spp
  ts_offset := d.ts_offset
  ts_initial := d.ts_initial
  prev_ts := d.prev_ts
  rx_pkt_cnt := d.rx_pkt_cnt
  rx_buffers _ := .init (fun k i => mem i k) bufLen

theorem Reception.ended_spread (s : Reception 0 S (Fin (n + 1) → α)) :
    s.spread.ended = s.ended := by
  simp only [Reception.ended, Reception.spread, List.getLast?_map]
  rcases s.log.getLast? with _ | ⟨len, _ | ⟨ret, bufs⟩⟩ <;> rfl

/-- The invariant of two receptions: the one is the channels of the other. -/
structure Aligned (o : Option (Reception n S α)) (one : Option (Reception 0 S (Fin (n + 1) → α))) :
    Prop where
  spread : o = one.map Reception.spread
  ranged : ∀ s ∈ one, (s.device.rx_buffers 0).Ranged
  whole : ∀ s ∈ one, ∀ x ∈ s.log, x.2.Whole x.1

/-- **The step lemma.** -/
theorem aligned_step {o : Option (Reception n S α)}
    {one : Option (Reception 0 S (Fin (n + 1) → α))} (h : Aligned o one) (c : ReadCall) :
    Aligned (receptionStep T o c) (receptionStep T one (c.forOne n)) := by
  obtain ⟨rfl, hranged, hwhole⟩ := h
  cases one with
  | none =>
    refine ⟨rfl, fun s hs => ?_, fun s hs => ?_⟩
    · cases hs
    · cases hs
  | some s =>
    by_cases hended : s.ended = true
    · have hended' : s.spread.ended = true := (Reception.ended_spread s).trans hended
      rw [Option.map_some, receptionStep, if_pos hended', receptionStep, if_pos hended]
      exact ⟨rfl, hranged, hwhole⟩
    · have hended' : ¬ s.spread.ended = true := by rwa [Reception.ended_spread]
      obtain ⟨hcall, hspec⟩ := readSamples_spread s.device s.packets (hranged s rfl) c.size c.len
        c.timestamp
      rw [Option.map_some, receptionStep, if_neg hended', receptionStep, if_neg hended]
      refine ⟨?_, fun s' hs' => ?_, fun s' hs' => ?_⟩
      · refine (congrArg (Option.map _) hcall).trans ?_
        rw [Option.map_map, Option.map_map]
        refine congrArg (Option.map · _) (funext fun r => ?_)
        simp [Reception.spread, ReadCall.forOne]
      · obtain ⟨r, hr, rfl⟩ := Option.map_eq_some_iff.mp hs'
        exact (hspec r hr).1
      · obtain ⟨r, hr, rfl⟩ := Option.map_eq_some_iff.mp hs'
        exact Run.forall_mem_log (hwhole s rfl) (hspec r hr).2

theorem aligned_exec (calls : List ReadCall) {o : Option (Reception n S α)}
    {one : Option (Reception 0 S (Fin (n + 1) → α))} (h : Aligned o one) :
    Aligned (Run.exec (receptionStep T) o calls)
      (Run.exec (receptionStep T) one (calls.map (ReadCall.forOne n))) := by
  induction calls generalizing o one with
  | nil => exact h
  | cons c calls ih =>
    rw [List.map_cons, Run.exec_cons, Run.exec_cons]
    exact ih (aligned_step h c)

theorem Outcome.Whole.spread {len : ℕ} {o : Outcome 0 (Fin (n + 1) → α)} (h : o.Whole len) :
    o.spread.Whole len := by
  cases o with
  | exited => trivial
  | returned ret bufs =>
    rcases h with hret | hret | ⟨hret, hbufs⟩
    · exact .inl hret
    · exact .inr (.inl hret)
    · exact .inr (.inr ⟨hret, fun i => (List.length_map _).trans (hbufs 0)⟩)

/-- **The channels stay aligned.**  A device with any number of channels, whatever packets and
errors come from the driver and whatever is asked for, does with each channel what the device does
that has one channel whose samples are those of all: the same results, the same end, and the buffers
of the channels are those of that device, channel by channel.  A call returns an error, nothing, or
as many samples as it was asked for on every channel. -/
theorem channels_aligned (T : TimeSpecs S) (d : UhdReceiver n S α) (mem : Fin (n + 1) → ℕ → α)
    {bufLen : ℕ} (halloc : 4 * bufLen < 2 ^ 64) (hd : ∀ i, d.rx_buffers i = .init (mem i) bufLen)
    (packets : List (RxPacket n S α)) (calls : List ReadCall) :
    Run.exec (receptionStep T) (some ⟨d, packets, []⟩) calls =
        (Run.exec (receptionStep T)
          (some ⟨d.together mem bufLen, packets.map RxPacket.together, []⟩)
          (calls.map (ReadCall.forOne n))).map Reception.spread ∧
      ∀ s, Run.exec (receptionStep T) (some ⟨d, packets, []⟩) calls = some s →
        ∀ x ∈ s.log, x.2.Whole x.1 := by
  have hdevice : (d.together mem bufLen).spread = d := by
    have hbuffers : (fun i => (SmplBuf.init (fun k i => mem i k) bufLen).map fun s => s i) =
        d.rx_buffers := funext fun i => (hd i).symm
    rw [UhdReceiver.spread, UhdReceiver.together]
    simp only [hbuffers]
  have hstart : Aligned (some ⟨d, packets, []⟩)
      (some ⟨d.together mem bufLen, packets.map RxPacket.together, []⟩) := by
    refine ⟨?_, fun s hs => ?_, fun s hs => ?_⟩
    · simp [Reception.spread, hdevice, Function.comp_def]
    · cases hs
      exact SmplBuf.ranged_init _ halloc
    · cases hs
      exact fun x hx => absurd hx List.not_mem_nil
  obtain ⟨hspread, -, hwhole⟩ := aligned_exec calls hstart
  refine ⟨hspread, fun s hs x hx => ?_⟩
  rw [hspread] at hs
  obtain ⟨one, hone, rfl⟩ := Option.map_eq_some_iff.mp hs
  obtain ⟨y, hy, rfl⟩ := List.mem_map.mp hx
  exact (hwhole one hone y hy).spread

/-- Times that are their ticks. -/
def plainTimes : TimeSpecs (Fin (2 ^ 64)) where
  to_ticks := Fin.val
  from_ticks t := Fin.ofNat (2 ^ 64) t
  lt s t := s < t
  to_ticks_lt := Fin.is_lt

/-- A device with two channels and buffers of eight samples. -/
def twoChannels : UhdReceiver 1 (Fin (2 ^ 64)) ℕ :=
  ⟨.new 2, 2, 1, 0, 0, 0, fun i => .init (fun _ => i) 8⟩

/-- Two samples of each channel from a time on. -/
def twoSamples (time : Fin (2 ^ 64)) (x y : ℕ) : RxPacket 1 (Fin (2 ^ 64)) ℕ :=
  ⟨[![x, y], ![x + 1, y + 1]], .NONE, true, time⟩

/-- Packets, with an error between them, and times that are a tick too early. -/
def latePackets : List (RxPacket 1 (Fin (2 ^ 64)) ℕ) :=
  [twoSamples 8 10 20, ⟨[], .OVERFLOW, false, 0⟩, twoSamples 9 12 22, twoSamples 9 14 24]

/-- Three samples, the same ones again, and the wrong number of buffers. -/
def threeCalls : List ReadCall := [⟨2, 3, 7⟩, ⟨2, 3, 7⟩, ⟨1, 3, 10⟩]

theorem channels_aligned_two :
    Run.exec (receptionStep plainTimes) (some ⟨twoChannels, latePackets, []⟩) threeCalls =
        (Run.exec (receptionStep plainTimes)
          (some ⟨twoChannels.together (fun i _ => i) 8, latePackets.map RxPacket.together, []⟩)
          (threeCalls.map (ReadCall.forOne 1))).map Reception.spread ∧
      ∀ s, Run.exec (receptionStep plainTimes) (some ⟨twoChannels, latePackets, []⟩) threeCalls =
          some s → ∀ x ∈ s.log, x.2.Whole x.1 :=
  channels_aligned plainTimes twoChannels (fun i _ => i) (by norm_num) (fun _ => rfl) latePackets
    threeCalls

end Uhd
end Device
end OsmoTrx
