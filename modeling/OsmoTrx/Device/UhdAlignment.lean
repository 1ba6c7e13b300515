import OsmoTrx.Lib.Run
import OsmoTrx.Lib.Word

/-!
# Alignment of the UHD transmitter

`uhd_device::writeSamples` of `UHDDevice.cpp` and the two places that make it align again:
`recv_async_msg`, which another thread calls, and `restart`, which the receiver calls.  A run is
any list of such calls.  What UHD answers (the count of `send`, the messages, whether flushing
succeeded) is part of the event.

* `Drops` — the pattern of the writes after `k` of a sequence have gone: one marked with the end
  of a burst, 28 that are swallowed, one that starts a burst.
* `drops_outputs` — the writes of every run follow it: an error in the middle of a sequence
  neither restarts nor shortens it, because only `drop_cnt` drives it.
* `alignment` — **what follows for every run**: marks alternate, the 28 writes after an end of
  burst and no others are swallowed, and a lost alignment shows on the next write.
-/

namespace OsmoTrx
namespace Device
namespace Uhd

variable {S : Type*}

/-! ## The device -/

/-- `uhd::async_metadata_t::event_code`, as far as `str_code` knows it. -/
inductive EventCode
  | BURST_ACK
  | UNDERFLOW
  | SEQ_ERROR
  | TIME_ERROR
  | UNDERFLOW_IN_PACKET
  | SEQ_ERROR_IN_BURST
  | unknown
  deriving DecidableEq, Repr

/-- `uhd::tx_metadata_t`; the time is in ticks of `tx_rate`. -/
structure TxMetadata where
  has_time_spec : Bool
  start_of_burst : Bool
  end_of_burst : Bool
  time_spec : ℕ
  deriving DecidableEq, Repr

/-- The part of `uhd_device` that alignment uses. -/
structure UhdDevice where
  chans : ℕ
  aligned : Bool
  drop_cnt : ℕ
  deriving DecidableEq, Repr

/-- The constructor. -/
def UhdDevice.new (chans : ℕ) : UhdDevice := ⟨chans, false, 0⟩

/-- The arguments of `tx_stream->send`. -/
structure Sent (S : Type*) where
  bufs : List S
  len : ℤ
  metadata : TxMetadata
  deriving DecidableEq, Repr

/-- What a call of `writeSamples` does: the packet that it passes to `send`, if it does, the flag
`*underrun`, and the result. -/
structure Written (S : Type*) where
  sent : Option (Sent S)
  underrun : Bool
  ret : ℤ
  deriving DecidableEq, Repr

/-- A call.  `num_smpls` is what `send` answers, `md` the message if there is one, and `flushed`
the result of `flush_recv`. -/
inductive Call (S : Type*)
  | writeSamples (bufs : List S) (len : ℤ) (timestamp : ℕ) (isControl : Bool) (num_smpls : ℕ)
  | recv_async_msg (md : Option EventCode)
  | restart (flushed : Bool)
  deriving DecidableEq, Repr

namespace UhdDevice

/-- `writeSamples`. -/
def writeSamples (d : UhdDevice) (bufs : List S) (len : ℤ) (timestamp : ℕ) (isControl : Bool)
    (num_smpls : ℕ) : UhdDevice × Written S :=
  let metadata : TxMetadata := ⟨true, false, false, timestamp⟩
  if isControl then (d, ⟨none, false, 0⟩)
  else if bufs.length ≠ d.chans then (d, ⟨none, false, -1⟩)
  else if ¬ d.aligned then
    let drop_cnt := d.drop_cnt + 1
    if drop_cnt = 1 then
      ({ d with drop_cnt := drop_cnt },
        ⟨some ⟨bufs, len, { metadata with end_of_burst := true }⟩, true, i32 num_smpls⟩)
    else if drop_cnt < 30 then ({ d with drop_cnt := drop_cnt }, ⟨none, false, len⟩)
    else
      ({ d with aligned := true, drop_cnt := 0 },
        ⟨some ⟨bufs, len, { metadata with start_of_burst := true }⟩, false, i32 num_smpls⟩)
  else (d, ⟨some ⟨bufs, len, metadata⟩, false, i32 num_smpls⟩)

/-- `recv_async_msg`: anything but an acknowledged burst is an error. -/
def recv_async_msg (d : UhdDevice) : Option EventCode → UhdDevice × Bool
  | none => (d, false)
  | some event_code => (if event_code ≠ .BURST_ACK then { d with aligned := false } else d, true)

/-- `restart`. -/
def restart (d : UhdDevice) (flushed : Bool) : UhdDevice × Bool :=
  ({ d with aligned := false }, flushed)

/-- The device after a call. -/
def step (d : UhdDevice) : Call S → UhdDevice
  | .writeSamples bufs len timestamp isControl num_smpls =>
    (d.writeSamples bufs len timestamp isControl num_smpls).1
  | .recv_async_msg md => (d.recv_async_msg md).1
  | .restart flushed => (d.restart flushed).1

/-- What a call of `writeSamples` does. -/
def written (d : UhdDevice) : Call S → Option (Written S)
  | .writeSamples bufs len timestamp isControl num_smpls =>
    some (d.writeSamples bufs len timestamp isControl num_smpls).2
  | _ => none

end UhdDevice

open UhdDevice

/-! ## Writes and marks -/

/-- A write of data for the right number of channels. -/
def IsData (chans : ℕ) : Call S → Prop
  | .writeSamples bufs _ _ isControl _ => isControl = false ∧ bufs.length = chans
  | _ => False

instance (chans : ℕ) : ∀ c : Call S, Decidable (IsData chans c)
  | .writeSamples _ _ _ _ _ => inferInstanceAs (Decidable (_ ∧ _))
  | .recv_async_msg _ => inferInstanceAs (Decidable False)
  | .restart _ => inferInstanceAs (Decidable False)

/-- An asynchronous error, or a restart. -/
def Misaligns : Call S → Prop
  | .recv_async_msg (some event_code) => event_code ≠ .BURST_ACK
  | .restart _ => True
  | _ => False

instance : ∀ c : Call S, Decidable (Misaligns c)
  | .writeSamples _ _ _ _ _ => inferInstanceAs (Decidable False)
  | .recv_async_msg none => inferInstanceAs (Decidable False)
  | .recv_async_msg (some _) => inferInstanceAs (Decidable (_ ≠ _))
  | .restart _ => inferInstanceAs (Decidable True)

/-- What the writes of data of a run do. -/
def writes (d : UhdDevice) (calls : List (Call S)) : List (Written S) :=
  Run.outputs step (fun d c => if IsData d.chans c then d.written c else none) d calls

inductive Mark
  | endOfBurst
  | startOfBurst
  deriving DecidableEq, Repr

/-- The marks of the packet that is passed to `send`. -/
def Written.marks (w : Written S) : List Mark :=
  match w.sent with
  | none => []
  | some p =>
    (if p.metadata.end_of_burst then [.endOfBurst] else []) ++
      if p.metadata.start_of_burst then [.startOfBurst] else []

/-- A packet without a mark. -/
def Written.Plain (w : Written S) : Prop := w.sent.isSome ∧ w.marks = [] ∧ w.underrun = false

/-- A packet that ends the burst, which is reported as an underrun. -/
def Written.Ends (w : Written S) : Prop :=
  w.sent.isSome ∧ w.marks = [.endOfBurst] ∧ w.underrun = true

/-- A packet that starts a burst. -/
def Written.Starts (w : Written S) : Prop :=
  w.sent.isSome ∧ w.marks = [.startOfBurst] ∧ w.underrun = false

/-- A write that is not passed on. -/
def Written.Swallowed (w : Written S) : Prop := w.sent = none ∧ w.underrun = false

theorem Written.Swallowed.marks {w : Written S} (h : w.Swallowed) : w.marks = [] := by
  rw [Written.marks, h.1]

/-! ## The pattern of a run -/

/-- The writes to come when `k` writes of a sequence have gone. -/
def Drops : ℕ → List (Written S) → Prop
  | _, [] => True
  | k, w :: ws =>
    (k = 0 ∧ w.Plain ∧ Drops 0 ws) ∨ (k = 0 ∧ w.Ends ∧ Drops 1 ws) ∨
    (1 ≤ k ∧ k < 29 ∧ w.Swallowed ∧ Drops (k + 1) ws) ∨ (k = 29 ∧ w.Starts ∧ Drops 0 ws)

/-- A sequence is under way only while the transmitter is not aligned, and it has 29 writes before
its last. -/
def Counting (d : UhdDevice) : Prop := d.drop_cnt < 30 ∧ (d.aligned = true → d.drop_cnt = 0)

theorem counting_new (chans : ℕ) : Counting (UhdDevice.new chans) := by
  simp [Counting, UhdDevice.new]

@[simp] theorem step_chans (d : UhdDevice) (c : Call S) : (d.step c).chans = d.chans := by
  cases c with
  | writeSamples bufs len timestamp isControl num_smpls =>
    simp only [step, UhdDevice.writeSamples]
    split_ifs <;> rfl
  | recv_async_msg md =>
    cases md with
    | none => rfl
    | some event_code =>
      simp only [step, UhdDevice.recv_async_msg]
      split_ifs <;> rfl
  | restart flushed => rfl

/-- Calls that write no data leave the count alone, and at most lose the alignment. -/
theorem step_of_not_data {d : UhdDevice} {c : Call S} (h : ¬ IsData d.chans c) :
    (d.step c).drop_cnt = d.drop_cnt ∧ ((d.step c).aligned = true → d.aligned = true) := by
  cases c with
  | writeSamples bufs len timestamp isControl num_smpls =>
    simp only [IsData, not_and] at h
    simp only [step, UhdDevice.writeSamples]
    by_cases hc : isControl = true
    · simp [hc]
    · have hne : bufs.length ≠ d.chans := fun heq => hc (by simpa using fun h0 => h h0 heq)
      simp [hc, hne]
  | recv_async_msg md =>
    cases md with
    | none => exact ⟨rfl, id⟩
    | some event_code =>
      simp only [step, UhdDevice.recv_async_msg]
      split_ifs with hcode
      · exact ⟨rfl, nofun⟩
      · exact ⟨rfl, id⟩
  | restart flushed => exact ⟨rfl, nofun⟩

/-- **What a write of data does**, by what has gone before. -/
theorem step_of_data {d : UhdDevice} {c : Call S} (hd : Counting d) (h : IsData d.chans c) :
    ∃ w, d.written c = some w ∧
      ((d.aligned = true ∧ w.Plain ∧ (d.step c).drop_cnt = 0 ∧ (d.step c).aligned = true) ∨
      (d.aligned = false ∧ d.drop_cnt = 0 ∧ w.Ends ∧ (d.step c).drop_cnt = 1 ∧
        (d.step c).aligned = false) ∨
      (d.aligned = false ∧ 1 ≤ d.drop_cnt ∧ d.drop_cnt < 29 ∧ w.Swallowed ∧
        (d.step c).drop_cnt = d.drop_cnt + 1 ∧ (d.step c).aligned = false) ∨
      (d.aligned = false ∧ d.drop_cnt = 29 ∧ w.Starts ∧ (d.step c).drop_cnt = 0 ∧
        (d.step c).aligned = true)) := by
  obtain ⟨hlt, haligned⟩ := hd
  cases c with
  | recv_async_msg md => exact absurd h id
  | restart flushed => exact absurd h id
  | writeSamples bufs len timestamp isControl num_smpls =>
    obtain ⟨hc, hlen⟩ := h
    refine ⟨_, rfl, ?_⟩
    simp only [step, UhdDevice.writeSamples, hc, hlen, Bool.false_eq_true, if_false, ne_eq,
      not_true_eq_false]
    cases ha : d.aligned with
    | true => simp [ha, haligned ha, Written.Plain, Written.marks]
    | false =>
      by_cases h0 : d.drop_cnt = 0
      · simp [h0, Written.Ends, Written.marks]
      · by_cases h29 : d.drop_cnt + 1 < 30
        · have h1 : 1 ≤ d.drop_cnt := by omega
          have hlt29 : d.drop_cnt < 29 := by omega
          simp [h0, h29, h1, hlt29, Written.Swallowed]
        · have heq : d.drop_cnt = 29 := by omega
          simp [heq, Written.Starts, Written.marks]

theorem Counting.step {d : UhdDevice} (hd : Counting d) (c : Call S) : Counting (d.step c) := by
  by_cases h : IsData d.chans c
  · obtain ⟨w, -, ⟨-, -, hk, ha⟩ | ⟨-, -, -, hk, ha⟩ | ⟨-, -, hlt, -, hk, ha⟩ |
      ⟨-, -, -, hk, ha⟩⟩ := step_of_data hd h
    · exact ⟨by omega, fun _ => hk⟩
    · exact ⟨by omega, fun hfalse => Bool.noConfusion (ha.symm.trans hfalse)⟩
    · exact ⟨by omega, fun hfalse => Bool.noConfusion (ha.symm.trans hfalse)⟩
    · exact ⟨by omega, fun _ => hk⟩
  · obtain ⟨hk, ha⟩ := step_of_not_data h
    exact ⟨by rw [hk]; exact hd.1, fun halign => by rw [hk]; exact hd.2 (ha halign)⟩

/-- **The writes of every run follow the pattern.** -/
theorem drops_outputs {d : UhdDevice} (hd : Counting d) (calls : List (Call S)) :
    Drops d.drop_cnt (writes d calls) := by
  induction calls generalizing d with
  | nil => simp [writes, Run.outputs, Drops]
  | cons c calls ih =>
    have hrest := ih (hd.step c)
    by_cases h : IsData d.chans c
    · obtain ⟨w, hw, hcases⟩ := step_of_data hd h
      have hcons : writes d (c :: calls) = w :: writes (d.step c) calls :=
        Run.outputs_cons_some (by rw [if_pos h, hw])
      rw [hcons, Drops]
      rcases hcases with ⟨ha, hplain, hk, -⟩ | ⟨-, h0, hends, hk, -⟩ |
        ⟨-, h1, hlt, hswallow, hk, -⟩ | ⟨-, h29, hstarts, hk, -⟩ <;> rw [hk] at hrest
      · exact Or.inl ⟨hd.2 ha, hplain, hrest⟩
      · exact Or.inr (Or.inl ⟨h0, hends, hrest⟩)
      · exact Or.inr (Or.inr (Or.inl ⟨h1, hlt, hswallow, hrest⟩))
      · exact Or.inr (Or.inr (Or.inr ⟨h29, hstarts, hrest⟩))
    · have hcons : writes d (c :: calls) = writes (d.step c) calls :=
        Run.outputs_cons_none (by rw [if_neg h])
      rw [hcons, ← (step_of_not_data h).1]
      exact hrest

/-! ## What the pattern says -/

/-- The marks alternate, and the first is `m`. -/
def Alternate : Mark → List Mark → Prop
  | _, [] => True
  | .endOfBurst, m :: ms => m = .endOfBurst ∧ Alternate .startOfBurst ms
  | .startOfBurst, m :: ms => m = .startOfBurst ∧ Alternate .endOfBurst ms

namespace Drops

/-- In a sequence the next mark is the start of a burst, else the end of one. -/
theorem alternate {k : ℕ} {ws : List (Written S)} (h : Drops k ws) :
    Alternate (if k = 0 then .endOfBurst else .startOfBurst) (ws.flatMap Written.marks) := by
  induction ws generalizing k with
  | nil => cases k <;> exact trivial
  | cons w ws ih =>
    rw [Drops] at h
    rw [List.flatMap_cons]
    rcases h with ⟨rfl, hplain, hrest⟩ | ⟨rfl, hends, hrest⟩ | ⟨h1, hlt, hswallow, hrest⟩ |
      ⟨rfl, hstarts, hrest⟩
    · rw [hplain.2.1]
      exact ih hrest
    · rw [hends.2.1]
      exact ⟨rfl, ih hrest⟩
    · rw [hswallow.marks]
      have hne : k ≠ 0 := by omega
      have := ih hrest
      simpa [hne] using this
    · rw [hstarts.2.1]
      exact ⟨rfl, ih hrest⟩

/-- In a sequence the writes are swallowed until its last, which starts a burst. -/
theorem sequence {k : ℕ} {ws : List (Written S)} (h : Drops k ws) (h1 : 1 ≤ k) (h29 : k ≤ 29)
    {i : ℕ} {w : Written S} (hw : ws[i]? = some w) :
    (k + i < 29 → w.Swallowed) ∧ (k + i = 29 → w.Starts) := by
  induction ws generalizing k i with
  | nil => exact absurd hw (by simp)
  | cons v ws ih =>
    rw [Drops] at h
    cases i with
    | zero =>
      simp only [List.getElem?_cons_zero, Option.some.injEq] at hw
      subst hw
      rcases h with ⟨h0, -, -⟩ | ⟨h0, -, -⟩ | ⟨-, hlt, hswallow, -⟩ | ⟨heq, hstarts, -⟩
      · omega
      · omega
      · exact ⟨fun _ => hswallow, fun heq => by omega⟩
      · exact ⟨fun hlt => by omega, fun _ => hstarts⟩
    | succ i =>
      rw [List.getElem?_cons_succ] at hw
      rcases h with ⟨h0, -, -⟩ | ⟨h0, -, -⟩ | ⟨-, hlt, -, hrest⟩ | ⟨heq, -, -⟩
      · omega
      · omega
      · have := ih hrest (by omega) (by omega) hw
        rwa [show k + 1 + i = k + (i + 1) by ring] at this
      · exact ⟨fun hlt => by omega, fun heq => by omega⟩

/-- After an end of burst a sequence begins. -/
theorem after_ends {k : ℕ} {a b : List (Written S)} {w : Written S}
    (h : Drops k (a ++ w :: b)) (hw : .endOfBurst ∈ w.marks) : Drops 1 b := by
  induction a generalizing k with
  | nil =>
    rw [List.nil_append, Drops] at h
    rcases h with ⟨-, hplain, -⟩ | ⟨-, -, hrest⟩ | ⟨-, -, hswallow, -⟩ | ⟨-, hstarts, -⟩
    · rw [hplain.2.1] at hw
      exact absurd hw List.not_mem_nil
    · exact hrest
    · rw [hswallow.marks] at hw
      exact absurd hw List.not_mem_nil
    · rw [hstarts.2.1] at hw
      exact absurd hw (by decide)
  | cons v a ih =>
    rw [List.cons_append, Drops] at h
    rcases h with ⟨-, -, hrest⟩ | ⟨-, -, hrest⟩ | ⟨-, -, -, hrest⟩ | ⟨-, -, hrest⟩ <;>
      exact ih hrest

/-- An end of burst with no mark since. -/
def Ended (a : List (Written S)) : Prop :=
  ∃ (a₁ : List (Written S)) (e : Written S) (a₂ : List (Written S)),
    a = a₁ ++ e :: a₂ ∧ e.marks = [.endOfBurst] ∧ ∀ v ∈ a₂, v.marks = []

theorem Ended.cons {a : List (Written S)} (h : Ended a) (u : Written S) : Ended (u :: a) := by
  obtain ⟨a₁, e, a₂, rfl, he, ha₂⟩ := h
  exact ⟨u :: a₁, e, a₂, rfl, he, ha₂⟩

/-- A write that is not sent belongs to a sequence: one already under way, or one that an end of
burst began, with no mark since. -/
theorem swallowed {k : ℕ} {a b : List (Written S)} {w : Written S}
    (h : Drops k (a ++ w :: b)) (hw : w.sent = none) :
    (1 ≤ k ∧ ∀ v ∈ a, v.marks = []) ∨ Ended a := by
  have hnot : ¬ w.sent.isSome := by
    rw [hw]
    exact Bool.false_ne_true
  induction a generalizing k with
  | nil =>
    rw [List.nil_append, Drops] at h
    rcases h with ⟨-, hplain, -⟩ | ⟨-, hends, -⟩ | ⟨h1, -, -, -⟩ | ⟨-, hstarts, -⟩
    · exact absurd hplain.1 hnot
    · exact absurd hends.1 hnot
    · exact Or.inl ⟨h1, fun v hv => absurd hv List.not_mem_nil⟩
    · exact absurd hstarts.1 hnot
  | cons u a ih =>
    rw [List.cons_append, Drops] at h
    rcases h with ⟨-, -, hrest⟩ | ⟨-, hends, hrest⟩ | ⟨h1, -, hswallow, hrest⟩ | ⟨-, -, hrest⟩
    · rcases ih hrest with ⟨h1, -⟩ | hbegan
      · omega
      · exact Or.inr (hbegan.cons u)
    · rcases ih hrest with ⟨-, ha⟩ | hbegan
      · exact Or.inr ⟨[], u, a, rfl, hends.2.1, ha⟩
      · exact Or.inr (hbegan.cons u)
    · rcases ih hrest with ⟨-, ha⟩ | hbegan
      · refine Or.inl ⟨h1, fun v hv => ?_⟩
        rcases List.mem_cons.mp hv with rfl | hv
        · exact hswallow.marks
        · exact ha v hv
      · exact Or.inr (hbegan.cons u)
    · rcases ih hrest with ⟨h1, -⟩ | hbegan
      · omega
      · exact Or.inr (hbegan.cons u)

end Drops

/-- An underrun is reported with an end of burst and not otherwise, whatever the call. -/
theorem written_underrun_iff {d : UhdDevice} {c : Call S} {w : Written S}
    (h : d.written c = some w) : w.underrun = true ↔ .endOfBurst ∈ w.marks := by
  cases c with
  | recv_async_msg md => exact absurd h (by simp [written])
  | restart flushed => exact absurd h (by simp [written])
  | writeSamples bufs len timestamp isControl num_smpls =>
    simp only [written, Option.some.injEq] at h
    subst h
    simp only [UhdDevice.writeSamples]
    split_ifs <;> simp [Written.marks]

theorem mem_writes {d : UhdDevice} {calls : List (Call S)} {w : Written S}
    (h : w ∈ writes d calls) : ∃ (d' : UhdDevice) (c : Call S), d'.written c = some w := by
  induction calls generalizing d with
  | nil => exact absurd h List.not_mem_nil
  | cons c calls ih =>
    rw [writes, Run.outputs, List.mem_append] at h
    rcases h with h | h
    · by_cases hc : IsData d.chans c
      · rw [if_pos hc, Option.mem_toList] at h
        exact ⟨d, c, h⟩
      · rw [if_neg hc] at h
        exact absurd h List.not_mem_nil
    · exact ih h

/-- A device that has lost its alignment with no sequence under way. -/
def Lost (d : UhdDevice) : Prop := d.aligned = false ∧ d.drop_cnt = 0

theorem lost_of_misaligns {d : UhdDevice} {e : Call S} (hd : Counting d) (ha : d.aligned = true)
    (he : Misaligns e) : Lost (d.step e) := by
  cases e with
  | writeSamples bufs len timestamp isControl num_smpls => exact absurd he id
  | recv_async_msg md =>
    cases md with
    | none => exact absurd he id
    | some event_code =>
      have hcode : event_code ≠ .BURST_ACK := he
      simp only [Lost, step, UhdDevice.recv_async_msg, if_pos hcode]
      exact ⟨trivial, hd.2 ha⟩
  | restart flushed => exact ⟨rfl, hd.2 ha⟩

theorem Lost.step {d : UhdDevice} {c : Call S} (h : Lost d) (hc : ¬ IsData d.chans c) :
    Lost (d.step c) := by
  obtain ⟨hk, ha⟩ := step_of_not_data hc
  refine ⟨?_, hk.trans h.2⟩
  rw [← Bool.not_eq_true]
  intro htrue
  exact Bool.noConfusion (h.1.symm.trans (ha htrue))

/-- **Alignment over every run of calls.**  The marks on the packets alternate, the first being an
end of burst; of the writes after an end of burst 28 are swallowed and the next starts a burst, and
no write is swallowed elsewhere; an underrun is reported with an end of burst only; and an error or
a restart while aligned makes the next write an end of burst. -/
theorem alignment (chans : ℕ) (calls : List (Call S)) :
    Alternate .endOfBurst ((writes (UhdDevice.new chans) calls).flatMap Written.marks) ∧
    (∀ a e b, writes (UhdDevice.new chans) calls = a ++ e :: b → .endOfBurst ∈ e.marks →
      ∀ i w, b[i]? = some w →
        (i < 28 → w.sent = none) ∧ (i = 28 → w.marks = [.startOfBurst])) ∧
    (∀ a w b, writes (UhdDevice.new chans) calls = a ++ w :: b → w.sent = none →
      ∃ a₁ e a₂, a = a₁ ++ e :: a₂ ∧ e.marks = [.endOfBurst] ∧ ∀ v ∈ a₂, v.marks = []) ∧
    (∀ w ∈ writes (UhdDevice.new chans) calls, w.underrun = true ↔ .endOfBurst ∈ w.marks) ∧
    (∀ before e between c after, calls = before ++ e :: (between ++ c :: after) →
      (Run.exec step (UhdDevice.new chans) before).aligned = true → Misaligns e →
      (∀ m ∈ between, ¬ IsData chans m) → IsData chans c →
      ∃ w, (Run.exec step (UhdDevice.new chans) (before ++ e :: between)).written c = some w ∧
        w.Ends) := by
  have hdrops : Drops 0 (writes (UhdDevice.new chans) calls) :=
    drops_outputs (counting_new chans) calls
  refine ⟨hdrops.alternate, ?_, ?_, ?_, ?_⟩
  · intro a e b heq he i w hw
    rw [heq] at hdrops
    have hseq := (hdrops.after_ends he).sequence le_rfl (by decide) hw
    exact ⟨fun hi => (hseq.1 (by omega)).1, fun hi => (hseq.2 (by omega)).2.1⟩
  · intro a w b heq hw
    rw [heq] at hdrops
    rcases hdrops.swallowed hw with ⟨h1, -⟩ | hbegan
    · omega
    · exact hbegan
  · intro w hw
    obtain ⟨d, c, hwritten⟩ := mem_writes hw
    exact written_underrun_iff hwritten
  · rintro before e between c after - halign he hbetween hc
    -- from the error on nothing but a write of data changes the state
    have hinv : ∀ d : UhdDevice, d.chans = chans ∧ Lost d →
        (Run.exec step d between).chans = chans ∧ Lost (Run.exec step d between) := by
      intro d hd
      have hpreserved : ∀ (d : UhdDevice) (m : Call S), d.chans = chans ∧ Lost d →
          ¬ IsData chans m → (d.step m).chans = chans ∧ Lost (d.step m) := by
        rintro d m ⟨hchans, hlost⟩ hm
        exact ⟨(step_chans d m).trans hchans, hlost.step (by rwa [hchans])⟩
      exact Run.invariant_exec hpreserved hd (Run.along_of_forall hbetween)
    have hbefore : (Run.exec step (UhdDevice.new chans) before).chans = chans ∧
        Counting (Run.exec step (UhdDevice.new chans) before) :=
      Run.exec_invariant (I := fun d : UhdDevice => d.chans = chans ∧ Counting d)
        (fun d m hd => ⟨(step_chans d m).trans hd.1, hd.2.step m⟩) ⟨rfl, counting_new chans⟩ before
    obtain ⟨hchans, hlost⟩ := hinv _
      ⟨(step_chans _ e).trans hbefore.1, lost_of_misaligns hbefore.2 halign he⟩
    rw [Run.exec_append, Run.exec_cons]
    have hcount : Counting (Run.exec step
        ((Run.exec step (UhdDevice.new chans) before).step e) between) :=
      ⟨by rw [hlost.2]; decide, fun _ => hlost.2⟩
    obtain ⟨w, hw, hcases⟩ := step_of_data hcount (hchans.symm ▸ hc)
    refine ⟨w, hw, ?_⟩
    rcases hcases with ⟨ha, -⟩ | ⟨-, -, hends, -⟩ | ⟨-, h1, -⟩ | ⟨-, h29, -⟩
    · exact Bool.noConfusion (hlost.1.symm.trans ha)
    · exact hends
    · have := hlost.2
      omega
    · have := hlost.2
      omega

/-- One channel: a sequence, an underflow, a restart, and the write after them. -/
theorem alignment_underflow :
    let write : Call ℤ := .writeSamples [0] 625 0 false 625
    ∃ w, (Run.exec step (UhdDevice.new 1)
        (List.replicate 30 write ++ .recv_async_msg (some .UNDERFLOW) ::
          [.restart true])).written write = some w ∧ w.Ends :=
  (alignment 1 (List.replicate 30 (.writeSamples [(0 : ℤ)] 625 0 false 625) ++
      .recv_async_msg (some .UNDERFLOW) ::
        ([.restart true] ++ .writeSamples [0] 625 0 false 625 :: []))).2.2.2.2
    _ _ _ _ [] rfl (by decide +kernel) (by decide) (by decide) (by decide)

end Uhd
end Device
end OsmoTrx
