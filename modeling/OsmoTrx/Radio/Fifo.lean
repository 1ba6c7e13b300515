import OsmoTrx.Radio.RadioBuffer
import OsmoTrx.Lib.Run

/-!
# The segmented ring buffer as a FIFO

A `RadioBuffer` under any sequence of its operations: arbitrary lengths on one side, whole
segments on the other, and `reset` at any time.

* `Enough` — the space or the samples that an operation asks for.
* `Carries` — the invariant: the samples put in since the last `reset` are those taken out
  followed by those in the ring, and the side that works by segment is aligned.
* `carries_apply` — an operation succeeds exactly if there is enough, changes nothing
  otherwise, and keeps the invariant.
* `buffer_fifo` — **the buffer is a bounded FIFO** in every state it can reach.
-/

namespace OsmoTrx
namespace Radio
namespace RadioBuffer

variable {α : Type}

/-! ## Operations -/

/-- The arguments of the constructor.  Lengths are natural numbers: those of the code are the same
as long as `numSegments * segmentLen`, and the samples with those to be written, fit `size_t`. -/
structure Dimensions extends Layout where
  segments_pos : 0 < numSegments
  segment_pos : 0 < segmentLen
  head_le : hLen ≤ numSegments * segmentLen

/-- An operation on a buffer.  `fill` is `getWriteSegment`, after which the segment is filled
with the samples `f 0`, `f 1`, ... -/
inductive Op (α : Type)
  | write (wr : List α)
  | zero (len : ℕ)
  | getReadSegment
  | fill (f : ℕ → α)
  | zeroWriteSegment
  | read (len : ℕ)
  | reset

/-- A buffer, with the samples put in and taken out since the last `reset`. -/
structure Traffic (α : Type) where
  buf : RadioBuffer α
  putIn : List α
  takenOut : List α

/-- One operation: whether it succeeds, and what it leaves behind. -/
def Traffic.apply [Zero α] (s : Traffic α) : Op α → Bool × Traffic α
  | .write wr =>
    match s.buf.write wr with
    | (true, b) => (true, ⟨b, s.putIn ++ wr, s.takenOut⟩)
    | (false, b) => (false, { s with buf := b })
  | .zero len =>
    match s.buf.zero len with
    | (true, b) => (true, ⟨b, s.putIn ++ List.replicate len 0, s.takenOut⟩)
    | (false, b) => (false, { s with buf := b })
  | .getReadSegment =>
    match s.buf.getReadSegment with
    | (some segment, b) =>
      (true, ⟨b, s.putIn, s.takenOut ++ Mem.slice b.buffer segment b.segmentLen⟩)
    | (none, b) => (false, { s with buf := b })
  | .fill f =>
    match s.buf.getWriteSegment with
    | (some segment, b) =>
      let wr := Mem.slice f 0 b.segmentLen
      (true, ⟨b.store segment wr, s.putIn ++ wr, s.takenOut⟩)
    | (none, b) => (false, { s with buf := b })
  | .zeroWriteSegment =>
    match s.buf.zeroWriteSegment with
    | (true, b) => (true, ⟨b, s.putIn ++ List.replicate b.segmentLen 0, s.takenOut⟩)
    | (false, b) => (false, { s with buf := b })
  | .read len =>
    match s.buf.read len with
    | (some rd, b) => (true, ⟨b, s.putIn, s.takenOut ++ rd⟩)
    | (none, b) => (false, { s with buf := b })
  | .reset => (true, ⟨s.buf.reset, [], []⟩)

/-- One operation, whether it succeeds or not. -/
def Traffic.step [Zero α] (s : Traffic α) (op : Op α) : Traffic α := (s.apply op).2

/-- There is enough space, or there are enough samples, for an operation of the buffer's
direction. -/
def Enough (b : RadioBuffer α) : Op α → Prop
  | .write wr => b.outDirection = true ∧ b.availSamples + wr.length ≤ b.bufferLen
  | .zero len => b.outDirection = true ∧ b.availSamples + len ≤ b.bufferLen
  | .getReadSegment => b.outDirection = true ∧ b.segmentLen ≤ b.availSamples
  | .fill _ => b.outDirection = false ∧ b.availSamples + b.segmentLen ≤ b.bufferLen
  | .zeroWriteSegment => b.outDirection = false ∧ b.availSamples + b.segmentLen ≤ b.bufferLen
  | .read len => b.outDirection = false ∧ len ≤ b.availSamples
  | .reset => True

/-! ## Operations that fail -/

section Refused

variable {b : RadioBuffer α}

theorem write_refused {wr : List α}
    (h : ¬ (b.outDirection = true ∧ b.availSamples + wr.length ≤ b.bufferLen)) :
    b.write wr = (false, b) := by
  unfold write
  cases hdir : b.outDirection with
  | false => rfl
  | true =>
    rw [if_neg (by simp), if_pos (by simpa [hdir] using h)]

theorem getReadSegment_refused
    (h : ¬ (b.outDirection = true ∧ b.segmentLen ≤ b.availSamples)) :
    b.getReadSegment = (none, b) := by
  unfold getReadSegment
  cases hdir : b.outDirection with
  | false => rfl
  | true =>
    rw [if_neg (by simp), if_pos (by simpa [hdir] using h)]

theorem getWriteSegment_refused (hpos : 0 < b.segmentLen)
    (h : ¬ (b.outDirection = false ∧ b.availSamples + b.segmentLen ≤ b.bufferLen)) :
    b.getWriteSegment = (none, b) := by
  unfold getWriteSegment
  cases hdir : b.outDirection with
  | true => rfl
  | false =>
    have hfull : b.bufferLen < b.availSamples + b.segmentLen := by simpa [hdir] using h
    rw [if_neg (by simp), if_pos (by omega)]

theorem read_refused {len : ℕ} (h : ¬ (b.outDirection = false ∧ len ≤ b.availSamples)) :
    b.read len = (none, b) := by
  unfold read
  cases hdir : b.outDirection with
  | true => rfl
  | false =>
    rw [if_neg (by simp), if_pos (by simpa [hdir] using h)]

end Refused

/-! ## The invariant -/

/-- The samples put in are those taken out and then those in the ring, and the side of the
buffer that works by segment is aligned. -/
structure Carries (l : Layout) (s : Traffic α) (held : List α) : Prop where
  layout : s.buf.toLayout = l
  head : l.outDirection = false → l.hLen = 0
  putIn : s.putIn = s.takenOut ++ held
  holds : s.buf.Holds held
  read_aligned : l.outDirection = true → l.segmentLen ∣ s.buf.readIndex
  write_aligned : l.outDirection = false → l.segmentLen ∣ s.buf.writeIndex

variable {l : Layout} {s : Traffic α} {held : List α}

theorem carries_reset (h : Carries l s held) : Carries l ⟨s.buf.reset, [], []⟩ [] where
  layout := h.layout
  head := h.head
  putIn := rfl
  holds := holds_nil h.holds.pos rfl rfl rfl
  read_aligned _ := dvd_zero _
  write_aligned _ := dvd_zero _

theorem Carries.write [Zero α] (h : Carries l s held) {wr : List α}
    (hen : Enough s.buf (.write wr)) :
    ∃ b, s.buf.write wr = (true, b) ∧ Carries l ⟨b, s.putIn ++ wr, s.takenOut⟩ (held ++ wr) := by
  obtain ⟨hdir, hfit⟩ := hen
  rw [h.holds.avail] at hfit
  obtain ⟨hok, hholds, hlay, hread⟩ := write_spec h.holds hdir hfit
  have hout : l.outDirection = true := by rw [← h.layout]; exact hdir
  refine ⟨(s.buf.write wr).2, Prod.ext hok rfl, ?_⟩
  exact
    { layout := hlay.trans h.layout
      head := h.head
      putIn := by rw [h.putIn, List.append_assoc]
      holds := hholds
      read_aligned := fun _ => by rw [hread]; exact h.read_aligned hout
      write_aligned := fun hin => by rw [hout] at hin; cases hin }

theorem Carries.getReadSegment [Zero α] (h : Carries l s held)
    (hen : Enough s.buf .getReadSegment) :
    ∃ segment b, s.buf.getReadSegment = (some segment, b) ∧
      Carries l ⟨b, s.putIn, s.takenOut ++ Mem.slice b.buffer segment b.segmentLen⟩
        (held.drop l.segmentLen) := by
  obtain ⟨hdir, hlen⟩ := hen
  have hout : l.outDirection = true := by rw [← h.layout]; exact hdir
  have hseg : s.buf.segmentLen = l.segmentLen := by rw [h.layout]
  rw [h.holds.avail] at hlen
  obtain ⟨segment, b, hget, hslice, hholds, hlay, hal⟩ := getReadSegment_spec h.holds hdir
    (by rw [hseg]; exact h.read_aligned hout) hlen
  have hseg' : b.segmentLen = l.segmentLen := by rw [hlay, h.layout]
  rw [hseg] at hslice hholds
  rw [hseg'] at hal
  refine ⟨segment, b, hget, ?_⟩
  exact
    { layout := hlay.trans h.layout
      head := h.head
      putIn := by rw [hseg', hslice, h.putIn, List.append_assoc, List.take_append_drop]
      holds := hholds
      read_aligned := fun _ => hal
      write_aligned := fun hin => by rw [hout] at hin; cases hin }

theorem Carries.getWriteSegment (h : Carries l s held) {wr : List α}
    (hlen : wr.length = l.segmentLen)
    (hen : s.buf.outDirection = false ∧
      s.buf.availSamples + s.buf.segmentLen ≤ s.buf.bufferLen) :
    ∃ segment b, s.buf.getWriteSegment = (some segment, b) ∧ b.segmentLen = l.segmentLen ∧
      Carries l ⟨b.store segment wr, s.putIn ++ wr, s.takenOut⟩ (held ++ wr) := by
  obtain ⟨hdir, hfit⟩ := hen
  have hin : l.outDirection = false := by rw [← h.layout]; exact hdir
  have hseg : s.buf.segmentLen = l.segmentLen := by rw [h.layout]
  rw [h.holds.avail] at hfit
  obtain ⟨segment, b, hget, hholds, hlay, hal⟩ := getWriteSegment_spec h.holds hdir
    (by rw [hseg]; exact h.write_aligned hin) (hlen.trans hseg.symm) hfit
  have hseg' : b.segmentLen = l.segmentLen := by rw [hlay, h.layout]
  refine ⟨segment, b, hget, hseg', ?_⟩
  exact
    { layout := hlay.trans h.layout
      head := h.head
      putIn := by rw [h.putIn, List.append_assoc]
      holds := hholds
      read_aligned := fun hout => by rw [hin] at hout; cases hout
      write_aligned := fun _ => by rw [hseg'] at hal; exact hal }

theorem Carries.read [Zero α] (h : Carries l s held) {len : ℕ} (hen : Enough s.buf (.read len)) :
    ∃ rd b, s.buf.read len = (some rd, b) ∧
      Carries l ⟨b, s.putIn, s.takenOut ++ rd⟩ (held.drop len) := by
  obtain ⟨hdir, hlen⟩ := hen
  have hin : l.outDirection = false := by rw [← h.layout]; exact hdir
  rw [h.holds.avail] at hlen
  obtain ⟨hrd, hholds, hlay, hwrite⟩ := read_spec h.holds hdir
    (by rw [h.layout]; exact h.head hin) hlen
  refine ⟨held.take len, (s.buf.read len).2, Prod.ext hrd rfl, ?_⟩
  exact
    { layout := hlay.trans h.layout
      head := h.head
      putIn := by rw [h.putIn, List.append_assoc, List.take_append_drop]
      holds := hholds
      read_aligned := fun hout => by rw [hin] at hout; cases hout
      write_aligned := fun _ => by rw [hwrite]; exact h.write_aligned hin }

/-- An operation for which there is enough succeeds. -/
theorem Carries.apply [Zero α] (h : Carries l s held) {op : Op α} (hen : Enough s.buf op) :
    (s.apply op).1 = true ∧ ∃ held', Carries l (s.apply op).2 held' := by
  cases op with
  | write wr =>
    obtain ⟨b, hwrite, hb⟩ := h.write hen
    rw [Traffic.apply, hwrite]
    exact ⟨rfl, _, hb⟩
  | zero len =>
    have hen' : Enough s.buf (.write (List.replicate len 0)) := by
      rw [Enough, List.length_replicate]
      exact hen
    obtain ⟨b, hwrite, hb⟩ := h.write hen'
    rw [Traffic.apply, zero_eq_write, hwrite]
    exact ⟨rfl, _, hb⟩
  | getReadSegment =>
    obtain ⟨segment, b, hget, hb⟩ := h.getReadSegment hen
    rw [Traffic.apply, hget]
    exact ⟨rfl, _, hb⟩
  | fill f =>
    obtain ⟨segment, b, hget, hseg, hb⟩ :=
      h.getWriteSegment (Mem.length_slice f 0 l.segmentLen) hen
    rw [Traffic.apply, hget]
    simp only [hseg]
    exact ⟨trivial, _, hb⟩
  | zeroWriteSegment =>
    obtain ⟨segment, b, hget, hseg, hb⟩ :=
      h.getWriteSegment (List.length_replicate (n := l.segmentLen) (a := (0 : α))) hen
    have hzero : s.buf.zeroWriteSegment =
        (true, b.store segment (List.replicate l.segmentLen 0)) := by
      rw [RadioBuffer.zeroWriteSegment, hget]
      simp only [hseg]
    rw [Traffic.apply, hzero]
    have hseg' : (b.store segment (List.replicate l.segmentLen 0)).segmentLen = l.segmentLen :=
      hseg
    simp only [hseg']
    exact ⟨trivial, _, hb⟩
  | read len =>
    obtain ⟨rd, b, hread, hb⟩ := h.read hen
    rw [Traffic.apply, hread]
    exact ⟨rfl, _, hb⟩
  | reset => exact ⟨rfl, [], carries_reset h⟩

/-- Any other one changes nothing. -/
theorem Carries.apply_refused [Zero α] (h : Carries l s held) {op : Op α}
    (hen : ¬ Enough s.buf op) : s.apply op = (false, s) := by
  have hget : ¬ (s.buf.outDirection = false ∧
      s.buf.availSamples + s.buf.segmentLen ≤ s.buf.bufferLen) →
      s.buf.getWriteSegment = (none, s.buf) :=
    getWriteSegment_refused h.holds.segmentLen_pos
  cases op with
  | write wr => rw [Traffic.apply, write_refused hen]
  | zero len =>
    have hen' : ¬ Enough s.buf (.write (List.replicate len 0)) := by
      rw [Enough, List.length_replicate]
      exact hen
    rw [Traffic.apply, zero_eq_write, write_refused hen']
  | getReadSegment => rw [Traffic.apply, getReadSegment_refused hen]
  | fill f => rw [Traffic.apply, hget hen]
  | zeroWriteSegment => rw [Traffic.apply, RadioBuffer.zeroWriteSegment, hget hen]
  | read len => rw [Traffic.apply, read_refused hen]
  | reset => exact absurd trivial hen

/-- **One operation**: it succeeds exactly if there is enough, changes nothing if it fails,
and keeps the invariant. -/
theorem carries_apply [Zero α] (h : Carries l s held) (op : Op α) :
    ((s.apply op).1 = true ↔ Enough s.buf op) ∧ (¬ Enough s.buf op → (s.apply op).2 = s) ∧
      ∃ held', Carries l (s.apply op).2 held' := by
  by_cases hen : Enough s.buf op
  · obtain ⟨hsuccess, held', hheld⟩ := h.apply hen
    exact ⟨iff_of_true hsuccess hen, fun hnot => absurd hen hnot, held', hheld⟩
  · rw [h.apply_refused hen]
    exact ⟨iff_of_false Bool.false_ne_true hen, fun _ => rfl, held, h⟩

/-! ## Runs -/

/-- The buffer behaves as a bounded FIFO in a state: the bounds and the indices agree, every
operation succeeds exactly if there is enough and changes nothing otherwise, no internal
error can occur, and what has been taken out is the beginning of what has been put in. -/
structure IsFifo [Zero α] (s : Traffic α) : Prop where
  avail_le : s.buf.availSamples ≤ s.buf.bufferLen
  write_eq : s.buf.writeIndex = (s.buf.readIndex + s.buf.availSamples) % s.buf.bufferLen
  succeeds : ∀ op, (s.apply op).1 = true ↔ Enough s.buf op
  refused : ∀ op, ¬ Enough s.buf op → s.step op = s
  read_segment : s.buf.readIndex / s.buf.segmentLen < s.buf.numSegments
  write_segment : s.buf.writeIndex / s.buf.segmentLen < s.buf.numSegments
  write_aligned : s.buf.outDirection = false → s.buf.writeIndex % s.buf.segmentLen = 0
  taken : s.takenOut <+: s.putIn
  length_eq : s.putIn.length = s.takenOut.length + s.buf.availSamples

theorem Carries.isFifo [Zero α] (h : Carries l s held) : IsFifo s where
  avail_le := by rw [h.holds.avail]; exact h.holds.fits
  write_eq := by rw [h.holds.avail]; exact h.holds.write_eq
  succeeds op := (carries_apply h op).1
  refused op := (carries_apply h op).2.1
  read_segment := (Nat.div_lt_iff_lt_mul h.holds.segmentLen_pos).mpr h.holds.read_lt
  write_segment := by
    rw [Nat.div_lt_iff_lt_mul h.holds.segmentLen_pos, h.holds.write_eq]
    exact Nat.mod_lt _ h.holds.pos
  write_aligned hin := by
    rw [h.layout] at hin
    have hal := h.write_aligned hin
    rw [h.layout]
    exact Nat.mod_eq_zero_of_dvd hal
  taken := by rw [h.putIn]; exact List.prefix_append _ _
  length_eq := by rw [h.putIn, List.length_append, h.holds.avail]

/-- A new buffer carries nothing. -/
theorem carries_new (d : Dimensions) (m : ℕ → α) :
    Carries (new d.numSegments d.segmentLen d.hLen d.outDirection m).toLayout
      ⟨new d.numSegments d.segmentLen d.hLen d.outDirection m, [], []⟩ [] where
  layout := rfl
  head hin := by
    have hdir : d.outDirection = false := hin
    simp [new, hdir]
  putIn := rfl
  holds := holds_nil (Nat.mul_pos d.segments_pos d.segment_pos) rfl rfl rfl
  read_aligned _ := dvd_zero _
  write_aligned _ := dvd_zero _

/-- **The buffer is a bounded FIFO** after every sequence of operations. -/
theorem buffer_fifo [Zero α] (d : Dimensions) (m : ℕ → α) (ops : List (Op α)) :
    IsFifo (Run.exec Traffic.step
      ⟨new d.numSegments d.segmentLen d.hLen d.outDirection m, [], []⟩ ops) := by
  obtain ⟨held, h⟩ := Run.exec_invariant (I := fun s => ∃ held, Carries _ s held)
    (fun s op ⟨held, h⟩ => (carries_apply h op).2.2) ⟨[], carries_new d m⟩ ops
  exact h.isFifo

/-- Two segments of two samples: the second write goes around the end of the ring, and what is read
comes out in order. -/
theorem buffer_fifo_around :
    let s := Run.exec Traffic.step ⟨new 2 2 1 true fun _ => (0 : ℤ), [], []⟩
      [.write [1, 2, 3], .getReadSegment, .write [4, 5], .write [6, 7], .getReadSegment]
    IsFifo s ∧ s.putIn = [1, 2, 3, 4, 5] ∧ s.takenOut = [1, 2, 3, 4] ∧ s.buf.writeIndex = 1 := by
  refine ⟨buffer_fifo ⟨⟨2, 2, 1, true⟩, by decide, by decide, by decide⟩ _ _, ?_⟩
  decide

end RadioBuffer
end Radio
end OsmoTrx
