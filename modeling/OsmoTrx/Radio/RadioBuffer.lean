import OsmoTrx.Lib.Mem

/-!
# The segmented ring buffer

`RadioBuffer` of `radioBuffer.cpp`.  A cell holds one complex sample, that is two
`float`s of the source; all its indices and lengths are even.  In the output direction
samples are written in any number and read by segment, behind `hLen` samples of history;
in the input direction segments are written and any number of samples is read.

* `Holds` — the refinement to a queue of samples: the buffer holds a list, in order.
* `write_spec`, `zero_spec`, `getReadSegment_spec` — the output direction.
* `getWriteSegment_spec`, `read_spec` — the input direction.
-/

namespace OsmoTrx
namespace Radio

/-- What the constructor of a buffer fixes. -/
structure Layout where
  numSegments : ℕ
  segmentLen : ℕ
  hLen : ℕ
  outDirection : Bool
  deriving DecidableEq, Repr

/-- `class RadioBuffer`.  A pointer to a segment is the index of its first cell. -/
structure RadioBuffer (α : Type) extends Layout where
  writeIndex : ℕ
  readIndex : ℕ
  availSamples : ℕ
  buffer : ℕ → α

namespace RadioBuffer

variable {α : Type}

/-- The number of samples the buffer has room for. -/
def bufferLen (b : RadioBuffer α) : ℕ := b.numSegments * b.segmentLen

/-- The constructor; the allocated array has some contents `m`. -/
def new (numSegments segmentLen hLen : ℕ) (outDirection : Bool) (m : ℕ → α) :
    RadioBuffer α where
  numSegments := numSegments
  segmentLen := segmentLen
  hLen := if outDirection then hLen else 0
  outDirection := outDirection
  writeIndex := 0
  readIndex := 0
  availSamples := 0
  buffer := m

/-- `reset`: the contents stay, the indices go back to the start. -/
def reset (b : RadioBuffer α) : RadioBuffer α :=
  { b with writeIndex := 0, readIndex := 0, availSamples := 0 }

/-- The first cell of segment `num`. -/
def segment (b : RadioBuffer α) (num : ℕ) : ℕ := b.hLen + num * b.segmentLen

def getAvailSegments (b : RadioBuffer α) : ℕ := b.availSamples / b.segmentLen

def getFreeSamples (b : RadioBuffer α) : ℕ := b.bufferLen - b.availSamples

def getFreeSegments (b : RadioBuffer α) : ℕ := b.getFreeSamples / b.segmentLen

/-! ## Output direction -/

/-- In front of segment 0 the end of the ring is copied. -/
def copyHistory (b : RadioBuffer α) (num : ℕ) : ℕ → α :=
  if num = 0 then Mem.blit b.buffer 0 (Mem.slice b.buffer b.bufferLen b.hLen) else b.buffer

/-- `getReadSegment`: the oldest segment, if a complete one is available. -/
def getReadSegment (b : RadioBuffer α) : Option ℕ × RadioBuffer α :=
  if !b.outDirection then (none, b)
  else if b.availSamples < b.segmentLen then (none, b)
  else
    let num := b.readIndex / b.segmentLen
    if num ≥ b.numSegments then (none, b)
    else
      (some (b.segment num),
        { b with
          buffer := b.copyHistory num
          availSamples := b.availSamples - b.segmentLen
          readIndex := (b.readIndex + b.segmentLen) % b.bufferLen })

/-- `write`: append a non-segment length of samples. -/
def write (b : RadioBuffer α) (wr : List α) : Bool × RadioBuffer α :=
  if !b.outDirection then (false, b)
  else if b.availSamples + wr.length > b.bufferLen then (false, b)
  else
    let buffer :=
      if b.writeIndex + wr.length ≤ b.bufferLen then Mem.blit b.buffer (b.writeIndex + b.hLen) wr
      else
        let len0 := b.bufferLen - b.writeIndex
        Mem.blit (Mem.blit b.buffer (b.writeIndex + b.hLen) (wr.take len0)) b.hLen (wr.drop len0)
    (true,
      { b with
        buffer := buffer
        availSamples := b.availSamples + wr.length
        writeIndex := (b.writeIndex + wr.length) % b.bufferLen })

/-- `zero`: append `len` zero samples. -/
def zero [Zero α] (b : RadioBuffer α) (len : ℕ) : Bool × RadioBuffer α :=
  if !b.outDirection then (false, b)
  else if b.availSamples + len > b.bufferLen then (false, b)
  else
    let buffer :=
      if b.writeIndex + len ≤ b.bufferLen then
        Mem.blit b.buffer (b.writeIndex + b.hLen) (List.replicate len 0)
      else
        let len0 := b.bufferLen - b.writeIndex
        let len1 := len - len0
        Mem.blit (Mem.blit b.buffer (b.writeIndex + b.hLen) (List.replicate len0 0)) b.hLen
          (List.replicate len1 0)
    (true,
      { b with
        buffer := buffer
        availSamples := b.availSamples + len
        writeIndex := (b.writeIndex + len) % b.bufferLen })

/-! ## Input direction -/

/-- `getWriteSegment`: the next free segment, if there is one. -/
def getWriteSegment (b : RadioBuffer α) : Option ℕ × RadioBuffer α :=
  if b.outDirection then (none, b)
  else if b.bufferLen - b.availSamples < b.segmentLen then (none, b)
  else if b.writeIndex % b.segmentLen ≠ 0 then (none, b)
  else
    let num := b.writeIndex / b.segmentLen
    if num ≥ b.numSegments then (none, b)
    else
      (some (b.segment num),
        { b with
          availSamples := b.availSamples + b.segmentLen
          writeIndex := (b.writeIndex + b.segmentLen) % b.bufferLen })

/-- Samples written through the pointer to a segment. -/
def store (b : RadioBuffer α) (off : ℕ) (wr : List α) : RadioBuffer α :=
  { b with buffer := Mem.blit b.buffer off wr }

/-- `zeroWriteSegment`. -/
def zeroWriteSegment [Zero α] (b : RadioBuffer α) : Bool × RadioBuffer α :=
  match b.getWriteSegment with
  | (none, b) => (false, b)
  | (some segment, b) => (true, b.store segment (List.replicate b.segmentLen 0))

/-- `read`: take the oldest `len` samples off, if there are as many. -/
def read (b : RadioBuffer α) (len : ℕ) : Option (List α) × RadioBuffer α :=
  if b.outDirection then (none, b)
  else if b.availSamples < len then (none, b)
  else
    let rd :=
      if b.readIndex + len ≤ b.bufferLen then Mem.slice b.buffer b.readIndex len
      else
        let len0 := b.bufferLen - b.readIndex
        Mem.slice b.buffer b.readIndex len0 ++ Mem.slice b.buffer 0 (len - len0)
    (some rd,
      { b with
        availSamples := b.availSamples - len
        readIndex := (b.readIndex + len) % b.bufferLen })

/-! ## The queue of samples -/

/-- The buffer holds the samples `xs`, oldest first. -/
structure Holds (b : RadioBuffer α) (xs : List α) : Prop where
  read_lt : b.readIndex < b.bufferLen
  fits : xs.length ≤ b.bufferLen
  avail : b.availSamples = xs.length
  write_eq : b.writeIndex = (b.readIndex + xs.length) % b.bufferLen
  stored : Mem.Stored b.buffer b.hLen b.bufferLen b.readIndex xs

variable {b : RadioBuffer α} {xs : List α}

theorem Holds.pos (h : b.Holds xs) : 0 < b.bufferLen := Nat.zero_lt_of_lt h.read_lt

theorem Holds.segmentLen_pos (h : b.Holds xs) : 0 < b.segmentLen :=
  Nat.pos_of_mul_pos_left h.pos

/-- A buffer whose indices are at the start holds nothing. -/
theorem holds_nil (hpos : 0 < b.bufferLen) (hr : b.readIndex = 0) (hw : b.writeIndex = 0)
    (ha : b.availSamples = 0) : b.Holds [] where
  read_lt := by omega
  fits := Nat.zero_le _
  avail := by simpa using ha
  write_eq := by simp [hr, hw]
  stored := Mem.stored_nil _ _ _ _

/-- Writing is a write to the ring. -/
theorem write_eq_ringWrite (b : RadioBuffer α) (wr : List α) (hdir : b.outDirection = true)
    (hfit : b.availSamples + wr.length ≤ b.bufferLen) :
    b.write wr = (true,
      { b with
        buffer := Mem.ringWrite b.buffer b.hLen b.bufferLen b.writeIndex wr
        availSamples := b.availSamples + wr.length
        writeIndex := (b.writeIndex + wr.length) % b.bufferLen }) := by
  simp only [write, hdir, Bool.not_true, Bool.false_eq_true, if_false, not_lt.mpr hfit,
    Mem.ringWrite, Nat.add_comm b.hLen]

/-- Zeroing is writing zeros. -/
theorem zero_eq_write [Zero α] (b : RadioBuffer α) (len : ℕ) :
    b.zero len = b.write (List.replicate len 0) := by
  simp only [zero, write, List.length_replicate, List.take_replicate, List.drop_replicate]
  split_ifs with hdir hfit hwrap
  · rfl
  · rfl
  · rfl
  · rw [Nat.min_eq_left (by omega)]

/-- **Writing appends**, as long as the samples fit. -/
theorem write_spec {ys : List α} (h : b.Holds xs) (hdir : b.outDirection = true)
    (hfit : xs.length + ys.length ≤ b.bufferLen) :
    (b.write ys).1 = true ∧ (b.write ys).2.Holds (xs ++ ys) ∧
      (b.write ys).2.toLayout = b.toLayout ∧ (b.write ys).2.readIndex = b.readIndex := by
  rw [write_eq_ringWrite b ys hdir (by rw [h.avail]; exact hfit)]
  refine ⟨rfl, ⟨h.read_lt, ?_, ?_, ?_, ?_⟩, rfl, rfl⟩
  · rw [List.length_append]; exact hfit
  · rw [List.length_append, ← h.avail]
  · simp only [bufferLen]
    rw [h.write_eq, List.length_append, ← Nat.add_assoc, bufferLen, Nat.mod_add_mod]
  · have := Mem.stored_ringWrite h.pos h.stored hfit
    rw [← h.write_eq] at this
    exact this

/-- Zeroing appends zeros. -/
theorem zero_spec [Zero α] {len : ℕ} (h : b.Holds xs) (hdir : b.outDirection = true)
    (hfit : xs.length + len ≤ b.bufferLen) :
    (b.zero len).1 = true ∧ (b.zero len).2.Holds (xs ++ List.replicate len 0) ∧
      (b.zero len).2.toLayout = b.toLayout ∧ (b.zero len).2.readIndex = b.readIndex := by
  rw [zero_eq_write]
  exact write_spec h hdir (by simpa using hfit)

/-- The segment an aligned index belongs to. -/
theorem segment_of_aligned {r : ℕ} (hseg : 0 < b.segmentLen) (hal : b.segmentLen ∣ r)
    (hr : r < b.bufferLen) :
    r / b.segmentLen < b.numSegments ∧ b.segment (r / b.segmentLen) = b.hLen + r ∧
      r + b.segmentLen ≤ b.bufferLen := by
  obtain ⟨k, rfl⟩ := hal
  have hk : k < b.numSegments := by
    rw [bufferLen, Nat.mul_comm] at hr
    exact Nat.lt_of_mul_lt_mul_right hr
  rw [Nat.mul_div_cancel_left _ hseg]
  refine ⟨hk, by rw [segment, Nat.mul_comm], ?_⟩
  calc b.segmentLen * k + b.segmentLen = (k + 1) * b.segmentLen := by ring
    _ ≤ b.numSegments * b.segmentLen := Nat.mul_le_mul_right _ hk

/-- The next aligned index is aligned. -/
theorem aligned_next {r : ℕ} (hal : b.segmentLen ∣ r) :
    b.segmentLen ∣ (r + b.segmentLen) % b.bufferLen :=
  (Nat.dvd_mod_iff (Dvd.intro_left _ rfl)).mpr (Dvd.dvd.add hal (dvd_refl _))

/-- A slice of the ring that does not wrap. -/
theorem slice_of_stored {m : ℕ → α} {h c r len : ℕ} (hs : Mem.Stored m h c r xs)
    (hlen : len ≤ xs.length) (hfit : r + len ≤ c) : Mem.slice m (h + r) len = xs.take len := by
  have htake : (xs.take len).length = len := by rw [List.length_take]; omega
  have hcells : ∀ i (hi : i < (xs.take len).length), m (h + r + i) = (xs.take len)[i] := by
    intro i hi
    rw [htake] at hi
    have hcell := hs i (by omega)
    rw [Nat.mod_eq_of_lt (by omega : r + i < c)] at hcell
    rw [List.getElem_take, Nat.add_assoc]
    exact hcell
  have hslice := Mem.slice_eq_of_forall hcells
  rwa [htake] at hslice

/-- The copy of the history does not touch the ring. -/
theorem copyHistory_of_ge (b : RadioBuffer α) (num : ℕ) {i : ℕ} (hi : b.hLen ≤ i) :
    b.copyHistory num i = b.buffer i := by
  unfold copyHistory
  split_ifs
  · exact Mem.blit_of_ge (by simpa using hi)
  · rfl

theorem stored_copyHistory {c r : ℕ} (num : ℕ) (hs : Mem.Stored b.buffer b.hLen c r xs) :
    Mem.Stored (b.copyHistory num) b.hLen c r xs := by
  intro k hk
  rw [copyHistory_of_ge _ _ (Nat.le_add_right _ _)]
  exact hs k hk

/-- The segment that is read starts at the read position. -/
theorem getReadSegment_eq (h : b.Holds xs) (hdir : b.outDirection = true)
    (hal : b.segmentLen ∣ b.readIndex) (hlen : b.segmentLen ≤ xs.length) :
    b.getReadSegment = (some (b.hLen + b.readIndex),
      { b with
        buffer := b.copyHistory (b.readIndex / b.segmentLen)
        availSamples := b.availSamples - b.segmentLen
        readIndex := (b.readIndex + b.segmentLen) % b.bufferLen }) := by
  obtain ⟨hnum, hseg, -⟩ := segment_of_aligned h.segmentLen_pos hal h.read_lt
  have havail : ¬ b.availSamples < b.segmentLen := by
    rw [h.avail]
    exact not_lt.mpr hlen
  simp only [getReadSegment, hdir, Bool.not_true, Bool.false_eq_true, if_false, havail,
    ge_iff_le, not_le.mpr hnum, hseg]

/-- **Reading a segment takes the oldest samples.**  The pointer shows them, and the
buffer holds the others. -/
theorem getReadSegment_spec (h : b.Holds xs) (hdir : b.outDirection = true)
    (hal : b.segmentLen ∣ b.readIndex) (hlen : b.segmentLen ≤ xs.length) :
    ∃ off b', b.getReadSegment = (some off, b') ∧
      Mem.slice b'.buffer off b.segmentLen = xs.take b.segmentLen ∧
      b'.Holds (xs.drop b.segmentLen) ∧ b'.toLayout = b.toLayout ∧
      b'.segmentLen ∣ b'.readIndex := by
  obtain ⟨-, -, hend⟩ := segment_of_aligned h.segmentLen_pos hal h.read_lt
  have hstored := stored_copyHistory (b.readIndex / b.segmentLen) h.stored
  refine ⟨_, _, getReadSegment_eq h hdir hal hlen, slice_of_stored hstored hlen hend, ?_, rfl,
    aligned_next hal⟩
  refine ⟨Nat.mod_lt _ h.pos, ?_, ?_, ?_, Mem.stored_drop hstored⟩
  · rw [List.length_drop]
    exact (Nat.sub_le _ _).trans h.fits
  · rw [List.length_drop, ← h.avail]
  · simp only [bufferLen]
    rw [h.write_eq, List.length_drop, Nat.mod_add_mod, bufferLen]
    congr 1
    omega

/-- **Writing a segment appends it**, if there is a free one. -/
theorem getWriteSegment_spec {ys : List α} (h : b.Holds xs) (hdir : b.outDirection = false)
    (hal : b.segmentLen ∣ b.writeIndex) (hlen : ys.length = b.segmentLen)
    (hfit : xs.length + b.segmentLen ≤ b.bufferLen) :
    ∃ off b', b.getWriteSegment = (some off, b') ∧ (b'.store off ys).Holds (xs ++ ys) ∧
      b'.toLayout = b.toLayout ∧ b'.segmentLen ∣ b'.writeIndex := by
  have hwlt : b.writeIndex < b.bufferLen := by
    rw [h.write_eq]
    exact Nat.mod_lt _ h.pos
  obtain ⟨hnum, hseg, hend⟩ := segment_of_aligned h.segmentLen_pos hal hwlt
  refine ⟨b.segment (b.writeIndex / b.segmentLen),
    { b with
      availSamples := b.availSamples + b.segmentLen
      writeIndex := (b.writeIndex + b.segmentLen) % b.bufferLen }, ?_, ?_, rfl, aligned_next hal⟩
  · have havail : ¬ b.bufferLen - b.availSamples < b.segmentLen := by
      rw [h.avail]
      omega
    simp only [getWriteSegment, hdir, Bool.false_eq_true, if_false, havail,
      Nat.mod_eq_zero_of_dvd hal, ne_eq, not_true_eq_false, ge_iff_le, not_le.mpr hnum]
  · have hwrite : Mem.ringWrite b.buffer b.hLen b.bufferLen b.writeIndex ys =
        Mem.blit b.buffer (b.hLen + b.writeIndex) ys := by
      rw [Mem.ringWrite, if_pos (by rw [hlen]; exact hend)]
    refine ⟨h.read_lt, ?_, ?_, ?_, ?_⟩
    · rw [List.length_append, hlen]; exact hfit
    · simp only [store]
      rw [List.length_append, hlen, h.avail]
    · simp only [store, bufferLen]
      rw [h.write_eq, List.length_append, hlen, ← Nat.add_assoc, bufferLen, Nat.mod_add_mod]
    · have hfit' : xs.length + ys.length ≤ b.bufferLen := by rw [hlen]; exact hfit
      have hstored := Mem.stored_ringWrite h.pos h.stored hfit'
      rw [← h.write_eq, hwrite] at hstored
      simp only [store, hseg]
      exact hstored

/-- **Reading takes the oldest samples off**, if there are as many. -/
theorem read_spec {len : ℕ} (h : b.Holds xs) (hdir : b.outDirection = false) (hh : b.hLen = 0)
    (hlen : len ≤ xs.length) :
    (b.read len).1 = some (xs.take len) ∧ (b.read len).2.Holds (xs.drop len) ∧
      (b.read len).2.toLayout = b.toLayout ∧ (b.read len).2.writeIndex = b.writeIndex := by
  have hread : b.read len = (some (Mem.ringRead b.buffer b.hLen b.bufferLen b.readIndex len),
      { b with
        availSamples := b.availSamples - len
        readIndex := (b.readIndex + len) % b.bufferLen }) := by
    simp only [read, hdir, Bool.false_eq_true, if_false, h.avail, not_lt.mpr hlen, hh,
      Mem.ringRead, Nat.zero_add]
  rw [hread, Mem.ringRead_eq_take h.read_lt h.stored hlen h.fits]
  refine ⟨rfl, ⟨Nat.mod_lt _ h.pos, ?_, ?_, ?_, Mem.stored_drop h.stored⟩, rfl, rfl⟩
  · rw [List.length_drop]
    exact (Nat.sub_le _ _).trans h.fits
  · rw [List.length_drop, ← h.avail]
  · simp only [bufferLen]
    rw [h.write_eq, List.length_drop, Nat.mod_add_mod, bufferLen]
    congr 1
    omega

/-- An aligned buffer that holds less than the free segments leaves room for one more. -/
theorem Holds.getFreeSegments_pos (h : b.Holds xs)
    (hfit : xs.length + b.segmentLen ≤ b.bufferLen) : 0 < b.getFreeSegments := by
  rw [getFreeSegments, getFreeSamples, h.avail]
  exact Nat.div_pos (by omega) h.segmentLen_pos

theorem Holds.getAvailSegments_pos_iff (h : b.Holds xs) :
    0 < b.getAvailSegments ↔ b.segmentLen ≤ xs.length := by
  rw [getAvailSegments, h.avail]
  constructor
  · intro hpos
    by_contra hlt
    rw [Nat.div_eq_of_lt (not_le.mp hlt)] at hpos
    exact lt_irrefl _ hpos
  · intro hle
    exact Nat.div_pos hle h.segmentLen_pos

end RadioBuffer
end Radio
end OsmoTrx
