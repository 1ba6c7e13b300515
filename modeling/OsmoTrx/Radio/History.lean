import OsmoTrx.Radio.Transmit

/-!
# The history in front of a segment

A segment that `getReadSegment` returns is filtered together with the `hLen` samples in front of
it.  Nothing is copied for that but the end of the ring in front of segment 0: the samples are those
that have been read before, as long as they have not been overwritten.

* `Follows` — the ring holds the last `hLen` samples read and, behind them, the samples to read.
* `follows_fresh`, `Follows.write`, `Follows.getReadSegment` — one lemma for each operation.
* `RadioBuffer.window` — what a filter can read of a segment and its history.
* `pastOf` — the history as a piece of the stream, and how it moves on.
-/

namespace OsmoTrx
namespace Radio
namespace RadioBuffer

variable {α : Type}

/-- The buffer holds the samples `xs` behind the samples `past`, which have been read. -/
structure Follows (b : RadioBuffer α) (past xs : List α) : Prop where
  holds : b.Holds xs
  length : past.length = b.hLen
  fits : past.length + xs.length ≤ b.bufferLen
  stored : Mem.Stored b.buffer b.hLen b.bufferLen (b.readIndex + b.bufferLen - b.hLen)
    (past ++ xs)

variable {b : RadioBuffer α} {past xs : List α}

/-- In a fresh buffer the end of the ring counts as read. -/
theorem follows_fresh {l : Layout} (h : Fresh b l) (hpos : 0 < b.bufferLen)
    (hfits : b.hLen ≤ b.bufferLen) :
    b.Follows (Mem.slice b.buffer b.bufferLen b.hLen) [] := by
  refine ⟨holds_nil hpos h.read h.write h.avail, Mem.length_slice _ _ _, ?_, fun k hk => ?_⟩
  · rw [Mem.length_slice, List.length_nil]
    exact hfits
  · rw [List.append_nil, Mem.length_slice] at hk
    simp only [List.append_nil, Mem.getElem_slice, h.read]
    rw [Nat.mod_eq_of_lt (by omega)]
    congr 1
    omega

/-- **Writing** leaves the history alone where there is room for it. -/
theorem Follows.write (h : b.Follows past xs) {ys : List α} (hdir : b.outDirection = true)
    (hfit : past.length + xs.length + ys.length ≤ b.bufferLen) :
    (b.write ys).2.Follows past (xs ++ ys) := by
  have hlen := h.length
  have hpos := h.holds.pos
  have hroom : xs.length + ys.length ≤ b.bufferLen := by omega
  have hroom' : (past ++ xs).length + ys.length ≤ b.bufferLen := by
    rw [List.length_append]
    exact hfit
  obtain ⟨-, hholds, hlay, hread⟩ := write_spec h.holds hdir hroom
  have hh : (b.write ys).2.hLen = b.hLen := congrArg Layout.hLen hlay
  have hc : (b.write ys).2.bufferLen = b.bufferLen := by
    rw [bufferLen, bufferLen, hlay]
  have hindex : (b.readIndex + b.bufferLen - b.hLen + (past ++ xs).length) % b.bufferLen =
      b.writeIndex := by
    rw [List.length_append, h.holds.write_eq, hlen,
      show b.readIndex + b.bufferLen - b.hLen + (b.hLen + xs.length) =
        b.readIndex + xs.length + b.bufferLen by omega, Nat.add_mod_right]
  have hstored := Mem.stored_ringWrite hpos h.stored hroom'
  rw [hindex] at hstored
  refine ⟨hholds, hlen.trans hh.symm, ?_, ?_⟩
  · rw [List.length_append, hc]
    omega
  · rw [hh, hc, hread, ← List.append_assoc]
    rw [write_eq_ringWrite b ys hdir (by rw [h.holds.avail]; omega)]
    exact hstored

/-- The samples in front of a segment and those in it, once the end of the ring has been copied. -/
theorem Follows.slice_copyHistory (h : b.Follows past xs) (hal : b.segmentLen ∣ b.readIndex)
    (hhead : b.hLen ≤ b.segmentLen) (hlen : b.segmentLen ≤ xs.length) :
    Mem.slice (b.copyHistory (b.readIndex / b.segmentLen)) b.readIndex
      (b.hLen + b.segmentLen) = past ++ xs.take b.segmentLen := by
  have hfits := h.fits
  have hpast := h.length
  have hseg := h.holds.segmentLen_pos
  obtain ⟨-, -, hend⟩ := segment_of_aligned hseg hal h.holds.read_lt
  have htake : past ++ xs.take b.segmentLen = (past ++ xs).take (b.hLen + b.segmentLen) := by
    rw [List.take_append, ← hpast, List.take_of_length_le (Nat.le_add_right _ _),
      Nat.add_sub_cancel_left]
  have htotal : ((past ++ xs).take (b.hLen + b.segmentLen)).length = b.hLen + b.segmentLen := by
    rw [List.length_take, List.length_append]
    omega
  have hcells : ∀ i (hi : i < ((past ++ xs).take (b.hLen + b.segmentLen)).length),
      b.copyHistory (b.readIndex / b.segmentLen) (b.readIndex + i) =
        ((past ++ xs).take (b.hLen + b.segmentLen))[i] := by
    intro i hi
    have hi' : i < b.hLen + b.segmentLen := htotal ▸ hi
    have hstored := h.stored i (by rw [List.length_append]; omega)
    rw [List.getElem_take, ← hstored]
    by_cases hring : b.hLen ≤ b.readIndex + i
    · -- the sample lies in the ring
      rw [copyHistory_of_ge _ _ hring, show b.readIndex + b.bufferLen - b.hLen + i =
        b.readIndex + i - b.hLen + b.bufferLen by omega, Nat.add_mod_right,
        Nat.mod_eq_of_lt (by omega)]
      congr 1
      omega
    · -- the sample lies in front of segment 0
      have hzero : b.readIndex = 0 := Nat.eq_zero_of_dvd_of_lt hal (by omega)
      have hslice : i < (Mem.slice b.buffer b.bufferLen b.hLen).length := by
        rw [Mem.length_slice]
        omega
      rw [hzero, Nat.zero_div, copyHistory, if_pos rfl, Mem.blit_apply hslice, Mem.getElem_slice,
        Nat.mod_eq_of_lt (by omega)]
      congr 1
      omega
  have hall := Mem.slice_eq_of_forall hcells
  rw [htake]
  rwa [htotal] at hall

/-- **Reading a segment**: the pointer shows it behind its history, and the segment is the history
from then on. -/
theorem Follows.getReadSegment (h : b.Follows past xs) (hdir : b.outDirection = true)
    (hal : b.segmentLen ∣ b.readIndex) (hhead : b.hLen ≤ b.segmentLen)
    (hlen : b.segmentLen ≤ xs.length) :
    ∃ off b', b.getReadSegment = (some off, b') ∧ b'.hLen ≤ off ∧
      Mem.slice b'.buffer (off - b'.hLen) (b'.hLen + b'.segmentLen) =
        past ++ xs.take b.segmentLen ∧
      b'.Follows ((past ++ xs.take b.segmentLen).drop b.segmentLen) (xs.drop b.segmentLen) ∧
      b'.toLayout = b.toLayout ∧ b'.segmentLen ∣ b'.readIndex := by
  have hfits := h.fits
  have hpast := h.length
  obtain ⟨off, b', hget, -, hholds, -, -⟩ := getReadSegment_spec h.holds hdir hal hlen
  have hresult := getReadSegment_eq h.holds hdir hal hlen
  obtain rfl : _ = b' := congrArg Prod.snd (hresult.symm.trans hget)
  refine ⟨_, _, hresult, Nat.le_add_right _ _, ?_, ?_, rfl, aligned_next hal⟩
  · change Mem.slice _ (b.hLen + b.readIndex - b.hLen) (b.hLen + b.segmentLen) = _
    rw [Nat.add_sub_cancel_left]
    exact h.slice_copyHistory hal hhead hlen
  · have hlength : b.segmentLen ≤ (past ++ xs.take b.segmentLen).length := by
      rw [List.length_append, List.length_take]
      omega
    have hsplit : (past ++ xs.take b.segmentLen).drop b.segmentLen ++ xs.drop b.segmentLen =
        (past ++ xs).drop b.segmentLen := by
      rw [← List.drop_append_of_le_length hlength, List.append_assoc, List.take_append_drop]
    have hcopied := stored_copyHistory (b.readIndex / b.segmentLen) h.stored
    refine ⟨hholds, ?_, ?_, ?_⟩
    · change _ = b.hLen
      rw [List.length_drop, List.length_append, List.length_take]
      omega
    · change _ ≤ b.bufferLen
      rw [← List.length_append, hsplit, List.length_drop, List.length_append]
      omega
    · have hdrop := Mem.stored_drop (n := b.segmentLen) hcopied
      rw [hsplit, ← Mem.stored_mod]
      change Mem.Stored _ b.hLen b.bufferLen
        (((b.readIndex + b.segmentLen) % b.bufferLen + b.bufferLen - b.hLen) % b.bufferLen) _
      rw [Nat.add_sub_assoc (by omega), Nat.mod_add_mod, show b.readIndex + b.segmentLen +
        (b.bufferLen - b.hLen) = b.readIndex + b.bufferLen - b.hLen + b.segmentLen by omega]
      exact hdrop

/-! ## The stream -/

/-- What a filter reads when it is given the next segment: its history and its samples. -/
def window (b : RadioBuffer α) : List α :=
  match b.getReadSegment with
  | (none, _) => []
  | (some segment, b) => Mem.slice b.buffer (segment - b.hLen) (b.hLen + b.segmentLen)

/-- After `k` segments the buffer holds the rest of a stream, of which the first `hLen` samples have
not been written but were there from the start. -/
structure Streams (b : RadioBuffer α) (stream : List α) (k : ℕ) : Prop where
  follows : b.Follows ((stream.drop (k * b.segmentLen)).take b.hLen)
    (stream.drop (k * b.segmentLen + b.hLen))
  dir : b.outDirection = true
  aligned : b.segmentLen ∣ b.readIndex
  head : b.hLen ≤ b.segmentLen
  read_le : k * b.segmentLen + b.hLen ≤ stream.length

variable {stream : List α} {k : ℕ}

theorem Streams.avail (h : b.Streams stream k) :
    b.availSamples + (k * b.segmentLen + b.hLen) = stream.length := by
  have hle := h.read_le
  rw [h.follows.holds.avail, List.length_drop]
  omega

/-- A fresh buffer starts a stream with the end of the ring. -/
theorem streams_fresh {l : Layout} (h : Fresh b l) (hdir : b.outDirection = true)
    (hpos : 0 < b.bufferLen) (hhead : b.hLen ≤ b.segmentLen) (hseg : 0 < b.numSegments) :
    b.Streams (Mem.slice b.buffer b.bufferLen b.hLen) 0 := by
  have hfits : b.hLen ≤ b.bufferLen := hhead.trans (Nat.le_mul_of_pos_left _ hseg)
  have hlen := Mem.length_slice b.buffer b.bufferLen b.hLen
  refine ⟨?_, hdir, ?_, hhead, ?_⟩
  · rw [Nat.zero_mul, List.drop_zero, Nat.zero_add, List.take_of_length_le hlen.le,
      List.drop_of_length_le hlen.le]
    exact follows_fresh h hpos hfits
  · rw [h.read]
    exact dvd_zero _
  · rw [hlen, Nat.zero_mul, Nat.zero_add]

/-- **A burst** is appended to the stream, if there is room for it and for the history. -/
theorem Streams.radioify [Zero α] (h : b.Streams stream k) {wVector : List α} (zero : Bool)
    (hfit : b.hLen + b.availSamples + wVector.length ≤ b.bufferLen) :
    (radioifyVector b wVector zero).1 = true ∧
      (radioifyVector b wVector zero).2.Streams (stream ++ burstSamples wVector zero) k ∧
      (radioifyVector b wVector zero).2.toLayout = b.toLayout := by
  have hle := h.read_le
  have havail := h.follows.holds.avail
  have hburst : (burstSamples wVector zero).length = wVector.length := length_burstSamples _ _
  have hroom : (stream.drop (k * b.segmentLen + b.hLen)).length + wVector.length ≤
      b.bufferLen := by
    rw [← havail]
    omega
  obtain ⟨hok, -, hlay, hread⟩ := radioifyVector_spec zero h.follows.holds h.dir hroom
  have hwrite : (radioifyVector b wVector zero).2 = (b.write (burstSamples wVector zero)).2 := by
    cases zero with
    | true =>
      rw [radioifyVector, if_pos rfl, zero_eq_write]
      rfl
    | false => rfl
  have hseg : (radioifyVector b wVector zero).2.segmentLen = b.segmentLen :=
    congrArg Layout.segmentLen hlay
  have hhLen : (radioifyVector b wVector zero).2.hLen = b.hLen := congrArg Layout.hLen hlay
  have hpast := h.follows.length
  refine ⟨hok, ⟨?_, ?_, ?_, ?_, ?_⟩, hlay⟩
  · rw [hseg, hhLen, List.drop_append_of_le_length (by omega),
      List.take_append_of_le_length (by rw [List.length_drop]; omega),
      List.drop_append_of_le_length hle, hwrite]
    exact h.follows.write h.dir (by rw [hpast, ← havail, hburst]; exact hfit)
  · exact (congrArg Layout.outDirection hlay).trans h.dir
  · rw [hseg, hread]
    exact h.aligned
  · rw [hseg, hhLen]
    exact h.head
  · rw [hseg, hhLen, List.length_append]
    omega

/-- **A segment** is read behind its history. -/
theorem Streams.getReadSegment (h : b.Streams stream k) (hlen : b.segmentLen ≤ b.availSamples) :
    ∃ off b', b.getReadSegment = (some off, b') ∧ b'.hLen ≤ off ∧
      b.window = (stream.drop (k * b.segmentLen)).take (b.hLen + b.segmentLen) ∧
      Mem.slice b'.buffer (off - b'.hLen) (b'.hLen + b'.segmentLen) = b.window ∧
      b'.Streams stream (k + 1) ∧ b'.toLayout = b.toLayout := by
  have hle := h.read_le
  have havail := h.avail
  obtain ⟨off, b', hget, hoff, hslice, hfollows, hlay, hal⟩ := h.follows.getReadSegment h.dir
    h.aligned h.head (by rw [← h.follows.holds.avail]; exact hlen)
  have hwindow : b.window = Mem.slice b'.buffer (off - b'.hLen) (b'.hLen + b'.segmentLen) := by
    rw [window, hget]
  have hpiece : (stream.drop (k * b.segmentLen)).take b.hLen ++
      (stream.drop (k * b.segmentLen + b.hLen)).take b.segmentLen =
      (stream.drop (k * b.segmentLen)).take (b.hLen + b.segmentLen) := by
    rw [List.take_add, List.drop_drop]
  have hseg : b'.segmentLen = b.segmentLen := congrArg Layout.segmentLen hlay
  have hhLen : b'.hLen = b.hLen := congrArg Layout.hLen hlay
  rw [hpiece] at hslice hfollows
  refine ⟨off, b', hget, hoff, hwindow.trans hslice, hwindow.symm, ⟨?_, ?_, hal, ?_, ?_⟩, hlay⟩
  · have hpast : ((stream.drop (k * b.segmentLen)).take (b.hLen + b.segmentLen)).drop
        b.segmentLen = (stream.drop ((k + 1) * b.segmentLen)).take b.hLen := by
      rw [List.drop_take, List.drop_drop, Nat.add_sub_cancel, Nat.succ_mul]
    have hrest : (stream.drop (k * b.segmentLen + b.hLen)).drop b.segmentLen =
        stream.drop ((k + 1) * b.segmentLen + b.hLen) := by
      rw [List.drop_drop, Nat.succ_mul]
      congr 1
      omega
    rw [hpast, hrest] at hfollows
    rw [hseg, hhLen]
    exact hfollows
  · exact (congrArg Layout.outDirection hlay).trans h.dir
  · rw [hseg, hhLen]
    exact h.head
  · rw [hseg, hhLen, Nat.succ_mul]
    omega

/-- Sample `t` of a stream whose first `h` samples come before time 0. -/
def streamAt [Zero α] (h : ℕ) (stream : List α) (t : ℤ) : α := (stream[(t + h).toNat]?).getD 0

/-- A sample around the pointer that `getReadSegment` returns is one of the stream. -/
theorem streamAt_window [Zero α] {m : ℕ → α} {off h len : ℕ} {w : List α} (hoff : h ≤ off)
    (hslice : Mem.slice m (off - h) (h + len) = w) {t : ℤ} (hlo : -(h : ℤ) ≤ t) (hhi : t < len) :
    m ((off : ℤ) + t).toNat = streamAt h w t := by
  have hi : (t + h).toNat < (Mem.slice m (off - h) (h + len)).length := by
    rw [Mem.length_slice]
    omega
  rw [streamAt, ← hslice, List.getElem?_eq_getElem hi, Option.getD_some, Mem.getElem_slice]
  congr 1
  omega

/-- A sample of a window is one of the stream. -/
theorem streamAt_take_drop [Zero α] {h len s : ℕ} {t : ℤ} (hlo : -(h : ℤ) ≤ t) (hhi : t < len) :
    streamAt h ((stream.drop s).take (h + len)) t = streamAt h stream (s + t) := by
  rw [streamAt, streamAt, List.getElem?_take_of_lt (by omega), List.getElem?_drop]
  congr 2
  omega

end RadioBuffer
end Radio
end OsmoTrx
