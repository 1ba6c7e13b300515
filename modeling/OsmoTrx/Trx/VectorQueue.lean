import OsmoTrx.GSM.Order
import OsmoTrx.Lib.PriorityQueue

/-!
# Bursts and the transmit queue

`radioVector` and `VectorQueue` of `Transceiver52M/radioVector.cpp`: a burst with the
time it is to be sent at, and the priority queue of bursts ordered by that time.  The
queue is any `PriorityQueue` over `PointerCompare`; samples are an arbitrary type `V`.

* `getStaleBurst`, `getCurrentBurst` — the two conditional pops.
* `Window` — times whose frame numbers lie within less than half a hyperframe of each
  other, seen from a reference; `coherent_of_window` says that the circular comparison
  is an order there.
* `window_order` — the same for the times less than half a hyperframe after a start slot:
  there the five operators compare offsets, and a queue pops in that order.
-/

namespace OsmoTrx
namespace Trx

open GSM

/-- `radioVector`: a burst and its time.  The vector pointer is `none` once it has been
handed over with `setVector(NULL)`. -/
structure RadioVector (V : Type) where
  mTime : Time
  vector : Option V
  deriving DecidableEq, Repr

variable {V : Type}

/-- `PointerCompare<radioVector>`: `(*v1) > (*v2)`, that is `v1.mTime > v2.mTime`. -/
def pointerCompare (v1 v2 : RadioVector V) : Bool := v1.mTime.gt v2.mTime

/-- A `std::priority_queue` of bursts. -/
abbrev BurstQueue (V : Type) := PriorityQueue (RadioVector V) pointerCompare

namespace VectorQueue

variable (Q : BurstQueue V)

/-- `getStaleBurst`: pop the first burst if its time is before `targTime`. -/
def getStaleBurst (q : Q.Carrier) (targTime : Time) : Option (RadioVector V) × Q.Carrier :=
  match Q.top q with
  | none => (none, q)
  | some b => if b.mTime.lt targTime then (some b, Q.pop q) else (none, q)

/-- `getCurrentBurst`: pop the first burst if its time is `targTime`. -/
def getCurrentBurst (q : Q.Carrier) (targTime : Time) : Option (RadioVector V) × Q.Carrier :=
  match Q.top q with
  | none => (none, q)
  | some b => if b.mTime = targTime then (some b, Q.pop q) else (none, q)

variable {Q}

/-- The two pops either pop the first burst, which meets the test, or leave the queue
alone because there is no first burst that does. -/
theorem getStaleBurst_cases (q : Q.Carrier) (t : Time) :
    (∃ b, Q.top q = some b ∧ b.mTime.lt t = true ∧ getStaleBurst Q q t = (some b, Q.pop q)) ∨
    ((∀ b, Q.top q = some b → b.mTime.lt t = false) ∧ getStaleBurst Q q t = (none, q)) := by
  unfold getStaleBurst
  cases htop : Q.top q with
  | none => exact Or.inr ⟨by simp, rfl⟩
  | some b =>
    by_cases hlt : b.mTime.lt t = true
    · exact Or.inl ⟨b, rfl, hlt, by simp [hlt]⟩
    · refine Or.inr ⟨?_, by simp [hlt]⟩
      intro c hc
      cases hc
      simpa using hlt

theorem getCurrentBurst_cases (q : Q.Carrier) (t : Time) :
    (∃ b, Q.top q = some b ∧ b.mTime = t ∧ getCurrentBurst Q q t = (some b, Q.pop q)) ∨
    ((∀ b, Q.top q = some b → b.mTime ≠ t) ∧ getCurrentBurst Q q t = (none, q)) := by
  unfold getCurrentBurst
  cases htop : Q.top q with
  | none => exact Or.inr ⟨by simp, rfl⟩
  | some b =>
    by_cases heq : b.mTime = t
    · exact Or.inl ⟨b, rfl, heq, by simp [heq]⟩
    · refine Or.inr ⟨?_, by simp [heq]⟩
      intro c hc
      cases hc
      exact heq

end VectorQueue

/-! ## Windows -/

/-- A reference slot and a multiset of times, all valid and less than half a hyperframe
away from the reference. -/
structure Near (now : Time) (s : Multiset Time) : Prop where
  now_valid : now.Valid
  valid : ∀ t ∈ s, t.Valid
  near : ∀ t ∈ s, -(gHyperframe / 2) < FNDelta t.mFN now.mFN ∧
    FNDelta t.mFN now.mFN < gHyperframe / 2

/-- The same, and any two of the times are less than half a hyperframe apart as seen from
the reference. -/
structure Window (now : Time) (s : Multiset Time) : Prop extends Near now s where
  close : ∀ t ∈ s, ∀ u ∈ s,
    FNDelta t.mFN now.mFN - FNDelta u.mFN now.mFN < gHyperframe / 2

instance (now : Time) (s : Multiset Time) : Decidable (Near now s) :=
  decidable_of_iff (now.Valid ∧ (∀ t ∈ s, t.Valid) ∧ ∀ t ∈ s,
      -(gHyperframe / 2) < FNDelta t.mFN now.mFN ∧ FNDelta t.mFN now.mFN < gHyperframe / 2)
    ⟨fun ⟨h1, h2, h3⟩ => ⟨h1, h2, h3⟩, fun ⟨h1, h2, h3⟩ => ⟨h1, h2, h3⟩⟩

instance (now : Time) (s : Multiset Time) : Decidable (Window now s) :=
  decidable_of_iff (Near now s ∧ ∀ t ∈ s, ∀ u ∈ s,
      FNDelta t.mFN now.mFN - FNDelta u.mFN now.mFN < gHyperframe / 2)
    ⟨fun ⟨h1, h2⟩ => ⟨h1, h2⟩, fun ⟨h1, h2⟩ => ⟨h1, h2⟩⟩

theorem Window.mono {now : Time} {s t : Multiset Time} (h : Window now t) (hst : s ⊆ t) :
    Window now s where
  now_valid := h.now_valid
  valid u hu := h.valid u (hst hu)
  near u hu := h.near u (hst hu)
  close u hu v hv := h.close u (hst hu) v (hst hv)

variable {now : Time} {s : Multiset Time}

/-- Inside a window `operator<` compares the keys … -/
theorem Window.lt_iff (h : Window now s) {t u : Time} (ht : t ∈ s) (hu : u ∈ s) :
    t.lt u = true ↔ t.key now.mFN < u.key now.mFN :=
  Time.lt_iff_key h.now_valid.1 (h.valid t ht) (h.valid u hu)
    (by have := h.close u hu t ht; omega) (h.close t ht u hu)

/-- … and so does `operator>` … -/
theorem Window.gt_iff (h : Window now s) {t u : Time} (ht : t ∈ s) (hu : u ∈ s) :
    t.gt u = true ↔ u.key now.mFN < t.key now.mFN :=
  Time.gt_iff_key h.now_valid.1 (h.valid t ht) (h.valid u hu)
    (by have := h.close u hu t ht; omega) (h.close t ht u hu)

/-- … and comparing with the reference slot itself is comparing with its key. -/
theorem Window.lt_now_iff (h : Window now s) {t : Time} (ht : t ∈ s) :
    t.lt now = true ↔ t.key now.mFN < now.key now.mFN := by
  have hn := h.near t ht
  have hself := FNDelta_self h.now_valid.1
  exact Time.lt_iff_key h.now_valid.1 (h.valid t ht) h.now_valid (by omega) (by omega)

/-- A time of the window with the key of the reference slot is the reference slot. -/
theorem Window.eq_now_of_key (h : Window now s) {t : Time} (ht : t ∈ s)
    (hk : t.key now.mFN = now.key now.mFN) : t = now := by
  obtain ⟨hfn, htl, hth⟩ := h.valid t ht
  obtain ⟨hnf, hnl, hnh⟩ := h.now_valid
  simp only [Time.key, FNDelta_self hnf] at hk
  have hz : FNDelta t.mFN now.mFN = 0 := by omega
  have hf := (FNDelta_eq_zero_iff hfn hnf).mp hz
  obtain ⟨tf, tn⟩ := t
  obtain ⟨nf, nn⟩ := now
  simp only at *
  congr 1
  omega

/-- **Inside a window the queue's comparison is an order.** -/
theorem coherent_of_window {m : Multiset (RadioVector V)}
    (h : Window now (m.map RadioVector.mTime)) : Coherent pointerCompare m := by
  refine ⟨fun b => b.mTime.key now.mFN, fun x hx y hy => ?_⟩
  exact h.gt_iff (Multiset.mem_map_of_mem _ hx) (Multiset.mem_map_of_mem _ hy)

/-! ## Chronological order -/

/-- A burst whose time lies in the window after `start`. -/
def DueInWindow (start : Time) (b : RadioVector V) : Prop := start.InWindow b.mTime

instance (start : Time) (b : RadioVector V) : Decidable (DueInWindow start b) :=
  inferInstanceAs (Decidable (start.InWindow b.mTime))

/-- Bursts of a list are in chronological order, as seen from `start`. -/
def Chronological (start : Time) (bursts : List (RadioVector V)) : Prop :=
  bursts.Pairwise fun b c => start.offset b.mTime ≤ start.offset c.mTime

instance (start : Time) (bursts : List (RadioVector V)) :
    Decidable (Chronological start bursts) :=
  inferInstanceAs (Decidable (bursts.Pairwise _))

theorem pointerCompare_iff {start : Time} (hs : start.Valid) (b c : RadioVector V)
    (hb : DueInWindow start b) (hc : DueInWindow start c) :
    pointerCompare b c = true ↔ start.offset c.mTime < start.offset b.mTime :=
  Time.gt_iff_offset hs hb hc

/-- **In the window after a start slot the comparisons of times are the order of their
offsets, and a queue of bursts pops them in that order.**  The queue may have been filled
and emptied in any order before it is drained. -/
theorem window_order (start : Time) (hs : start.Valid) :
    (∀ t u, start.InWindow t → start.InWindow u → start.ComparesOffsets t u) ∧
    (∀ t u w, start.InWindow t → start.InWindow u → start.InWindow w →
      ∀ R ∈ [Time.lt, Time.gt, Time.le, Time.ge, Time.eq],
        R t u = true → R u w = true → R t w = true) ∧
    (∀ (V : Type) (Q : BurstQueue V) (q : Q.Carrier), Q.Built (DueInWindow start) q →
      (↑(Q.drain (Q.size q) q) : Multiset (RadioVector V)) = Q.elems q ∧
      Chronological start (Q.drain (Q.size q) q)) ∧
    (∀ (V : Type) (Q : BurstQueue V) (bursts : List (RadioVector V)),
      (∀ b ∈ bursts, DueInWindow start b) →
      (Q.drain bursts.length (Q.pushAll Q.empty bursts)).Perm bursts ∧
      Chronological start (Q.drain bursts.length (Q.pushAll Q.empty bursts))) := by
  refine ⟨fun t u ht hu => Time.comparesOffsets hs ht hu,
    fun t u w ht hu hw => Time.operators_trans hs ht hu hw, fun V Q q hq => ⟨?_, ?_⟩,
    fun V Q bursts hb => ⟨?_, ?_⟩⟩
  · exact PriorityQueue.drain_perm rfl
  · exact hq.drain_sorted (pointerCompare_iff hs) _
  · have hsize : Q.size (Q.pushAll Q.empty bursts) = bursts.length := by
      rw [Q.size_eq, PriorityQueue.elems_pushAll, Q.elems_empty, add_zero, Multiset.coe_card]
    have hperm := PriorityQueue.drain_perm hsize
    rw [PriorityQueue.elems_pushAll, Q.elems_empty, add_zero] at hperm
    exact Multiset.coe_eq_coe.mp hperm
  · have hbuilt : Q.Built (DueInWindow start) (Q.pushAll Q.empty bursts) :=
      PriorityQueue.Built.empty.pushAll hb
    exact hbuilt.drain_sorted (pointerCompare_iff hs) _

/-- Four bursts on both sides of the hyperframe's wrap, queued out of order. -/
theorem window_order_wrap :
    Chronological ⟨2715646, 4⟩ ((listQueue pointerCompare).drain 4
      ((listQueue pointerCompare).pushAll (listQueue pointerCompare).empty
        [⟨⟨0, 2⟩, some 1⟩, ⟨⟨2715647, 6⟩, some 2⟩, ⟨⟨1300000, 0⟩, some 3⟩,
          ⟨⟨2715646, 7⟩, some 4⟩] : List (RadioVector ℕ))) :=
  ((window_order ⟨2715646, 4⟩ (by decide)).2.2.2 ℕ (listQueue pointerCompare)
    [⟨⟨0, 2⟩, some 1⟩, ⟨⟨2715647, 6⟩, some 2⟩, ⟨⟨1300000, 0⟩, some 3⟩,
      ⟨⟨2715646, 7⟩, some 4⟩] (by decide)).2

end Trx
end OsmoTrx
