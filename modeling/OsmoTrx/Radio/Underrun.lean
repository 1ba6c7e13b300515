import OsmoTrx.Radio.Receive
import OsmoTrx.Radio.Transmit

/-!
# Underrun reports

The flag `underrun` of a radio interface collects what the device reports on reads and writes
until `isUnderrun` asks for it.  A run is any sequence of `pullBuffer`, `pushBuffer` and
`isUnderrun`, with samples moved into and out of the buffers in between.

* `flag` — the flag as a function of the calls of the device since the last query.
* `flag_eq_true_iff` — the report of a short read never gets there, and the next write
  overwrites all that did.
* `flag_step` — the flag of the radio interface is that function of the calls.
* `underrun_iff` — **when the answers are right, over any run**.
-/

namespace OsmoTrx
namespace Radio

variable {n : ℕ} {S D : Type}

/-- `isUnderrun`. -/
def RadioInterface.isUnderrun (t : RadioInterface n S) : Bool × RadioInterface n S :=
  (t.underrun, { t with underrun := false })

/-! ## Calls of the device -/

/-- A call of the device, with what it reports: `readSamples`, which may come short of the
chunk asked for, or `writeSamples`. -/
inductive DeviceCall
  | read (short underrun : Bool)
  | write (underrun : Bool)

namespace DeviceCall

/-- Whether the call reports an underrun. -/
def underrun : DeviceCall → Bool
  | read _ underrun | write underrun => underrun

/-- A read that comes short. -/
def short : DeviceCall → Bool
  | read short _ => short
  | write _ => false

/-- A write. -/
def isWrite : DeviceCall → Bool
  | read _ _ => false
  | write _ => true

/-- What becomes of the flag. -/
def merge (flag : Bool) : DeviceCall → Bool
  | read short underrun => if short then flag else flag || underrun
  | write underrun => underrun

end DeviceCall

/-- The flag after some calls of the device. -/
def flag (calls : List DeviceCall) : Bool := calls.foldl DeviceCall.merge false

@[simp] theorem flag_nil : flag [] = false := rfl

@[simp] theorem flag_concat (calls : List DeviceCall) (c : DeviceCall) :
    flag (calls ++ [c]) = c.merge (flag calls) := by
  simp [flag]

/-- A report that lasts: one of a write or of a full read, with no write after it. -/
def Lasts (calls : List DeviceCall) : Prop :=
  ∃ before c after, calls = before ++ c :: after ∧ c.underrun = true ∧ c.short = false ∧
    ∀ a ∈ after, a.isWrite = false

theorem lasts_concat {calls : List DeviceCall} {c : DeviceCall} :
    Lasts (calls ++ [c]) ↔
      c.underrun = true ∧ c.short = false ∨ c.isWrite = false ∧ Lasts calls := by
  constructor
  · rintro ⟨before, d, after, heq, hund, hshort, hafter⟩
    rcases List.eq_nil_or_concat after with rfl | ⟨after, e, rfl⟩
    · obtain ⟨-, rfl⟩ := List.append_inj' heq rfl
        |>.imp id fun h => List.singleton_inj.mp h
      exact .inl ⟨hund, hshort⟩
    · rw [List.concat_eq_append] at heq hafter
      rw [← List.cons_append, ← List.append_assoc] at heq
      obtain ⟨hcalls, hlast⟩ := List.append_inj' heq rfl
      cases List.singleton_inj.mp hlast
      exact .inr ⟨hafter c (by simp), before, d, after, hcalls, hund, hshort,
        fun a ha => hafter a (List.mem_append_left _ ha)⟩
  · rintro (⟨hund, hshort⟩ | ⟨hread, before, d, after, rfl, hund, hshort, hafter⟩)
    · exact ⟨calls, c, [], rfl, hund, hshort, by simp⟩
    · refine ⟨before, d, after ++ [c], by simp, hund, hshort, fun a ha => ?_⟩
      rcases List.mem_append.mp ha with ha | ha
      · exact hafter a ha
      · rwa [List.mem_singleton.mp ha]

/-- **What the flag says**: that some report has lasted. -/
theorem flag_eq_true_iff (calls : List DeviceCall) : flag calls = true ↔ Lasts calls := by
  induction calls using List.reverseRecOn with
  | nil =>
    refine iff_of_false Bool.false_ne_true ?_
    rintro ⟨before, c, after, heq, -⟩
    exact absurd heq.symm (by simp)
  | append_singleton calls c ih =>
    rw [flag_concat, lasts_concat, ← ih]
    cases c with
    | read short underrun => cases short <;> simp [DeviceCall.merge, DeviceCall.underrun,
        DeviceCall.short, DeviceCall.isWrite, or_comm]
    | write underrun => simp [DeviceCall.merge, DeviceCall.underrun, DeviceCall.short,
        DeviceCall.isWrite]

/-! ## Sessions -/

/-- A radio interface, with the calls of the device since the last query. -/
structure Session (n : ℕ) (S : Type) where
  radio : RadioInterface n S
  calls : List DeviceCall

/-- A call of one of the three functions, with what the device answers, or anything else that
moves samples: then the buffers are different ones. -/
inductive Use (n : ℕ) (S D : Type)
  | pullBuffer (r : DeviceRead n D)
  | pushBuffer (d : DeviceAnswer)
  | isUnderrun
  | move (sendBuffer recvBuffer : Fin (n + 1) → RadioBuffer S)

namespace Session

/-- The call of the device in a `pullBuffer`, if it comes to one. -/
def readCall (t : RadioInterface n S) (r : DeviceRead n D) : List DeviceCall :=
  if (t.recvBuffer 0).getFreeSegments ≤ 0 then []
  else [.read (decide (r.numRecv ≠ (t.recvBuffer 0).segmentLen)) r.local_underrun]

/-- The call of the device in a `pushBuffer`, if it comes to one. -/
def writeCall (t : RadioInterface n S) (d : DeviceAnswer) : List DeviceCall :=
  if (t.sendBuffer 0).getAvailSegments < 1 then [] else [.write d.underrun]

/-- One event; a segment that is not there ends the run. -/
def step (convertShortFloat : D → S) (convertFloatShort : ℚ → S → D) :
    Option (Session n S) → Use n S D → Option (Session n S)
  | none, _ => none
  | some s, .pullBuffer r =>
    (Radio.pullBuffer convertShortFloat s.radio r).map fun p =>
      ⟨p.2, s.calls ++ readCall s.radio r⟩
  | some s, .pushBuffer d =>
    (Radio.pushBuffer convertFloatShort s.radio d).map fun p =>
      ⟨p.elim s.radio Prod.fst, s.calls ++ writeCall s.radio d⟩
  | some s, .isUnderrun => some ⟨s.radio.isUnderrun.2, []⟩
  | some s, .move sendBuffer recvBuffer =>
    some { s with radio := { s.radio with sendBuffer := sendBuffer, recvBuffer := recvBuffer } }

/-- A query is answered by whether a call of the device since the query before has reported an
underrun. -/
def Answers : Option (Session n S) → Use n S D → Prop
  | some s, .isUnderrun => s.radio.isUnderrun.1 = true ↔ ∃ c ∈ s.calls, c.underrun = true
  | _, _ => True

/-- If there was a report since the query before, one has lasted. -/
def ReportLasts : Option (Session n S) → Use n S D → Prop
  | some s, .isUnderrun => (∃ c ∈ s.calls, c.underrun = true) → Lasts s.calls
  | _, _ => True

/-! ## The flag of the radio interface -/

/-- The flag of the radio interface is that of the calls since the last query. -/
def Flagged (s : Option (Session n S)) : Prop := ∀ s' ∈ s, s'.radio.underrun = flag s'.calls

theorem pullBuffer_underrun {convertShortFloat : D → S} {t t' : RadioInterface n S}
    {r : DeviceRead n D} {rc : ℤ} {calls : List DeviceCall}
    (h : Radio.pullBuffer convertShortFloat t r = some (rc, t')) (ht : t.underrun = flag calls) :
    t'.underrun = flag (calls ++ readCall t r) := by
  unfold Radio.pullBuffer at h
  unfold readCall
  by_cases hfull : (t.recvBuffer 0).getFreeSegments ≤ 0
  · rw [if_pos hfull] at h ⊢
    cases h
    rw [List.append_nil, ht]
  · rw [if_neg hfull] at h ⊢
    rw [flag_concat, ← ht]
    by_cases hshort : r.numRecv ≠ (t.recvBuffer 0).segmentLen
    · rw [if_pos hshort] at h
      cases h
      rw [DeviceCall.merge, if_pos (decide_eq_true hshort)]
    · rw [if_neg hshort] at h
      split at h
      · cases h
      · cases h
        rw [DeviceCall.merge, if_neg (by simpa using hshort)]

theorem pushBuffer_underrun {convertFloatShort : ℚ → S → D} {t : RadioInterface n S}
    {d : DeviceAnswer} {p : Option (RadioInterface n S × DeviceWrite n D)}
    {calls : List DeviceCall} (h : Radio.pushBuffer convertFloatShort t d = some p)
    (ht : t.underrun = flag calls) :
    (p.elim t Prod.fst).underrun = flag (calls ++ writeCall t d) := by
  unfold Radio.pushBuffer at h
  unfold writeCall
  by_cases hempty : (t.sendBuffer 0).getAvailSegments < 1
  · rw [if_pos hempty] at h ⊢
    cases h
    rw [List.append_nil, ← ht]
    rfl
  · rw [if_neg hempty] at h ⊢
    rw [flag_concat]
    split at h
    · cases h
    · cases h
      rfl

/-- The step lemma. -/
theorem flag_step {convertShortFloat : D → S} {convertFloatShort : ℚ → S → D}
    {s : Option (Session n S)} (e : Use n S D) (h : Flagged s) :
    Flagged (step convertShortFloat convertFloatShort s e) := by
  intro s' hs'
  cases s with
  | none => cases hs'
  | some s =>
    have hs := h s rfl
    cases e with
    | pullBuffer r =>
      obtain ⟨p, hpull, rfl⟩ := Option.map_eq_some_iff.mp hs'
      exact pullBuffer_underrun hpull hs
    | pushBuffer d =>
      obtain ⟨p, hpush, rfl⟩ := Option.map_eq_some_iff.mp hs'
      exact pushBuffer_underrun hpush hs
    | isUnderrun =>
      cases hs'
      rfl
    | move sendBuffer recvBuffer =>
      cases hs'
      exact hs

/-- When a query is answered right. -/
theorem answers_iff {s : Option (Session n S)} (e : Use n S D) (h : Flagged s) :
    Answers s e ↔ ReportLasts s e := by
  cases s with
  | none => exact Iff.rfl
  | some s =>
    cases e with
    | isUnderrun =>
      have hs : s.radio.isUnderrun.1 = flag s.calls := h s rfl
      rw [Answers, ReportLasts, hs, flag_eq_true_iff]
      refine ⟨Iff.mpr, fun hlasts => ⟨?_, hlasts⟩⟩
      rintro ⟨before, c, after, heq, hund, -⟩
      exact ⟨c, by simp [heq], hund⟩
    | _ => exact Iff.rfl

/-- A radio interface just after a query, or after its construction. -/
def asked (t : RadioInterface n S) : Session n S := ⟨{ t with underrun := false }, []⟩

theorem flagged_asked (t : RadioInterface n S) : Flagged (some (asked t)) := by
  intro s' hs'
  cases hs'
  rfl

/-- **The queries of a run are answered right exactly if, at each one before which there was a
report, a report has lasted**: it came with a write or a full read, and no write followed. -/
theorem underrun_iff (convertShortFloat : D → S) (convertFloatShort : ℚ → S → D)
    (t : RadioInterface n S) (events : List (Use n S D)) :
    Run.Along (step convertShortFloat convertFloatShort) Answers (some (asked t)) events ↔
      Run.Along (step convertShortFloat convertFloatShort) ReportLasts (some (asked t)) events :=
  Run.along_iff_of_invariant (fun _ e h _ => flag_step e h) (fun _ e h => answers_iff e h)
    (flagged_asked t) events

/-- A send buffer of `oneChannel` that holds a chunk. -/
def oneChunk : RadioBuffer ℤ :=
  { oneChannel.sendBuffer (Fin.last 0) with writeIndex := CHUNK, availSamples := CHUNK }

/-- The read reports an underrun, the write after it does not, and the query finds none. -/
def overwritten : List (Use 0 ℤ ℤ) :=
  [.pullBuffer ⟨CHUNK, fun _ _ => 0, false, true⟩,
    .move (fun _ => oneChunk) oneChannel.recvBuffer, .pushBuffer ⟨CHUNK, false⟩, .isUnderrun]

theorem report_overwritten :
    ¬ Run.Along (step id fun _ => id) Answers (some (asked oneChannel)) overwritten := by
  rintro ⟨-, -, -, hquery, -⟩
  exact Bool.false_ne_true (hquery.mpr ⟨.read false true, List.mem_cons_self, rfl⟩)

end Session
end Radio
end OsmoTrx
