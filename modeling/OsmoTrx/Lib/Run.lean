import Mathlib.Tactic

/-!
# Runs of a deterministic machine

A machine is a step function `σ → ε → σ` that consumes one event at a time.  The
events decide everything that is not under the control of the machine: which
operation is called, with which arguments, and what its environment answers.

* `exec` — the state after a list of events.
* `Along` — a property of every single step of a run, stated about the state
  *before* the step and the event it consumes.  Hypotheses on a run ("every step
  meets the condition") and conclusions about it ("every step answers correctly")
  are both of this shape.
* `invariant_exec`, `along_of_invariant` — the induction, done once: an invariant
  that every admissible step preserves holds at the end of every admissible run,
  and whatever the invariant implies about one step holds along the run.
* `along_iff_of_invariant`, `along_congr_of_invariant` — two properties of a step that agree
  where the invariant holds agree along runs, or along admissible runs.
* `outputs` — what the steps of a run put out, one after the other; `simulation_exec` — related
  machines put out the same.
* `forall_mem_log`, `getElem_log_cases` — the entries of a log, when one is added.
* `along_take` — an admissible run is admissible as far as any of its prefixes, so
  a statement about the last state is a statement about every state reached.
-/

namespace OsmoTrx
namespace Run

variable {σ ε : Type*}

/-- The state after consuming a list of events. -/
def exec (step : σ → ε → σ) : σ → List ε → σ
  | s, [] => s
  | s, e :: es => exec step (step s e) es

/-- `ok` holds of every step of the run: of the state the step starts from and the
event it consumes. -/
def Along (step : σ → ε → σ) (ok : σ → ε → Prop) : σ → List ε → Prop
  | _, [] => True
  | s, e :: es => ok s e ∧ Along step ok (step s e) es

variable {step : σ → ε → σ} {ok good : σ → ε → Prop} {I : σ → Prop}

@[simp] theorem exec_nil (s : σ) : exec step s [] = s := rfl

@[simp] theorem exec_cons (s : σ) (e : ε) (es : List ε) :
    exec step s (e :: es) = exec step (step s e) es := rfl

theorem exec_append (s : σ) (es fs : List ε) :
    exec step s (es ++ fs) = exec step (exec step s es) fs := by
  induction es generalizing s with
  | nil => rfl
  | cons e es ih => exact ih (step s e)

@[simp] theorem along_nil (s : σ) : Along step ok s [] := trivial

@[simp] theorem along_cons {s : σ} {e : ε} {es : List ε} :
    Along step ok s (e :: es) ↔ ok s e ∧ Along step ok (step s e) es := Iff.rfl

instance decidableAlong [∀ s e, Decidable (ok s e)] :
    ∀ (s : σ) (es : List ε), Decidable (Along step ok s es)
  | _, [] => .isTrue trivial
  | s, e :: es =>
    have := decidableAlong (step s e) es
    inferInstanceAs (Decidable (ok s e ∧ Along step ok (step s e) es))

theorem along_append {s : σ} {es fs : List ε} :
    Along step ok s (es ++ fs) ↔ Along step ok s es ∧ Along step ok (exec step s es) fs := by
  induction es generalizing s with
  | nil => simp
  | cons e es ih => simp [ih, and_assoc]

/-- Two properties hold along a run together if each does. -/
theorem along_and {s : σ} {es : List ε} :
    Along step (fun s e => ok s e ∧ good s e) s es ↔ Along step ok s es ∧ Along step good s es := by
  induction es generalizing s with
  | nil => simp
  | cons e es ih =>
    rw [along_cons, along_cons, along_cons, ih]
    exact and_and_and_comm

/-- A property of events that all events of a run have holds along it. -/
theorem along_of_forall {p : ε → Prop} {s : σ} {es : List ε} (h : ∀ e ∈ es, p e) :
    Along step (fun _ e => p e) s es := by
  induction es generalizing s with
  | nil => trivial
  | cons e es ih =>
    exact ⟨h e List.mem_cons_self, ih fun e' he' => h e' (List.mem_cons_of_mem _ he')⟩

/-- A run cut short is still a run all of whose steps are admissible. -/
theorem along_take {s : σ} {es : List ε} (h : Along step ok s es) (k : ℕ) :
    Along step ok s (es.take k) := by
  rw [← List.take_append_drop k es] at h
  exact (along_append.mp h).1

/-- **The invariant rule.**  What every admissible step preserves holds at the end of
every admissible run. -/
theorem invariant_exec (hstep : ∀ s e, I s → ok s e → I (step s e)) {s : σ} {es : List ε}
    (h0 : I s) (hok : Along step ok s es) : I (exec step s es) := by
  induction es generalizing s with
  | nil => exact h0
  | cons e es ih => exact ih (hstep s e h0 hok.1) hok.2

/-- The invariant rule where every step is admissible. -/
theorem exec_invariant (hstep : ∀ s e, I s → I (step s e)) {s : σ} (h0 : I s) (es : List ε) :
    I (exec step s es) := by
  induction es generalizing s with
  | nil => exact h0
  | cons e es ih => exact ih (hstep s e h0)

/-- **The invariant rule for steps.**  What the invariant implies about one admissible
step holds of every step of an admissible run. -/
theorem along_of_invariant (hstep : ∀ s e, I s → ok s e → I (step s e))
    (hgood : ∀ s e, I s → ok s e → good s e) {s : σ} {es : List ε}
    (h0 : I s) (hok : Along step ok s es) : Along step good s es := by
  induction es generalizing s with
  | nil => trivial
  | cons e es ih => exact ⟨hgood s e h0 hok.1, ih (hstep s e h0 hok.1) hok.2⟩

/-- The invariant rule for steps where every step is admissible. -/
theorem along_invariant (hstep : ∀ s e, I s → I (step s e)) (hgood : ∀ s e, I s → good s e)
    {s : σ} (h0 : I s) (es : List ε) : Along step good s es := by
  induction es generalizing s with
  | nil => trivial
  | cons e es ih => exact ⟨hgood s e h0, ih (hstep s e h0)⟩

/-- **The invariant rule for two properties of steps.**  If they agree where the invariant
holds, and steps with the property preserve the invariant, they agree along every run. -/
theorem along_iff_of_invariant (hstep : ∀ s e, I s → ok s e → I (step s e))
    (hiff : ∀ s e, I s → (ok s e ↔ good s e)) {s : σ} (h0 : I s) (es : List ε) :
    Along step ok s es ↔ Along step good s es := by
  induction es generalizing s with
  | nil => exact Iff.rfl
  | cons e es ih =>
    rw [along_cons, along_cons, ← hiff s e h0]
    exact and_congr_right fun hok => ih (hstep s e h0 hok)

/-- **The invariant rule for two properties of admissible steps.** -/
theorem along_congr_of_invariant {p q : σ → ε → Prop}
    (hstep : ∀ s e, I s → ok s e → p s e → I (step s e))
    (hiff : ∀ s e, I s → ok s e → (p s e ↔ q s e)) {s : σ} {es : List ε} (h0 : I s)
    (hok : Along step ok s es) : Along step p s es ↔ Along step q s es := by
  induction es generalizing s with
  | nil => exact Iff.rfl
  | cons e es ih =>
    rw [along_cons, along_cons, ← hiff s e h0 hok.1]
    exact and_congr_right fun hp => ih (hstep s e h0 hok.1 hp) hok.2

/-- The invariant rule for every state a run passes through. -/
theorem invariant_exec_take (hstep : ∀ s e, I s → ok s e → I (step s e)) {s : σ}
    {es : List ε} (h0 : I s) (hok : Along step ok s es) (k : ℕ) :
    I (exec step s (es.take k)) :=
  invariant_exec hstep h0 (along_take hok k)

/-! ## Outputs -/

/-- What the steps of a run put out, where a step need not put out anything. -/
def outputs {ω : Type*} (step : σ → ε → σ) (out : σ → ε → Option ω) : σ → List ε → List ω
  | _, [] => []
  | s, e :: es => (out s e).toList ++ outputs step out (step s e) es

section Outputs

variable {ω : Type*} {out : σ → ε → Option ω}

theorem outputs_cons_some {s : σ} {e : ε} {es : List ε} {o : ω} (h : out s e = some o) :
    outputs step out s (e :: es) = o :: outputs step out (step s e) es := by
  rw [outputs, h, Option.toList_some, List.singleton_append]

theorem outputs_cons_none {s : σ} {e : ε} {es : List ε} (h : out s e = none) :
    outputs step out s (e :: es) = outputs step out (step s e) es := by
  rw [outputs, h, Option.toList_none, List.nil_append]

/-- **The simulation rule.**  Machines whose steps put out the same and keep them related put out
the same along every run, and are related at its end. -/
theorem simulation_exec {τ : Type*} {step' : τ → ε → τ} {out' : τ → ε → Option ω} (R : σ → τ → Prop)
    (hstep : ∀ s t e, R s t → out s e = out' t e ∧ R (step s e) (step' t e)) {s : σ} {t : τ}
    (h0 : R s t) (es : List ε) :
    outputs step out s es = outputs step' out' t es ∧ R (exec step s es) (exec step' t es) := by
  induction es generalizing s t with
  | nil => exact ⟨rfl, h0⟩
  | cons e es ih =>
    obtain ⟨hout, hrel⟩ := hstep s t e h0
    obtain ⟨houts, hend⟩ := ih hrel
    exact ⟨by rw [outputs, outputs, hout, houts], hend⟩

end Outputs

/-! ## Logs -/

/-- What the entries of a log have, and the next one, its entries have when that is added. -/
theorem forall_mem_log {ω : Type*} {P : ω → Prop} {log : List ω} {l : ω} (hold : ∀ r ∈ log, P r)
    (hnew : P l) : ∀ r ∈ log ++ [l], P r :=
  List.forall_mem_append.mpr ⟨hold, List.forall_mem_singleton.mpr hnew⟩

/-- An entry of a log that has become one longer is an old one or the new one. -/
theorem getElem_log_cases {ω : Type*} {log : List ω} {l : ω} {k : ℕ}
    (hk : k < (log ++ [l]).length) :
    (∃ hold : k < log.length, (log ++ [l])[k] = log[k]) ∨
      k = log.length ∧ (log ++ [l])[k] = l := by
  by_cases hold : k < log.length
  · exact .inl ⟨hold, List.getElem_append_left hold⟩
  · have hlast : k = log.length := by
      rw [List.length_append, List.length_singleton] at hk
      omega
    exact .inr ⟨hlast, List.getElem_concat_length hlast hk⟩

end Run
end OsmoTrx
