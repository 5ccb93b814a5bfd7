-- Runs of a machine that a partial step function gives: what one step
-- keeps, every run keeps. Nothing here names this repository.
import Mathlib.Data.List.Induction
import Mathlib.Order.Basic

namespace runs

variable {σ ε : Type*} {step : σ → ε → Option σ} {ok ok' : σ → ε → Prop} {s₀ : σ}

/-- The run of `step` from `s₀` over a list of events reaches a state. Each
step meets `ok` in the state before it. -/
inductive Run (step : σ → ε → Option σ) (ok : σ → ε → Prop) (s₀ : σ) : List ε → σ → Prop
  | nil : Run step ok s₀ [] s₀
  | snoc {es : List ε} {s : σ} {e : ε} {s' : σ} :
      Run step ok s₀ es s → ok s e → step s e = some s' → Run step ok s₀ (es ++ [e]) s'

/-- Every step is allowed. -/
def Any : σ → ε → Prop := fun _ _ => True

/-- What holds of the start and what each allowed step keeps holds of every state
that a run reaches. -/
theorem Run.invariant {I : σ → Prop} (h0 : I s₀)
    (hstep : ∀ s e s', I s → ok s e → step s e = some s' → I s')
    {es : List ε} {s : σ} (h : Run step ok s₀ es s) : I s := by
  induction h with
  | nil => exact h0
  | snoc _ hok hs ih => exact hstep _ _ _ ih hok hs

/-- The same for an invariant that also reads the events so far. -/
theorem Run.invariant_of_events {I : List ε → σ → Prop} (h0 : I [] s₀)
    (hstep : ∀ es s e s', I es s → ok s e → step s e = some s' → I (es ++ [e]) s')
    {es : List ε} {s : σ} (h : Run step ok s₀ es s) : I es s := by
  induction h with
  | nil => exact h0
  | snoc _ hok hs ih => exact hstep _ _ _ _ ih hok hs

theorem Run.weaken (hw : ∀ s e, ok s e → ok' s e) {es : List ε} {s : σ}
    (h : Run step ok s₀ es s) : Run step ok' s₀ es s := by
  induction h with
  | nil => exact .nil
  | snoc _ hok hs ih => exact .snoc ih (hw _ _ hok) hs

/-- The same for a condition that only has to be met where a run comes by. -/
theorem Run.weaken_reached (hw : ∀ es s e s', Run step Any s₀ es s → step s e = some s' →
    ok s e → ok' s e) {es : List ε} {s : σ} (h : Run step ok s₀ es s) : Run step ok' s₀ es s := by
  induction h with
  | nil => exact .nil
  | snoc hrun hok hs ih =>
    exact .snoc ih (hw _ _ _ _ (hrun.weaken fun _ _ _ => trivial) hs hok) hs

theorem Run.any {es : List ε} {s : σ} (h : Run step ok s₀ es s) : Run step Any s₀ es s :=
  h.weaken fun _ _ _ => trivial

theorem Run.single {s s' : σ} {e : ε} (hok : ok s e) (hs : step s e = some s') :
    Run step ok s [e] s' := by
  rw [← List.nil_append [e]]
  exact .snoc .nil hok hs

/-- A run goes on with a run from where it came to. -/
theorem Run.append {s s' : σ} {es es' : List ε} (h : Run step ok s₀ es s)
    (h' : Run step ok s es' s') : Run step ok s₀ (es ++ es') s' := by
  induction h' with
  | nil => rwa [List.append_nil]
  | snoc _ hok hs ih =>
    rw [← List.append_assoc]
    exact .snoc ih hok hs

/-- The state after a list of events, if every step is enabled. -/
def exec (step : σ → ε → Option σ) (s : σ) : List ε → Option σ
  | [] => some s
  | e :: es => (step s e).bind fun s' => exec step s' es

theorem exec_append (s : σ) (es es' : List ε) :
    exec step s (es ++ es') = (exec step s es).bind fun s' => exec step s' es' := by
  induction es generalizing s with
  | nil => rfl
  | cons e es ih =>
    simp only [List.cons_append, exec]
    rcases step s e with _ | s'
    · rfl
    · exact ih s'

/-- A run that executes is a run. So a concrete run is checked by evaluation. -/
theorem run_of_exec {es : List ε} {s : σ} (h : exec step s₀ es = some s) :
    Run step Any s₀ es s := by
  induction es using List.reverseRecOn generalizing s with
  | nil => cases h; exact .nil
  | append_singleton es e ih =>
    rw [exec_append] at h
    obtain ⟨t, ht, hs⟩ := Option.bind_eq_some_iff.mp h
    obtain ⟨s', hs', heq⟩ := Option.bind_eq_some_iff.mp hs
    cases heq
    exact .snoc (ih ht) trivial hs'

theorem exec_of_run {es : List ε} {s : σ} (h : Run step ok s₀ es s) :
    exec step s₀ es = some s := by
  induction h with
  | nil => rfl
  | snoc _ _ hs ih => simp [exec_append, ih, exec, hs]

/-- A step that is only enabled where it is allowed. -/
def checked (step : σ → ε → Option σ) (ok : σ → ε → Prop) [∀ s e, Decidable (ok s e)] (s : σ)
    (e : ε) : Option σ :=
  if ok s e then step s e else none

/-- The same for a run whose steps meet a condition that can be decided. -/
theorem run_of_checked [∀ s e, Decidable (ok s e)] {es : List ε} {s : σ}
    (h : exec (checked step ok) s₀ es = some s) : Run step ok s₀ es s := by
  induction run_of_exec h with
  | nil => exact .nil
  | snoc hrun _ hs ih =>
    obtain ⟨hok, hs⟩ := Option.ite_none_right_eq_some.mp hs
    exact .snoc (ih (exec_of_run hrun)) hok hs

/-- A condition on events alone holds beside that of the steps. -/
theorem Run.and_events {P : ε → Prop} {es : List ε} {s : σ} (h : Run step ok s₀ es s)
    (hall : ∀ e ∈ es, P e) : Run step (fun s e => ok s e ∧ P e) s₀ es s := by
  induction h with
  | nil => exact .nil
  | snoc _ hok hs ih =>
    exact .snoc (ih fun e he => hall e (List.mem_append_left _ he)) ⟨hok, hall _ (by simp)⟩ hs

/-- A condition that each event of a run meets in every state. -/
theorem Run.of_events {es : List ε} {s : σ} (h : Run step ok s₀ es s)
    (hall : ∀ e ∈ es, ∀ s, ok' s e) : Run step ok' s₀ es s := by
  induction h with
  | nil => exact .nil
  | snoc _ _ hs ih =>
    exact .snoc (ih fun e he => hall e (List.mem_append_left _ he)) (hall _ (by simp) _) hs

end runs
