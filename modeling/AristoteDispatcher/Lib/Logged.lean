-- A machine with a log: each step writes what it has to say behind what was said
-- before. Nothing here names this repository.
import AristoteDispatcher.Lib.Runs

namespace runs

variable {σ ε ω : Type*} {step : σ → ε → Option σ} {out : σ → ε → List ω} {ok : σ → ε → Prop}
  {s₀ : σ} {es : List ε}

/-- A state and the log of the steps to it. -/
structure Logged (σ ω : Type*) where
  state : σ
  log : List ω

def Logged.start (s : σ) : Logged σ ω := ⟨s, []⟩

variable {ok' : Logged σ ω → ε → Prop}

/-- The machine that writes `out` at each step. -/
def logged (step : σ → ε → Option σ) (out : σ → ε → List ω) (l : Logged σ ω) (e : ε) :
    Option (Logged σ ω) :=
  (step l.state e).map fun s => ⟨s, l.log ++ out l.state e⟩

theorem logged_eq_some {l l' : Logged σ ω} {e : ε} (h : logged step out l e = some l') :
    step l.state e = some l'.state ∧ l'.log = l.log ++ out l.state e := by
  obtain ⟨s, hs, rfl⟩ := Option.map_eq_some_iff.mp h
  exact ⟨hs, rfl⟩

/-- The log changes no run. -/
theorem Run.of_logged {l : Logged σ ω}
    (h : Run (logged step out) (fun l e => ok l.state e) (.start s₀) es l) :
    Run step ok s₀ es l.state := by
  induction h with
  | nil => exact .nil
  | snoc _ hok hs ih => exact .snoc ih hok (logged_eq_some hs).1

/-- And each run has a log. -/
theorem Run.exists_logged {s : σ} (h : Run step ok s₀ es s) :
    ∃ log, Run (logged step out) (fun l e => ok l.state e) (.start s₀) es ⟨s, log⟩ := by
  induction h with
  | nil => exact ⟨[], .nil⟩
  | @snoc es s e s' _ hok hs ih =>
    obtain ⟨log, hlog⟩ := ih
    exact ⟨log ++ out s e, .snoc hlog hok (by rw [logged, hs]; rfl)⟩

theorem Run.state_of_logged {l : Logged σ ω} (h : Run (logged step out) ok' (.start s₀) es l) :
    Run step Any s₀ es l.state := by
  have hany : Run (logged step out) (fun l e => Any l.state e) (.start s₀) es l := h.any
  exact hany.of_logged

/-- What every step says from an allowed state, the whole log says. -/
theorem Run.log_forall {P : ω → Prop} {l : Logged σ ω}
    (hout : ∀ es s e s', Run step ok s₀ es s → ok s e → step s e = some s' → ∀ o ∈ out s e, P o)
    (h : Run (logged step out) (fun l e => ok l.state e) (.start s₀) es l) :
    ∀ o ∈ l.log, P o := by
  induction h with
  | nil => exact fun _ ho => (by cases ho)
  | snoc hrun hok hs ih =>
    obtain ⟨hstep, hlog⟩ := logged_eq_some hs
    intro o ho
    rw [hlog] at ho
    rcases List.mem_append.mp ho with ho | ho
    · exact ih o ho
    · exact hout _ _ _ _ hrun.of_logged hok hstep o ho

/-- The log is empty exactly if each step said nothing. -/
theorem Run.log_eq_nil_iff {l : Logged σ ω} (h : Run (logged step out) Any (.start s₀) es l) :
    l.log = [] ↔ Run (logged step out) (fun l e => out l.state e = []) (.start s₀) es l := by
  constructor
  · intro hnil
    induction h with
    | nil => exact .nil
    | snoc _ _ hs ih =>
      rw [(logged_eq_some hs).2, List.append_eq_nil_iff] at hnil
      exact .snoc (ih hnil.1) hnil.2 hs
  · intro hrun
    induction hrun with
    | nil => rfl
    | snoc hrun hok hs ih =>
      rw [(logged_eq_some hs).2, ih hrun.any, hok]
      rfl

end runs
