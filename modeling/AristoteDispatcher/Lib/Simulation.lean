-- One machine in terms of another: if each step is matched by a run of the other machine,
-- each run is. Nothing here names this repository.
import AristoteDispatcher.Lib.Runs

namespace runs

variable {σ ε σ' ε' : Type*} {step : σ → ε → Option σ} {ok : σ → ε → Prop} {s₀ : σ}
  {step' : σ' → ε' → Option σ'} {ok' : σ' → ε' → Prop}

/-- The other machine goes from the image of a state to that of the next one. Only states that
a run reaches have to be matched. -/
theorem Run.simulation (abs : σ → σ')
    (hstep : ∀ es s e s', Run step ok s₀ es s → ok s e → step s e = some s' →
      ∃ es', Run step' ok' (abs s) es' (abs s'))
    {es : List ε} {s : σ} (h : Run step ok s₀ es s) :
    ∃ es', Run step' ok' (abs s₀) es' (abs s) := by
  induction h with
  | nil => exact ⟨[], .nil⟩
  | snoc hrun hok hs ih =>
    obtain ⟨before, hbefore⟩ := ih
    obtain ⟨after, hafter⟩ := hstep _ _ _ _ hrun hok hs
    exact ⟨before ++ after, hbefore.append hafter⟩

end runs
