-- Runs that come to rest: while there is work left, some step takes from it. Nothing here
-- names this repository.
import AristoteDispatcher.Lib.Runs

namespace runs

variable {σ ε : Type*} {step : σ → ε → Option σ} {ok : σ → ε → Prop}

/-- From each state that keeps the invariant there is a run to one without work, in no more
steps than there was work. -/
theorem exists_run_to_rest {I : σ → Prop} (work : σ → Nat)
    (hstep : ∀ s, I s → work s ≠ 0 →
      ∃ e s', ok s e ∧ step s e = some s' ∧ I s' ∧ work s' < work s)
    {s : σ} (h : I s) :
    ∃ es s', Run step ok s es s' ∧ I s' ∧ work s' = 0 ∧ es.length ≤ work s := by
  induction hn : work s using Nat.strongRecOn generalizing s with
  | ind n ih =>
    by_cases hzero : work s = 0
    · exact ⟨[], s, .nil, h, hzero, Nat.zero_le _⟩
    · obtain ⟨e, mid, hok, hs, hmid, hlt⟩ := hstep s h hzero
      obtain ⟨es, s', hrun, hs', hrest, hlen⟩ := ih (work mid) (hn ▸ hlt) hmid rfl
      refine ⟨e :: es, s', (Run.single hok hs).append hrun, hs', hrest, ?_⟩
      rw [List.length_cons]
      omega

end runs
