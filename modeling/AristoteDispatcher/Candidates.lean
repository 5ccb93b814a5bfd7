-- The servers on which the choice among the servers of an organization can fall:
-- the first one without requests, else those of the least score, or any of them
-- when the strategy gives no scores.
import AristoteDispatcher.Deliveries

open pydict pyfloat
open aristote_dispatcher.settings aristote_dispatcher.strategy

namespace aristote_dispatcher.rpc_server

variable {strategy : Strategy} {duplicates : List VLLMServer}

/-- The server never had a request. -/
def Idle (strategy : Strategy) (server : VLLMServer) : Prop :=
  strategy.get_server_score server.url = .ok (some (.fin (-1)))

/-- The server and the score that the choice can give, from the scores of all servers. -/
inductive Candidate (strategy : Strategy) (duplicates : List VLLMServer) :
    VLLMServer → Option PyFloat → Prop
  | first {before after : List VLLMServer} {server : VLLMServer}
      (hsplit : duplicates = before ++ server :: after) (hidle : Idle strategy server)
      (hbefore : ∀ other ∈ before, ¬Idle strategy other) :
      Candidate strategy duplicates server (some (.fin (-1)))
  | unscored {server other : VLLMServer} (hs : server ∈ duplicates) (hother : other ∈ duplicates)
      (hnone : strategy.get_server_score other.url = .ok none) :
      Candidate strategy duplicates server none
  | least {server : VLLMServer} {score : PyFloat} (hs : server ∈ duplicates)
      (hscore : strategy.get_server_score server.url = .ok (some score))
      (hbusy : ∀ other ∈ duplicates, ¬Idle strategy other)
      (hleast : ∀ other ∈ duplicates, ∀ v, strategy.get_server_score other.url = .ok (some v) →
        v.lt score = false) : Candidate strategy duplicates server (some score)

theorem Candidate.mem {server : VLLMServer} {score : Option PyFloat}
    (h : Candidate strategy duplicates server score) : server ∈ duplicates := by
  cases h with
  | first hsplit hidle hbefore => simp [hsplit]
  | unscored hs hother hnone => exact hs
  | least hs hscore hbusy hleast => exact hs

/-- The scores are those of the strategy. -/
def ScoredBy (strategy : Strategy) (scores : Dict VLLMServer (Option PyFloat)) : Prop :=
  ∀ server score, scores.lookup server = some score →
    strategy.get_server_score server.url = .ok score

/-- How the loop ends: at the first server without requests, or with the scores of all. -/
theorem scoreDuplicates_ok {scores : Dict VLLMServer (Option PyFloat)}
    {r : VLLMServer ⊕ Dict VLLMServer (Option PyFloat)} (hscores : ScoredBy strategy scores)
    (h : scoreDuplicates strategy duplicates scores = .ok r) :
    (∃ before server after, r = .inl server ∧ duplicates = before ++ server :: after ∧
      Idle strategy server ∧ ∀ other ∈ before, ¬Idle strategy other) ∨
    ∃ scores', r = .inr scores' ∧ ScoredBy strategy scores' ∧
      (∀ server, server ∈ scores' ↔ server ∈ duplicates ∨ server ∈ scores) ∧
      ∀ other ∈ duplicates, ¬Idle strategy other := by
  revert hscores
  refine scoreDuplicates_induction (P := fun duplicates scores r => ScoredBy strategy scores →
    (∃ before server after, r = .inl server ∧ duplicates = before ++ server :: after ∧
      Idle strategy server ∧ ∀ other ∈ before, ¬Idle strategy other) ∨
    ∃ scores', r = .inr scores' ∧ ScoredBy strategy scores' ∧
      (∀ server, server ∈ scores' ↔ server ∈ duplicates ∨ server ∈ scores) ∧
      ∀ other ∈ duplicates, ¬Idle strategy other) ?_ ?_ ?_ h
  · exact fun scores hscores => .inr ⟨scores, rfl, hscores, by simp, by simp⟩
  · exact fun server duplicates scores hidle _ =>
      .inl ⟨[], server, duplicates, rfl, rfl, hidle, by simp⟩
  · intro server duplicates scores score r hscore hbusy ih hscores
    have hnext : ScoredBy strategy (scores.insert server score) := by
      intro k v hk
      rw [Dict.lookup_insert_eq] at hk
      split at hk
      · rename_i heq
        cases hk
        rw [heq, hscore]
      · exact hscores k v hk
    have hnot : ¬Idle strategy server := by
      intro hidle
      rw [Idle, hscore] at hidle
      exact hbusy (Except.ok.inj hidle)
    rcases ih hnext with ⟨before, first, after, rfl, rfl, hidle, hbefore⟩ |
      ⟨scores', rfl, hscores', hkeys, hnone⟩
    · refine .inl ⟨server :: before, first, after, rfl, rfl, hidle, ?_⟩
      exact List.forall_mem_cons.mpr ⟨hnot, hbefore⟩
    · refine .inr ⟨scores', rfl, hscores', fun k => ?_, List.forall_mem_cons.mpr ⟨hnot, hnone⟩⟩
      rw [hkeys, AList.mem_insert, List.mem_cons]
      tauto

/-- The values of the scores, when no score is missing. -/
theorem mem_values {scores : Dict VLLMServer (Option PyFloat)} {v : PyFloat} :
    v ∈ scores.items.filterMap (·.2) ↔ ∃ server, scores.lookup server = some (some v) := by
  rw [List.mem_filterMap]
  constructor
  · rintro ⟨⟨server, score⟩, he, rfl⟩
    exact ⟨server, Dict.mem_items_iff_lookup.mp he⟩
  · rintro ⟨server, hs⟩
    exact ⟨(server, some v), Dict.mem_items_iff_lookup.mpr hs, rfl⟩

theorem candidate_of_chooseScored {scores : Dict VLLMServer (Option PyFloat)} {random : Nat}
    {server : VLLMServer} {score : Option PyFloat} (hscores : ScoredBy strategy scores)
    (hkeys : ∀ server, server ∈ scores ↔ server ∈ duplicates)
    (hbusy : ∀ other ∈ duplicates, ¬Idle strategy other)
    (h : chooseScored scores random = .ok (server, score)) :
    Candidate strategy duplicates server score := by
  have hmem := (hkeys server).mp (mem_of_chooseScored h)
  unfold chooseScored at h
  split at h
  · rename_i hnone
    obtain ⟨⟨other, v⟩, he, hv⟩ := List.any_eq_true.mp hnone
    have hlookup : scores.lookup other = some none := by
      rw [Dict.mem_items_iff_lookup.mp he]
      exact congrArg some (of_decide_eq_true hv)
    split at h
    · cases h
    · cases h
      exact .unscored hmem ((hkeys other).mp (Dict.mem_of_lookup hlookup))
        (hscores other none hlookup)
  · split at h
    · cases h
    · rename_i min_value hmin
      split at h
      · cases h
      · rename_i hc
        cases h
        obtain ⟨⟨k, v⟩, he, rfl⟩ := List.mem_map.mp (mem_of_choice hc)
        obtain ⟨he, heq⟩ := List.mem_filter.mp he
        have hlookup := Dict.mem_items_iff_lookup.mp he
        cases v with
        | none => cases heq
        | some v =>
          obtain rfl : v = min_value := by
            simp only [Option.any_some, PyFloat.eq, Bool.and_eq_true, decide_eq_true_eq] at heq
            exact heq.2
          refine .least hmem (hscores k _ hlookup) hbusy fun other hother w hw => ?_
          have hvalues : ∀ u ∈ scores.items.filterMap (·.2), u ≠ .nan := by
            intro u hu
            obtain ⟨owner, howner⟩ := mem_values.mp hu
            exact strategy_score_ne_nan (hscores owner _ howner)
          refine minimum_le hvalues hmin w (mem_values.mpr ⟨other, ?_⟩)
          obtain ⟨u, hu⟩ := Dict.exists_of_mem ((hkeys other).mpr hother)
          have heq := hscores other u hu
          rw [hw] at heq
          cases heq
          exact hu

/-- What the choice gives is one of the candidates. -/
theorem candidate_of_choose_among_duplicates {random : Nat} {server : VLLMServer}
    {score : Option PyFloat}
    (h : choose_among_duplicates strategy duplicates random = .ok (server, score)) :
    Candidate strategy duplicates server score := by
  have hempty : ScoredBy strategy ∅ := fun _ _ hs => by cases hs
  unfold choose_among_duplicates at h
  split at h
  · cases h
  · rename_i hr
    cases h
    rcases scoreDuplicates_ok hempty hr with ⟨before, first, after, heq, hsplit, hidle, hbefore⟩ |
      ⟨scores, heq, _⟩
    · cases heq
      exact .first hsplit hidle hbefore
    · cases heq
  · rename_i hr
    rcases scoreDuplicates_ok hempty hr with ⟨before, first, after, heq, _⟩ |
      ⟨scores, heq, hscores, hkeys, hbusy⟩
    · cases heq
    · cases heq
      refine candidate_of_chooseScored hscores (fun server => ?_) hbusy h
      rw [hkeys]
      exact or_iff_left fun hmem => by cases hmem

end aristote_dispatcher.rpc_server
