-- The choice among the servers of an organization (`choose_among_duplicates` of
-- consumer/rpc_server.py): it raises where a percentile does, and else it gives one of
-- them, with a score only where there is a threshold.
import Mathlib.Tactic.Linarith
import AristoteDispatcher.RpcServer
import AristoteDispatcher.StrategyInvariant

open pydict pyfloat
open aristote_dispatcher.settings aristote_dispatcher.histogram aristote_dispatcher.strategy

namespace aristote_dispatcher.rpc_server

variable {T O L U : Type} [DecidableEq T] [DecidableEq O] [DecidableEq L] [DecidableEq U]
  {cfg : Settings T O L U}

/-- A percentile raises before an empty difference ends the loop over the servers. -/
def LoopRaises (s : LeastBusy T O L U) : List (VLLMServer T O L U) → Prop
  | [] => False
  | server :: duplicates =>
    UnreachedAt s server.url ∨ (¬EmptyAt s server.url ∧ LoopRaises s duplicates)

/-- The choice among these servers raises. -/
def DuplicatesRaise (strategy : Strategy T O L U) (duplicates : List (VLLMServer T O L U)) : Prop :=
  match strategy with
  | .round_robin _ => False
  | .least_busy s => LoopRaises s duplicates

/-- A score of a configured server: none without metrics, else a number. -/
def IsScore (strategy : Strategy T O L U) (score : Option PyFloat) : Prop :=
  match strategy with
  | .round_robin _ => score = none
  | .least_busy _ => ∃ v, v ≠ .nan ∧ score = some v

/-- The scores of the loop are scores, of servers among the given ones. -/
def Scores (strategy : Strategy T O L U) (servers : List (VLLMServer T O L U))
    (scores : Dict (VLLMServer T O L U) (Option PyFloat)) : Prop :=
  ∀ server score, scores.lookup server = some score → server ∈ servers ∧ IsScore strategy score

theorem scores_insert {strategy : Strategy T O L U} {servers : List (VLLMServer T O L U)}
    {scores : Dict (VLLMServer T O L U) (Option PyFloat)} (h : Scores strategy servers scores)
    {server : VLLMServer T O L U} {score : Option PyFloat} (hserver : server ∈ servers)
    (hscore : IsScore strategy score) : Scores strategy servers (scores.insert server score) := by
  intro k v hk
  rw [Dict.lookup_insert_eq] at hk
  split at hk
  · rename_i heq
    cases hk
    exact ⟨heq ▸ hserver, hscore⟩
  · exact h k v hk

/-- How the loop ends: at a server without requests, or with the scores of all. -/
inductive Scored (strategy : Strategy T O L U) (servers : List (VLLMServer T O L U))
    (seen : VLLMServer T O L U → Prop) :
    VLLMServer T O L U ⊕ Dict (VLLMServer T O L U) (Option PyFloat) → Prop
  | first {s : LeastBusy T O L U} {server : VLLMServer T O L U} (hs : strategy = .least_busy s)
      (h : server ∈ servers) : Scored strategy servers seen (.inl server)
  | all {scores : Dict (VLLMServer T O L U) (Option PyFloat)} (h : Scores strategy servers scores)
      (hall : ∀ server, seen server → server ∈ scores) :
      Scored strategy servers seen (.inr scores)

theorem Scored.mono {strategy : Strategy T O L U} {servers : List (VLLMServer T O L U)}
    {seen seen' : VLLMServer T O L U → Prop}
    {r : VLLMServer T O L U ⊕ Dict (VLLMServer T O L U) (Option PyFloat)}
    (h : Scored strategy servers seen r) (hsub : ∀ server, seen' server → seen server) :
    Scored strategy servers seen' r := by
  cases h with
  | first hs hserver => exact .first hs hserver
  | all hscores hall => exact .all hscores fun server hserver => hall server (hsub server hserver)

/-- A bound is no -1. -/
theorem ofBound_ne_minus_one {b : Bound} (h : 0 ≤ b) :
    (PyFloat.ofBound b).eq (.fin (-1)) = false := by
  rcases b with _ | q
  · rfl
  · have hq : (0 : ℚ) ≤ q := WithTop.coe_le_coe.mp h
    have hne : q ≠ -1 := by
      rintro rfl
      linarith
    simpa [PyFloat.eq, PyFloat.ofBound] using hne

/-- A score above -1 goes into the dict, and the loop goes on. -/
theorem scoreDuplicates_next {strategy : Strategy T O L U} {server : VLLMServer T O L U}
    {score : Option PyFloat} (hget : strategy.get_server_score server.url = .ok score)
    (hany : score.any (fun v => v.eq (.fin (-1))) = false) (duplicates : List (VLLMServer T O L U))
    (scores : Dict (VLLMServer T O L U) (Option PyFloat)) :
    scoreDuplicates strategy (server :: duplicates) scores =
      scoreDuplicates strategy duplicates (scores.insert server score) := by
  simp only [scoreDuplicates, hget, hany, Bool.false_eq_true, if_false]

/-- What the loop has seen after a server covers that server. -/
theorem Scored.next {strategy : Strategy T O L U} {servers duplicates : List (VLLMServer T O L U)}
    {scores : Dict (VLLMServer T O L U) (Option PyFloat)} {server : VLLMServer T O L U}
    {score : Option PyFloat}
    {r : VLLMServer T O L U ⊕ Dict (VLLMServer T O L U) (Option PyFloat)}
    (h : Scored strategy servers
      (fun x => x ∈ duplicates ∨ x ∈ scores.insert server score) r) :
    Scored strategy servers (fun x => x ∈ server :: duplicates ∨ x ∈ scores) r := by
  refine h.mono fun x hx => ?_
  rw [AList.mem_insert]
  rcases hx with hx | hx
  · rcases List.mem_cons.mp hx with rfl | hx
    · exact .inr (.inl rfl)
    · exact .inl hx
  · exact .inr (.inr hx)

omit [DecidableEq T] [DecidableEq O] [DecidableEq L] in
/-- After a server with a percentile, the loop raises where it raises over the others. -/
theorem loopRaises_cons_iff {s : LeastBusy T O L U} {server : VLLMServer T O L U}
    (hu : ¬UnreachedAt s server.url) (hempty : ¬EmptyAt s server.url)
    (duplicates : List (VLLMServer T O L U)) :
    LoopRaises s (server :: duplicates) ↔ LoopRaises s duplicates := by
  constructor
  · rintro (hu' | ⟨_, hl⟩)
    · exact absurd hu' hu
    · exact hl
  · exact fun hl => .inr ⟨hempty, hl⟩

/-- The loop over the servers of an organization. -/
theorem scoreDuplicates_cases {cfg : Settings T O L U} {strategy : Strategy T O L U}
    (h : StrategySound cfg strategy) {servers duplicates : List (VLLMServer T O L U)}
    (hconf : ∀ server ∈ duplicates, server ∈ cfg.VLLM_SERVERS)
    (hsub : ∀ server ∈ duplicates, server ∈ servers)
    {scores : Dict (VLLMServer T O L U) (Option PyFloat)}
    (hscores : Scores strategy servers scores) :
    (DuplicatesRaise strategy duplicates ∧
      scoreDuplicates strategy duplicates scores = .error .PercentileComputationError) ∨
    (¬DuplicatesRaise strategy duplicates ∧
      ∃ r, scoreDuplicates strategy duplicates scores = .ok r ∧
        Scored strategy servers (fun server => server ∈ duplicates ∨ server ∈ scores) r) := by
  induction duplicates generalizing scores with
  | nil =>
    refine .inr ⟨?_, .inr scores, rfl, .all hscores fun server hs => ?_⟩
    · cases strategy with
      | round_robin s => exact id
      | least_busy s => exact id
    · exact hs.resolve_left List.not_mem_nil
  | cons server duplicates ih =>
    have hserver := hsub server List.mem_cons_self
    have hrest : ∀ {score : Option PyFloat}, IsScore strategy score → _ := fun hscore =>
      ih (fun x hx => hconf x (List.mem_cons_of_mem _ hx))
        (fun x hx => hsub x (List.mem_cons_of_mem _ hx)) (scores_insert hscores hserver hscore)
    cases strategy with
    | round_robin s =>
      have hnext : scoreDuplicates (.round_robin s) (server :: duplicates) scores =
          scoreDuplicates (.round_robin s) duplicates (scores.insert server none) :=
        scoreDuplicates_next rfl rfl duplicates scores
      rw [hnext]
      exact (hrest rfl).imp id fun ⟨hnot, r, hr, hscored⟩ => ⟨hnot, r, hr, hscored.next⟩
    | least_busy s =>
      rcases get_server_score_cases h.2.tracker (hconf server List.mem_cons_self) with
        ⟨hu, he⟩ | ⟨hu, hempty, he⟩ | ⟨hu, hempty, b, hb, he⟩
      · refine .inl ⟨.inl hu, ?_⟩
        simp only [scoreDuplicates, Strategy.get_server_score, he]
      · refine .inr ⟨?_, .inl server, ?_, .first rfl hserver⟩
        · rintro (hu' | ⟨hne, _⟩)
          · exact hu hu'
          · exact hne hempty
        · simp only [scoreDuplicates, Strategy.get_server_score, he]
          rfl
      · have hany : (some (PyFloat.ofBound b)).any (fun v => v.eq (.fin (-1))) = false := by
          rw [Option.any_some, ofBound_ne_minus_one hb]
        have hget : Strategy.get_server_score (.least_busy s) server.url =
            .ok (some (PyFloat.ofBound b)) := by
          simp only [Strategy.get_server_score, he]
        rw [scoreDuplicates_next hget hany]
        refine (hrest ⟨_, ofBound_ne_nan b, rfl⟩).imp ?_ ?_
        · rintro ⟨hraise, herr⟩
          exact ⟨(loopRaises_cons_iff hu hempty duplicates).mpr hraise, herr⟩
        · rintro ⟨hnot, r, hr, hscored⟩
          exact ⟨fun hl => hnot ((loopRaises_cons_iff hu hempty duplicates).mp hl), r, hr,
            hscored.next⟩

/-- With scores that are no NaN, some server of the dict is chosen. A score that comes with
it is not one beside a None. -/
theorem chooseScored_ok {scores : Dict (VLLMServer T O L U) (Option PyFloat)}
    (hne : scores.items ≠ [])
    (hn : ∀ server v, scores.lookup server = some (some v) → v ≠ .nan) (random : Nat) :
    ∃ server ∈ scores, ∃ score, chooseScored scores random = .ok (server, score) ∧
      (score = none ∨ ∀ server, scores.lookup server ≠ some none) := by
  have hmem : ∀ {server : VLLMServer T O L U} {score : Option PyFloat},
      (server, score) ∈ scores.items → server ∈ scores :=
    fun h => Dict.mem_of_lookup (Dict.mem_items_iff_lookup.mp h)
  unfold chooseScored
  by_cases hnone : scores.items.any (·.2 = none) = true
  · rw [if_pos hnone]
    have hkeys : scores.items.map (·.1) ≠ [] := by simpa using hne
    obtain ⟨server, hs, hc⟩ := choice_of_ne_nil hkeys random
    obtain ⟨⟨k, v⟩, hk, rfl⟩ := List.mem_map.mp hs
    exact ⟨k, hmem hk, none, by rw [hc], .inl rfl⟩
  · rw [if_neg hnone]
    have hall : ∀ e ∈ scores.items, e.2 ≠ none := by
      intro e he h2
      exact hnone (List.any_eq_true.mpr ⟨e, he, by simp [h2]⟩)
    have hvalues : scores.items.filterMap (·.2) ≠ [] := by
      obtain ⟨e, items, heq⟩ := List.exists_cons_of_ne_nil hne
      have he : e ∈ scores.items := by simp [heq]
      obtain ⟨v, hv⟩ := Option.ne_none_iff_exists'.mp (hall e he)
      exact List.ne_nil_of_mem (List.mem_filterMap.mpr ⟨e, he, hv⟩)
    obtain ⟨v, hv⟩ := exists_minimum hvalues
    obtain ⟨⟨k, w⟩, hk, hkw⟩ := List.mem_filterMap.mp (minimum_mem hv)
    cases hkw
    have hself := eq_self_of_ne_nan (hn k v (Dict.mem_items_iff_lookup.mp hk))
    have hcand : (scores.items.filter fun e => e.2.any fun w => w.eq v).map (·.1) ≠ [] :=
      List.ne_nil_of_mem (List.mem_map.mpr ⟨(k, some v), List.mem_filter.mpr ⟨hk, hself⟩, rfl⟩)
    obtain ⟨server, hs, hc⟩ := choice_of_ne_nil hcand random
    obtain ⟨e, he, rfl⟩ := List.mem_map.mp hs
    refine ⟨e.1, hmem (List.mem_of_mem_filter he), some v, by simp only [hv, hc], .inr ?_⟩
    intro server hlookup
    exact hall _ (Dict.mem_items_iff_lookup.mpr hlookup) rfl

/-- The choice among servers of an organization that has some: it raises, or it gives one of
them, with a score only where there is a threshold. -/
theorem choose_among_duplicates_cases {strategy : Strategy T O L U} (h : StrategySound cfg strategy)
    {duplicates : List (VLLMServer T O L U)} (hne : duplicates ≠ [])
    (hconf : ∀ server ∈ duplicates, server ∈ cfg.VLLM_SERVERS) (random : Nat) :
    (DuplicatesRaise strategy duplicates ∧
      choose_among_duplicates strategy duplicates random = .error .PercentileComputationError) ∨
    (¬DuplicatesRaise strategy duplicates ∧
      ∃ server ∈ duplicates, ∃ score,
        choose_among_duplicates strategy duplicates random = .ok (server, score) ∧
        (score ≠ none → cfg.TIME_TO_FIRST_TOKEN_THRESHOLD ≠ none)) := by
  have hempty : Scores strategy duplicates ∅ := by
    intro server score hs
    cases hs
  unfold choose_among_duplicates
  rcases scoreDuplicates_cases h hconf (fun _ hs => hs) hempty with
    ⟨hraise, he⟩ | ⟨hnot, r, hr, hscored⟩
  · exact .inl ⟨hraise, by rw [he]⟩
  · refine .inr ⟨hnot, ?_⟩
    rw [hr]
    cases hscored with
    | first hs hserver =>
      subst hs
      obtain ⟨t, ht⟩ := threshold_of_least_busy cfg h.1
      exact ⟨_, hserver, _, rfl, fun _ => by simp [ht]⟩
    | all hscores hall =>
      rename_i scores
      obtain ⟨first, rest, heq⟩ := List.exists_cons_of_ne_nil hne
      obtain ⟨value, hvalue⟩ := Dict.exists_of_mem (hall first (.inl (by simp [heq])))
      have hitems : scores.items ≠ [] := List.ne_nil_of_mem (Dict.mem_items_iff_lookup.mpr hvalue)
      have hnan : ∀ server v, scores.lookup server = some (some v) → v ≠ .nan := by
        intro server v hv
        have hscore := (hscores server _ hv).2
        cases strategy with
        | round_robin s => cases hscore
        | least_busy s =>
          obtain ⟨w, hw, heq⟩ := hscore
          cases heq
          exact hw
      obtain ⟨server, hserver, score, hc, hnone⟩ := chooseScored_ok hitems hnan random
      obtain ⟨value', hvalue'⟩ := Dict.exists_of_mem hserver
      refine ⟨server, (hscores server _ hvalue').1, score, hc, ?_⟩
      intro hscore
      cases strategy with
      | round_robin s =>
        have hnever := hnone.resolve_left hscore server
        rw [hvalue', (hscores server _ hvalue').2] at hnever
        exact absurd rfl hnever
      | least_busy s =>
        obtain ⟨t, ht⟩ := threshold_of_least_busy cfg h.1
        simp [ht]

/-- Among no servers none is chosen. -/
theorem choose_among_nil (strategy : Strategy T O L U) (random : Nat) :
    choose_among_duplicates strategy [] random = .error .ValueError := rfl

end aristote_dispatcher.rpc_server
