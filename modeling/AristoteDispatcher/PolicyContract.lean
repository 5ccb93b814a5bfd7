-- The contract of `apply_policy` (quality_of_service_policy/qos_policy.py): it
-- returns, its flag says whether it started a task to requeue the request, and
-- what it admits it also admits at a better score and with fewer requests.
import AristoteDispatcher.SelectionPaths

open pydict pyfloat
open aristote_dispatcher.settings aristote_dispatcher.messages
open aristote_dispatcher.strategy aristote_dispatcher.rpc_server

namespace aristote_dispatcher.policies

/-- The performance indicators that a strategy can hand to a policy. -/
inductive Indicator : RoutingStrategy → Option PyFloat → Prop
  | no_score (strategy : RoutingStrategy) : Indicator strategy none
  | no_request : Indicator .least_busy (some (.fin (-1)))
  | bucket (bound : WithTop ℚ) : Indicator .least_busy (some (.ofBound bound))

/-- The policy lets the request through. -/
def Admits (cfg : Settings) (performance_indicator : Option PyFloat)
    (current_parallel_requests : Nat) (max_parallel_requests : Int) (call : RequeueCall) : Prop :=
  ∃ tasks, apply_policy cfg performance_indicator current_parallel_requests
    max_parallel_requests call = .ok (true, tasks)

/-- A call of `apply_policy` keeps the contract of the interface. -/
structure Honours (cfg : Settings) (performance_indicator : Option PyFloat)
    (current_parallel_requests : Nat) (max_parallel_requests : Int) (call : RequeueCall) :
    Prop where
  returns : ∃ admitted tasks,
    apply_policy cfg performance_indicator current_parallel_requests max_parallel_requests call =
      .ok (admitted, tasks) ∧
    (admitted = false ↔ tasks = [call]) ∧ (admitted = true ↔ tasks = [])
  monotone : ∀ x, performance_indicator = some x →
    Admits cfg (some x) current_parallel_requests max_parallel_requests call →
    ∀ x' (current' : Nat), x'.le x = true → current' ≤ current_parallel_requests →
      Admits cfg (some x') current' max_parallel_requests call

/-! ## The indicators of the two choices -/

theorem Indicator.ne_nan {strategy : RoutingStrategy} {v : PyFloat}
    (h : Indicator strategy (some v)) : v ≠ .nan := by
  cases h with
  | no_request => exact fun hn => by cases hn
  | bucket bound => exact ofBound_ne_nan bound

/-- Only least busy gives a numeric indicator. -/
theorem Indicator.strategy_eq {strategy : RoutingStrategy} {v : PyFloat}
    (h : Indicator strategy (some v)) : strategy = .least_busy := by
  cases h with
  | no_request => rfl
  | bucket bound => rfl

theorem indicator_of_score {cfg : Settings} {s : Strategy} (h : StrategySound cfg s)
    {server : VLLMServer} (hs : server ∈ cfg.VLLM_SERVERS) {score : Option PyFloat}
    (he : s.get_server_score server.url = .ok score) : Indicator cfg.ROUTING_STRATEGY score := by
  cases s with
  | round_robin s =>
    cases he
    exact .no_score _
  | least_busy s =>
    rw [h.1]
    simp only [Strategy.get_server_score] at he
    rcases get_server_score_cases h.2.tracker hs with ⟨_, hv⟩ | ⟨_, _, hv⟩ | ⟨_, _, b, _, hv⟩
    · rw [hv] at he
      cases he
    · rw [hv] at he
      cases he
      exact .no_request
    · rw [hv] at he
      cases he
      exact .bucket b

/-- The choice among all servers gives such an indicator. -/
theorem indicator_of_choose_server {cfg : Settings} {s : Strategy} (h : StrategySound cfg s)
    {random : Nat} {server : VLLMServer} {indicator : Option PyFloat}
    (hc : (s.choose_server random).1 = .ok (server, indicator)) :
    Indicator cfg.ROUTING_STRATEGY indicator := by
  cases indicator with
  | none => exact .no_score _
  | some v =>
    cases s with
    | round_robin s =>
      simp only [Strategy.choose_server] at hc
      split at hc
      · cases hc
      · cases hc
    | least_busy s =>
      have hdef : ∀ server ∈ s.servers, ∃ v, s.get_server_score server.url = .ok v := by
        intro server hs
        rcases leastBusy_choose_cases h.2 random with ⟨_, he⟩ | ⟨hall, _⟩
        · exact absurd (he.symm.trans hc) (fun hn => by cases hn)
        · rcases get_server_score_iff h.2.tracker (h.2.servers server hs) with
            ⟨hu, _⟩ | ⟨_, v, _, hv⟩
          · exact absurd hu (hall _ (h.2.urls ▸ List.mem_map_of_mem hs))
          · exact ⟨v, hv⟩
      obtain ⟨scores, hscores, hnan, hiff⟩ := gathered_scores h.2.urls hdef
      obtain ⟨acc, url, hacc, hurl, _⟩ := choose_server_ok hc
      rw [hscores] at hacc
      cases hacc
      obtain ⟨least, hl⟩ := leastBusyUrl_some hurl
      obtain ⟨hlookup, _⟩ := (least_busy_possible hnan).mp ⟨random, hl⟩
      obtain ⟨owner, howner, rfl, hv⟩ := (hiff least v).mp hlookup
      exact indicator_of_score (s := .least_busy s) h (h.2.servers owner howner)
        (strategy_score_iff.mpr hv)

/-- The choice among the servers of an organization gives such an indicator. -/
theorem indicator_of_choose_among_duplicates {cfg : Settings} {s : Strategy}
    (h : StrategySound cfg s) {duplicates : List VLLMServer}
    (hd : ∀ server ∈ duplicates, server ∈ cfg.VLLM_SERVERS) {random : Nat} {server : VLLMServer}
    {score : Option PyFloat}
    (hc : choose_among_duplicates s duplicates random = .ok (server, score)) :
    Indicator cfg.ROUTING_STRATEGY score := by
  have hcand := candidate_of_choose_among_duplicates hc
  have hserver := hd server hcand.mem
  cases hcand with
  | first _ hidle _ => exact indicator_of_score h hserver hidle
  | unscored _ _ _ => exact .no_score _
  | least _ hscore _ _ => exact indicator_of_score h hserver hscore

/-! ## The contract -/

/-- The settings have a threshold for every numeric indicator. -/
theorem threshold_of_indicator {cfg : Settings} {v : PyFloat}
    (h : Indicator cfg.ROUTING_STRATEGY (some v)) :
    ∃ t, cfg.TIME_TO_FIRST_TOKEN_THRESHOLD = some t :=
  threshold_of_least_busy cfg h.strategy_eq

/-- A policy that admits a request also admits it with a score that is no greater and with no
more requests. -/
theorem admits_of_le {cfg : Settings} {x x' : PyFloat} {current current' : Nat}
    {max_parallel_requests : Int} {call : RequeueCall}
    (hi : Indicator cfg.ROUTING_STRATEGY (some x)) (hle : x'.le x = true)
    (hcurrent : current' ≤ current)
    (h : Admits cfg (some x) current max_parallel_requests call) :
    Admits cfg (some x') current' max_parallel_requests call := by
  obtain ⟨t, ht⟩ := threshold_of_indicator hi
  obtain ⟨tasks, h⟩ := h
  unfold Admits apply_policy at *
  cases hpol : cfg.QUALITY_OF_SERVICE_POLICY with
  | warning_log =>
    refine ⟨[], ?_⟩
    simp [WarningLogPolicy.apply_policy, exceeds, ht, bind, Except.bind]
  | performance_based_requeue =>
    simp only [hpol, PerformanceBasedRequeuePolicy.apply_policy, exceeds, ht, bind, Except.bind,
      at_limit_int, getattr_MAX_PARALLEL_REQUESTS] at h ⊢
    refine ⟨[], ?_⟩
    cases hbelow : t.lt x with
    | true =>
      rw [hbelow] at h
      cases h
    | false =>
      have hbelow' : t.lt x' = false := not_lt_trans hi.ne_nan hbelow (not_lt_of_le hle)
      by_cases hfull : max_parallel_requests ≤ (current : Int)
      · simp [hbelow, hfull] at h
      · have hfree : ¬max_parallel_requests ≤ (current' : Int) := by omega
        simp [hbelow', hfree]
  | parallel_requests_threshold_requeue =>
    simp only [hpol, ParallelRequestsThresholdRequeuePolicy.apply_policy, at_limit_int, bind,
      Except.bind] at h ⊢
    refine ⟨[], ?_⟩
    split at h
    · rename_i hprivileged
      exact if_pos hprivileged
    · rename_i hprivileged
      rw [if_neg hprivileged]
      by_cases hfull : max_parallel_requests ≤ (current : Int)
      · simp [hfull] at h
      · have hfree : ¬max_parallel_requests ≤ (current' : Int) := by omega
        simp [hfree]

/-- A policy keeps its contract exactly when it is not the performance policy that finds the
request too much. -/
theorem a_policy_keeps_its_contract_unless_it_defers (cfg : Settings)
    {performance_indicator : Option PyFloat}
    (hi : Indicator cfg.ROUTING_STRATEGY performance_indicator) (current_parallel_requests : Nat)
    (max_parallel_requests : Int) (call : RequeueCall) :
    Honours cfg performance_indicator current_parallel_requests max_parallel_requests call ↔
      ¬Defers cfg performance_indicator current_parallel_requests max_parallel_requests := by
  have ht : performance_indicator ≠ none → cfg.TIME_TO_FIRST_TOKEN_THRESHOLD ≠ none := by
    intro hne
    obtain ⟨v, rfl⟩ := Option.ne_none_iff_exists'.mp hne
    obtain ⟨t, ht⟩ := threshold_of_indicator hi
    simp [ht]
  rcases apply_policy_cases cfg performance_indicator current_parallel_requests
    max_parallel_requests call ht with ⟨hnot, hr⟩ | ⟨hd, hr⟩
  · refine iff_of_true ⟨?_, ?_⟩ hnot
    · rcases hr with hr | hr
      · exact ⟨true, [], hr, by simp, by simp⟩
      · exact ⟨false, [call], hr, by simp, by simp⟩
    · rintro x rfl hadmits x' current' hle hcurrent
      exact admits_of_le hi hle hcurrent hadmits
  · refine iff_of_false (fun h => ?_) (not_not_intro hd)
    obtain ⟨admitted, tasks, hok, _⟩ := h.returns
    rw [hr] at hok
    cases hok

/-- Least busy with the policy, and one server. -/
abbrev oneServer (policy : QualityOfServicePolicy) : Settings :=
  oneServerSettings .least_busy policy

theorem a_deferral_by_the_limit_keeps_the_contract :
    Honours (oneServer .parallel_requests_threshold_requeue) (some .posInf) 1 1
      ⟨anyCall "1", none, some 1⟩ :=
  (a_policy_keeps_its_contract_unless_it_defers (oneServer .parallel_requests_threshold_requeue)
    (.bucket ⊤) 1 1 ⟨anyCall "1", none, some 1⟩).mpr fun h => by cases h.1

/-- The performance policy raises when it is to defer. -/
theorem a_deferral_by_performance_raises :
    ¬∀ (cfg : Settings) (performance_indicator : Option PyFloat)
      (current_parallel_requests : Nat) (max_parallel_requests : Int) (call : RequeueCall),
      Indicator cfg.ROUTING_STRATEGY performance_indicator →
      Honours cfg performance_indicator current_parallel_requests max_parallel_requests call := by
  intro h
  obtain ⟨admitted, tasks, hok, _⟩ := (h (oneServer .performance_based_requeue) (some (.fin (-1)))
    1 1 ⟨anyCall "1", none, some 1⟩ .no_request).returns
  have hraises : apply_policy (oneServer .performance_based_requeue) (some (.fin (-1))) 1 1
      ⟨anyCall "1", none, some 1⟩ = .error .AttributeError := by decide +kernel
  rw [hraises] at hok
  cases hok

end aristote_dispatcher.policies
