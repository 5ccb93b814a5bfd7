-- The priority handlers and the policies of quality of service
-- (consumer/priority_handler, consumer/quality_of_service_policy). A policy
-- says whether the request goes through, or starts a task that requeues it.
import AristoteDispatcher.Fields

open pyfloat
open aristote_dispatcher.settings aristote_dispatcher.messages
open aristote_dispatcher.rpc_server (LimitField at_limit)

namespace aristote_dispatcher.policies

/-! ## Priority handlers -/

/-- `apply_priority`. A subtraction from None is a TypeError. -/
def apply_priority (handler : PriorityHandler) (best_priority : Int)
    (current_priority : Option UInt8) : Except Exn (Option Int) :=
  match handler with
  | .ignore => .ok none
  | .vllm =>
    match current_priority with
    | some p => .ok (some (max (best_priority - p.toNat) 0))
    | none => .error .TypeError

theorem apply_priority_of_some (handler : PriorityHandler) (best_priority : Int) (p : UInt8) :
    ∃ forwarded, apply_priority handler best_priority (some p) = .ok forwarded := by
  cases handler with
  | ignore => exact ⟨_, rfl⟩
  | vllm => exact ⟨_, rfl⟩

/-! ## Policies -/

/-- What a policy returns, and the `requeue` tasks that it started. -/
abbrev Verdict := Bool × List RequeueCall

/-- `performance_indicator > self.performance_threshold`. -/
def exceeds (performance_indicator : PyFloat) (performance_threshold : Option PyFloat) :
    Except Exn Bool :=
  match performance_threshold with
  | some threshold => .ok (threshold.lt performance_indicator)
  | none => .error .TypeError

variable {T O L U : Type} [LimitField L]

namespace WarningLogPolicy

/-- It only logs. -/
def apply_policy (performance_threshold performance_indicator : Option PyFloat)
    (current_parallel_requests : Nat) (max_parallel_requests : L) : Except Exn Verdict :=
  match performance_indicator with
  | none => .ok (true, [])
  | some p => do
    let _ ← exceeds p performance_threshold
    let _ ← at_limit max_parallel_requests current_parallel_requests
    .ok (true, [])

end WarningLogPolicy

namespace PerformanceBasedRequeuePolicy

def apply_policy (performance_threshold performance_indicator : Option PyFloat)
    (current_parallel_requests : Nat) (max_parallel_requests : L) (call : RequeueCall) :
    Except Exn Verdict :=
  match performance_indicator with
  | none => .ok (true, [])
  | some p => do
    let above ← exceeds p performance_threshold
    let deferred ←
      if above then .ok true else at_limit max_parallel_requests current_parallel_requests
    if deferred then do
      -- the log line before the task is created reads this attribute
      getattr "MAX_PARALLEL_REQUESTS"
      .ok (false, [call])
    else .ok (true, [])

end PerformanceBasedRequeuePolicy

namespace ParallelRequestsThresholdRequeuePolicy

/-- `isinstance(message.priority, int) and message.priority >= settings.BEST_PRIORITY - 1`. -/
def privileged (best_priority : Int) (priority : Option UInt8) : Bool :=
  priority.any fun p => best_priority - 1 ≤ (p.toNat : Int)

def apply_policy (best_priority : Int) (current_parallel_requests : Nat)
    (max_parallel_requests : L) (call : RequeueCall) : Except Exn Verdict :=
  if privileged best_priority call.message.priority then .ok (true, [])
  else do
    let full ← at_limit max_parallel_requests current_parallel_requests
    if full then .ok (false, [call]) else .ok (true, [])

end ParallelRequestsThresholdRequeuePolicy

/-- The policy that the main program builds. -/
def apply_policy (cfg : Settings T O L U) (performance_indicator : Option PyFloat)
    (current_parallel_requests : Nat) (max_parallel_requests : L) (call : RequeueCall) :
    Except Exn Verdict :=
  match cfg.QUALITY_OF_SERVICE_POLICY with
  | .warning_log =>
    WarningLogPolicy.apply_policy cfg.TIME_TO_FIRST_TOKEN_THRESHOLD performance_indicator
      current_parallel_requests max_parallel_requests
  | .performance_based_requeue =>
    PerformanceBasedRequeuePolicy.apply_policy cfg.TIME_TO_FIRST_TOKEN_THRESHOLD
      performance_indicator current_parallel_requests max_parallel_requests call
  | .parallel_requests_threshold_requeue =>
    ParallelRequestsThresholdRequeuePolicy.apply_policy cfg.BEST_PRIORITY
      current_parallel_requests max_parallel_requests call

/-! ## What a policy decides -/

/-- The policy lets the request through. It reads the limit only where it compares it. -/
def Passes (cfg : Settings T O L U) (performance_indicator : Option PyFloat)
    (current_parallel_requests : Nat) (max_parallel_requests : L) (priority : Option UInt8) :
    Prop :=
  match cfg.QUALITY_OF_SERVICE_POLICY with
  | .warning_log => performance_indicator ≠ none →
    LimitField.reached max_parallel_requests current_parallel_requests ≠ none
  | .performance_based_requeue => ∀ p, performance_indicator = some p →
    exceeds p cfg.TIME_TO_FIRST_TOKEN_THRESHOLD = .ok false ∧
      LimitField.reached max_parallel_requests current_parallel_requests = some false
  | .parallel_requests_threshold_requeue =>
    ParallelRequestsThresholdRequeuePolicy.privileged cfg.BEST_PRIORITY priority = true ∨
      LimitField.reached max_parallel_requests current_parallel_requests = some false

/-- The policy defers the request without raising, which only one of them can. -/
def Requeues (cfg : Settings T O L U) (current_parallel_requests : Nat) (max_parallel_requests : L)
    (priority : Option UInt8) : Prop :=
  cfg.QUALITY_OF_SERVICE_POLICY = .parallel_requests_threshold_requeue ∧
    ParallelRequestsThresholdRequeuePolicy.privileged cfg.BEST_PRIORITY priority = false ∧
    LimitField.reached max_parallel_requests current_parallel_requests = some true

theorem Passes.not_requeues {cfg : Settings T O L U} {performance_indicator : Option PyFloat}
    {current : Nat} {max_parallel_requests : L} {priority : Option UInt8}
    (h : Passes cfg performance_indicator current max_parallel_requests priority) :
    ¬Requeues cfg current max_parallel_requests priority := by
  rintro ⟨hpol, hnot, hfull⟩
  unfold Passes at h
  simp only [hpol, hnot, hfull, Bool.false_eq_true, Option.some.injEq, Bool.true_eq_false,
    or_self] at h

/-- When a numeric indicator comes with a threshold, a policy lets the request through, starts one
task to requeue it, or raises. -/
theorem apply_policy_decides (cfg : Settings T O L U) (performance_indicator : Option PyFloat)
    (current : Nat) (max_parallel_requests : L) (call : RequeueCall)
    (ht : performance_indicator ≠ none → cfg.TIME_TO_FIRST_TOKEN_THRESHOLD ≠ none) :
    (Passes cfg performance_indicator current max_parallel_requests call.message.priority ∧
      apply_policy cfg performance_indicator current max_parallel_requests call =
        .ok (true, [])) ∨
    (Requeues cfg current max_parallel_requests call.message.priority ∧
      apply_policy cfg performance_indicator current max_parallel_requests call =
        .ok (false, [call])) ∨
    (¬Passes cfg performance_indicator current max_parallel_requests call.message.priority ∧
      ¬Requeues cfg current max_parallel_requests call.message.priority ∧
      ∃ e, e ≠ .ServerNotFound ∧
        apply_policy cfg performance_indicator current max_parallel_requests call = .error e) := by
  unfold apply_policy Passes Requeues
  cases hpol : cfg.QUALITY_OF_SERVICE_POLICY with
  | warning_log =>
    simp only [WarningLogPolicy.apply_policy]
    rcases performance_indicator with _ | p
    · exact .inl ⟨fun hne => absurd rfl hne, rfl⟩
    · obtain ⟨t, hthr⟩ := Option.ne_none_iff_exists'.mp (ht (by simp))
      simp only [exceeds, hthr, at_limit, bind, Except.bind]
      cases LimitField.reached max_parallel_requests current with
      | some full => exact .inl ⟨fun _ => by simp, rfl⟩
      | none => exact .inr (.inr ⟨by simp, by simp, .TypeError, by decide, rfl⟩)
  | performance_based_requeue =>
    simp only [PerformanceBasedRequeuePolicy.apply_policy]
    rcases performance_indicator with _ | p
    · exact .inl ⟨by simp, rfl⟩
    · obtain ⟨t, hthr⟩ := Option.ne_none_iff_exists'.mp (ht (by simp))
      simp only [exceeds, hthr, at_limit, bind, Except.bind, getattr_MAX_PARALLEL_REQUESTS,
        Option.some.injEq, forall_eq', Except.ok.injEq]
      cases t.lt p with
      | true => exact .inr (.inr ⟨by simp, by simp, .AttributeError, by decide, rfl⟩)
      | false =>
        cases LimitField.reached max_parallel_requests current with
        | none => exact .inr (.inr ⟨by simp, by simp, .TypeError, by decide, rfl⟩)
        | some full =>
          cases full with
          | true => exact .inr (.inr ⟨by simp, by simp, .AttributeError, by decide, rfl⟩)
          | false => exact .inl ⟨⟨rfl, rfl⟩, rfl⟩
  | parallel_requests_threshold_requeue =>
    simp only [ParallelRequestsThresholdRequeuePolicy.apply_policy, at_limit, bind, Except.bind]
    cases ParallelRequestsThresholdRequeuePolicy.privileged cfg.BEST_PRIORITY
        call.message.priority with
    | true => exact .inl ⟨.inl rfl, rfl⟩
    | false =>
      cases LimitField.reached max_parallel_requests current with
      | none => exact .inr (.inr ⟨by simp, by simp, .TypeError, by decide, rfl⟩)
      | some full =>
        cases full with
        | true => exact .inr (.inl ⟨⟨trivial, rfl, rfl⟩, rfl⟩)
        | false => exact .inl ⟨.inr rfl, rfl⟩

/-! ## Limits of the declared type -/

@[simp] theorem at_limit_int (max_parallel_requests : Int) (current : Nat) :
    at_limit max_parallel_requests current = .ok (decide (max_parallel_requests ≤ current)) := rfl

/-- The performance policy finds the request too much. -/
def Defers (cfg : Settings) (performance_indicator : Option PyFloat)
    (current_parallel_requests : Nat) (max_parallel_requests : Int) : Prop :=
  cfg.QUALITY_OF_SERVICE_POLICY = .performance_based_requeue ∧
    ∃ p, performance_indicator = some p ∧
      (exceeds p cfg.TIME_TO_FIRST_TOKEN_THRESHOLD = .ok true ∨
        max_parallel_requests ≤ current_parallel_requests)

/-- With a threshold and an integer limit, the performance policy raises where it would defer. -/
theorem performance_based_int (threshold p : PyFloat) (current : Nat)
    (max_parallel_requests : Int) (call : RequeueCall) :
    PerformanceBasedRequeuePolicy.apply_policy (some threshold) (some p) current
        max_parallel_requests call =
      if threshold.lt p = true ∨ max_parallel_requests ≤ current then .error .AttributeError
      else .ok (true, []) := by
  simp only [PerformanceBasedRequeuePolicy.apply_policy, exceeds, at_limit_int, bind, Except.bind,
    getattr_MAX_PARALLEL_REQUESTS]
  cases threshold.lt p with
  | true => simp
  | false => by_cases hfull : max_parallel_requests ≤ current <;> simp [hfull]

/-- What a policy can do, when a numeric indicator comes with a threshold: let the request
through, start one task to requeue it, or raise where the performance policy defers. -/
theorem apply_policy_cases (cfg : Settings) (performance_indicator : Option PyFloat)
    (current : Nat) (max_parallel_requests : Int) (call : RequeueCall)
    (ht : performance_indicator ≠ none → cfg.TIME_TO_FIRST_TOKEN_THRESHOLD ≠ none) :
    (¬Defers cfg performance_indicator current max_parallel_requests ∧
      (apply_policy cfg performance_indicator current max_parallel_requests call =
          .ok (true, []) ∨
        apply_policy cfg performance_indicator current max_parallel_requests call =
          .ok (false, [call]))) ∨
    (Defers cfg performance_indicator current max_parallel_requests ∧
      apply_policy cfg performance_indicator current max_parallel_requests call =
        .error .AttributeError) := by
  unfold apply_policy
  cases hpol : cfg.QUALITY_OF_SERVICE_POLICY with
  | warning_log =>
    refine .inl ⟨?_, .inl ?_⟩
    · rintro ⟨hd, _⟩
      rw [hpol] at hd
      cases hd
    · unfold WarningLogPolicy.apply_policy
      rcases performance_indicator with _ | p
      · rfl
      · obtain ⟨t, hthr⟩ := Option.ne_none_iff_exists'.mp (ht (by simp))
        simp [exceeds, hthr, bind, Except.bind]
  | parallel_requests_threshold_requeue =>
    refine .inl ⟨?_, ?_⟩
    · rintro ⟨hd, _⟩
      rw [hpol] at hd
      cases hd
    · simp only [ParallelRequestsThresholdRequeuePolicy.apply_policy, at_limit_int, bind,
        Except.bind]
      split
      · exact .inl rfl
      · split
        · exact .inr rfl
        · exact .inl rfl
  | performance_based_requeue =>
    rcases performance_indicator with _ | p
    · refine .inl ⟨?_, .inl rfl⟩
      rintro ⟨_, p, hp, _⟩
      cases hp
    · obtain ⟨t, hthr⟩ := Option.ne_none_iff_exists'.mp (ht (by simp))
      have hdefers : Defers cfg (some p) current max_parallel_requests ↔
          t.lt p = true ∨ max_parallel_requests ≤ current := by
        simp [Defers, hpol, hthr, exceeds]
      rw [hdefers, hthr]
      simp only [performance_based_int]
      by_cases hdef : t.lt p = true ∨ max_parallel_requests ≤ current
      · exact .inr ⟨hdef, if_pos hdef⟩
      · exact .inl ⟨hdef, .inl (if_neg hdef)⟩

/-- A request that the threshold policy lets through found a free place, or comes with the
priority of a privileged one. -/
theorem free_place_of_threshold {cfg : Settings} {performance_indicator : Option PyFloat}
    {current : Nat} {max_parallel_requests : Int} {call : RequeueCall} {tasks : List RequeueCall}
    (hpol : cfg.QUALITY_OF_SERVICE_POLICY = .parallel_requests_threshold_requeue)
    (hp : ∀ p, call.message.priority = some p → (p.toNat : Int) < cfg.BEST_PRIORITY - 1)
    (h : apply_policy cfg performance_indicator current max_parallel_requests call =
      .ok (true, tasks)) : (current : Int) < max_parallel_requests := by
  have hnot : ParallelRequestsThresholdRequeuePolicy.privileged cfg.BEST_PRIORITY
      call.message.priority = false := by
    unfold ParallelRequestsThresholdRequeuePolicy.privileged
    rw [Option.any_eq_false]
    intro p hprio
    have := hp p hprio
    simp only [decide_eq_false_iff_not]
    omega
  unfold apply_policy at h
  simp only [hpol, ParallelRequestsThresholdRequeuePolicy.apply_policy, hnot, Bool.false_eq_true,
    if_false, at_limit_int, bind, Except.bind] at h
  by_contra hm
  rw [if_pos (decide_eq_true (by omega))] at h
  cases h

end aristote_dispatcher.policies
