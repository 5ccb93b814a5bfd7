-- The threshold of a user (sender/rpc_client.py: `RPCClient.call`). The call counts the
-- messages of the model queue whatever the routing mode, and publishes to the private queue of
-- the organization for the private modes.
import AristoteDispatcher.ClientInvariant

open pydict runs
open aristote_dispatcher.messages

namespace aristote_dispatcher.rpc_client

/-- The queue that the call publishes to. -/
def Arguments.used_queue (arguments : Arguments) : String :=
  if arguments.routing_mode = "any" then arguments.model
  else private_queue arguments.model arguments.organization

/-- The first await of a call, with the ready messages of each queue of the broker. It raises
for a queue that does not exist. -/
def RPCClient.check (self : RPCClient) (ready : String → Option Nat) (i : Nat) (call : Call)
    (correlation_id : String) : Option RPCClient :=
  match ready call.arguments.model with
  | some message_count => self.step (.queue_found i message_count correlation_id)
  | none => self.step (.queue_raises i)

/-- The call publishes: it comes to its publish with an entry in `futures`, and the publish
sends its message to the queue. -/
def Publishes (c c' : RPCClient) (i : Nat) (queue correlation_id : String) : Prop :=
  c'.futures = c.futures.insert correlation_id i ∧ c'.sent = c.sent ∧
    ∃ call, c'.calls[i]? = some call ∧ call.stage = .publish ∧
      ∀ message, call.message? c'.callback_queue = some message →
        message.routing_key = queue ∧ message.correlation_id = some correlation_id ∧
        ∃ c'', c'.step (.published i) = some c'' ∧ c''.sent = c'.sent ++ [message]

/-- The call returns QUEUE_OVERLOADED. It published nothing and never does, and `futures` is as
before. -/
def Refuses (c c' : RPCClient) (i : Nat) : Prop :=
  c'.futures = c.futures ∧ c'.sent = c.sent ∧
    ∀ es c'', Run RPCClient.step Any c' es c'' → .published i ∉ es ∧
      ∃ call, c''.calls[i]? = some call ∧ call.stage = .ended .QUEUE_OVERLOADED

/-- The threshold is enforced on the queue that the call uses. -/
def Enforced (c : RPCClient) (ready : String → Option Nat) (i : Nat) (call : Call)
    (correlation_id : String) : Prop :=
  ∀ count, ready call.arguments.used_queue = some count →
    ∃ c', c.check ready i call correlation_id = some c' ∧
      (count ≤ call.arguments.threshold →
        Publishes c c' i call.arguments.used_queue correlation_id) ∧
      (call.arguments.threshold < count → Refuses c c' i)

variable {c c' : RPCClient} {i : Nat} {call : Call} {ready : String → Option Nat} {id : String}

theorem message?_routing_key {callback_queue : String} {message : Message}
    (h : call.message? callback_queue = some message) :
    message.routing_key = call.arguments.used_queue ∧
      message.correlation_id = call.correlation_id := by
  unfold Call.message? at h
  obtain ⟨priority, _, h⟩ := Option.bind_eq_some_iff.mp h
  obtain ⟨id, hid, rfl⟩ := Option.map_eq_some_iff.mp h
  exact ⟨rfl, hid.symm⟩

/-! ## What a check comes to -/

/-- A call that ended as overloaded stays so, and publishes nothing. -/
theorem overloaded_run (hsound : Sound c') (hcall : c'.calls[i]? = some call)
    (hstage : call.stage = .ended .QUEUE_OVERLOADED) {es : List Event} {c'' : RPCClient}
    (h : Run RPCClient.step Any c' es c'') :
    .published i ∉ es ∧ Sound c'' ∧
      ∃ call, c''.calls[i]? = some call ∧ call.stage = .ended .QUEUE_OVERLOADED := by
  induction h with
  | nil => exact ⟨List.not_mem_nil, hsound, call, hcall, hstage⟩
  | @snoc es s e s' hrun _ hs ih =>
    obtain ⟨hnot, hsnd, call', hcall', hstage'⟩ := ih
    obtain ⟨call'', hcall'', hsame⟩ := sameCall_step hsnd hs hcall'
    refine ⟨?_, sound_step hsnd hs, call'', hcall'', hsame.ended _ hstage'⟩
    rw [List.mem_append, List.mem_singleton]
    rintro (hmem | rfl)
    · exact hnot hmem
    · -- a publish is a step of a call that stands at it
      simp [RPCClient.step, hcall', hstage'] at hs

theorem check_found {count : Nat} (hcall : c.calls[i]? = some call)
    (hstage : call.stage = .get_queue)
    (hnew : ∀ other ∈ c.calls, other.correlation_id ≠ some id)
    (hready : ready call.arguments.model = some count) :
    c.check ready i call id = some (c.queue_found i call count id) := by
  unfold RPCClient.check
  simp only [hready, RPCClient.step, hcall, Option.bind_some]
  exact if_pos ⟨hstage, hnew⟩

theorem check_raises (hcall : c.calls[i]? = some call) (hstage : call.stage = .get_queue)
    (hready : ready call.arguments.model = none) :
    c.check ready i call id = some (c.update i { call with stage := .ended .raised }) := by
  unfold RPCClient.check
  simp only [hready, RPCClient.step, hcall, Option.bind_some]
  exact if_pos hstage

theorem publishes_queue_found {count : Nat} (hcall : c.calls[i]? = some call)
    (hle : count ≤ call.arguments.threshold) :
    Publishes c (c.queue_found i call count id) i call.arguments.used_queue id := by
  have hplace (call' : Call) : (c.update i call').calls[i]? = some call' :=
    getElem?_update_self hcall
  rw [RPCClient.queue_found, if_neg (not_lt.mpr hle)]
  refine ⟨rfl, rfl, _, hplace _, rfl, ?_⟩
  intro message hmessage
  obtain ⟨hkey, hid⟩ := message?_routing_key hmessage
  refine ⟨hkey, hid, ?_⟩
  rw [RPCClient.step, hplace, Option.bind_some, if_pos rfl, hmessage]
  exact ⟨_, rfl, rfl⟩

theorem refuses_queue_found {count : Nat} (hsound : Sound c) (hcall : c.calls[i]? = some call)
    (hstage : call.stage = .get_queue)
    (hnew : ∀ other ∈ c.calls, other.correlation_id ≠ some id)
    (hlt : call.arguments.threshold < count) :
    Refuses c (c.queue_found i call count id) i := by
  have hstep : c.step (.queue_found i count id) = some (c.queue_found i call count id) := by
    rw [RPCClient.step, hcall, Option.bind_some]
    exact if_pos ⟨hstage, hnew⟩
  have hsound' := sound_step hsound hstep
  rw [RPCClient.queue_found, if_pos hlt] at hsound' ⊢
  refine ⟨rfl, rfl, ?_⟩
  intro es c'' hrun
  obtain ⟨hnot, _, hended⟩ := overloaded_run hsound' (getElem?_update_self hcall) rfl hrun
  exact ⟨hnot, hended⟩

/-- The stage of the call behind a check tells on which side of the threshold its model queue
was. -/
theorem stage_queue_found (count : Nat) (id : String) (hcall : c.calls[i]? = some call) :
    ∃ call', (c.queue_found i call count id).calls[i]? = some call' ∧
      (call'.stage = .publish ↔ count ≤ call.arguments.threshold) ∧
      (call'.stage = .ended .QUEUE_OVERLOADED ↔ call.arguments.threshold < count) := by
  unfold RPCClient.queue_found
  split
  · rename_i hlt
    refine ⟨_, getElem?_update_self hcall, ?_, iff_of_true rfl hlt⟩
    exact iff_of_false (by simp) (not_le.mpr hlt)
  · rename_i hle
    refine ⟨_, getElem?_update_self hcall, iff_of_true rfl (not_lt.mp hle), ?_⟩
    exact iff_of_false (by simp) hle

theorem Publishes.stage {queue : String} {call' : Call} (h : Publishes c c' i queue id)
    (hcall' : c'.calls[i]? = some call') : call'.stage = .publish := by
  obtain ⟨_, _, call, hcall, hstage, _⟩ := h
  rw [hcall'] at hcall
  cases hcall
  exact hstage

theorem Refuses.stage {call' : Call} (h : Refuses c c' i) (hcall' : c'.calls[i]? = some call') :
    call'.stage = .ended .QUEUE_OVERLOADED := by
  obtain ⟨_, call, hcall, hstage⟩ := h.2.2 [] c' .nil
  rw [hcall'] at hcall
  cases hcall
  exact hstage

/-! ## The threshold -/

/-- Both queues are on the same side of the threshold, when the private queue exists. -/
def SameSide (ready : String → Option Nat) (arguments : Arguments) : Prop :=
  ∀ count, ready (private_queue arguments.model arguments.organization) = some count →
    ∃ model_count, ready arguments.model = some model_count ∧
      (model_count ≤ arguments.threshold ↔ count ≤ arguments.threshold)

/-- A check of a model queue on the same side of the threshold as the queue that is used. -/
theorem enforced_of_model_count (hsound : Sound c) (hcall : c.calls[i]? = some call)
    (hstage : call.stage = .get_queue)
    (hnew : ∀ other ∈ c.calls, other.correlation_id ≠ some id)
    (hside : ∀ count, ready call.arguments.used_queue = some count →
      ∃ model_count, ready call.arguments.model = some model_count ∧
        (model_count ≤ call.arguments.threshold ↔ count ≤ call.arguments.threshold)) :
    Enforced c ready i call id := by
  intro count hcount
  obtain ⟨model_count, hmodel, hiff⟩ := hside count hcount
  refine ⟨_, check_found hcall hstage hnew hmodel, ?_, ?_⟩
  · intro hle
    exact publishes_queue_found hcall (hiff.mpr hle)
  · intro hlt
    have hmlt : call.arguments.threshold < model_count := by
      rw [← not_le] at hlt ⊢
      exact fun hle => hlt (hiff.mp hle)
    exact refuses_queue_found hsound hcall hstage hnew hmlt

theorem sameSide_of_enforced (hcall : c.calls[i]? = some call)
    (hstage : call.stage = .get_queue)
    (hnew : ∀ other ∈ c.calls, other.correlation_id ≠ some id)
    (hmode : call.arguments.routing_mode ≠ "any") (h : Enforced c ready i call id) :
    SameSide ready call.arguments := by
  have hused : call.arguments.used_queue =
      private_queue call.arguments.model call.arguments.organization := if_neg hmode
  intro count hcount
  obtain ⟨c', hcheck, hpub, hrefuse⟩ := h count (by rw [hused]; exact hcount)
  cases hmodel : ready call.arguments.model with
  | none =>
    rw [check_raises hcall hstage hmodel] at hcheck
    cases hcheck
    have hplace (call' : Call) : (c.update i call').calls[i]? = some call' :=
      getElem?_update_self hcall
    rcases le_or_gt (count : Int) call.arguments.threshold with hle | hlt
    · cases (hpub hle).stage (hplace _)
    · cases (hrefuse hlt).stage (hplace _)
  | some model_count =>
    rw [check_found hcall hstage hnew hmodel] at hcheck
    cases hcheck
    obtain ⟨call', hplace, hpublish, hover⟩ := stage_queue_found model_count id hcall
    refine ⟨model_count, rfl, ?_⟩
    rcases le_or_gt (count : Int) call.arguments.threshold with hle | hlt
    · exact iff_of_true (hpublish.mp ((hpub hle).stage hplace)) hle
    · exact iff_of_false (not_le.mpr (hover.mp ((hrefuse hlt).stage hplace))) (not_le.mpr hlt)

/-- In every run of a client, the check of a call enforces its threshold on the queue that the
call uses exactly when this is the model queue, or both queues are on the same side of it. -/
theorem the_threshold_is_enforced_iff_the_queues_agree (callback_queue : String)
    {es : List Event} {c : RPCClient} {i : Nat} {call : Call} (ready : String → Option Nat)
    {id : String} (h : Run RPCClient.step Any (.create callback_queue) es c)
    (hcall : c.calls[i]? = some call) (hstage : call.stage = .get_queue)
    (hnew : ∀ other ∈ c.calls, other.correlation_id ≠ some id) :
    Enforced c ready i call id ↔
      call.arguments.routing_mode = "any" ∨ SameSide ready call.arguments := by
  constructor
  · intro henforced
    by_cases hmode : call.arguments.routing_mode = "any"
    · exact .inl hmode
    · exact .inr (sameSide_of_enforced hcall hstage hnew hmode henforced)
  · intro hor
    refine enforced_of_model_count (sound_run h) hcall hstage hnew ?_
    intro count hcount
    by_cases hmode : call.arguments.routing_mode = "any"
    · rw [Arguments.used_queue, if_pos hmode] at hcount
      exact ⟨count, hcount, Iff.rfl⟩
    · rw [Arguments.used_queue, if_neg hmode] at hcount
      exact hor.resolve_left hmode count hcount

/-- A call of a user who may have ten requests in the queue. -/
def tenAtMost (routing_mode : String) : Call where
  arguments := ⟨0, 10, "model", "org", routing_mode⟩
  correlation_id := none
  future := .pending
  stage := .get_queue

/-- No request waits for the model, and eleven wait in the private queue. -/
def fullPrivateQueue (queue : String) : Option Nat :=
  if queue = "model" then some 0
  else if queue = private_queue "model" "org" then some 11 else none

theorem run_tenAtMost (routing_mode : String) :
    Run RPCClient.step Any (.create "reply") [.start (tenAtMost routing_mode).arguments]
      ⟨"reply", ∅, [tenAtMost routing_mode], []⟩ :=
  run_of_exec rfl

theorem the_threshold_of_a_common_call_is_enforced :
    Enforced ⟨"reply", ∅, [tenAtMost "any"], []⟩ fullPrivateQueue 0 (tenAtMost "any") "1" :=
  (the_threshold_is_enforced_iff_the_queues_agree "reply" fullPrivateQueue (run_tenAtMost "any")
    rfl rfl (by simp [tenAtMost])).mpr (.inl rfl)

/-- A private call is published to a full queue. -/
theorem a_full_private_queue_takes_another_request :
    ¬ ∀ (callback_queue : String) (es : List Event) (c : RPCClient) (i : Nat) (call : Call)
      (ready : String → Option Nat) (id : String),
      Run RPCClient.step Any (.create callback_queue) es c → c.calls[i]? = some call →
      call.stage = .get_queue → (∀ other ∈ c.calls, other.correlation_id ≠ some id) →
      Enforced c ready i call id := by
  intro hall
  have h := hall "reply" _ _ 0 (tenAtMost "private-only") fullPrivateQueue "1"
    (run_tenAtMost "private-only") rfl rfl (by simp [tenAtMost])
  have hprivate : fullPrivateQueue (private_queue "model" "org") = some 11 := by
    rw [fullPrivateQueue, if_neg (private_queue_ne _ _), if_pos rfl]
  obtain ⟨model_count, hmodel, hiff⟩ :=
    sameSide_of_enforced rfl rfl (by simp [tenAtMost]) (by decide) h 11 hprivate
  cases hmodel
  exact absurd (hiff.mp (by decide)) (by decide)

end aristote_dispatcher.rpc_client
