-- What becomes of one delivery: a callback that goes on answers and acks it, or
-- hands it to one requeue task. It does so exactly when nothing raises on the way:
-- no percentile, no policy, and no validation of the answer.
import AristoteDispatcher.ConsumerInvariant
import AristoteDispatcher.Duplicates

open pydict pyfloat json runs
open aristote_dispatcher.settings aristote_dispatcher.messages aristote_dispatcher.histogram
open aristote_dispatcher.policies aristote_dispatcher.strategy

namespace aristote_dispatcher.rpc_server

variable {T O L U : Type} [DecidableEq T] [DecidableEq O] [DecidableEq L] [DecidableEq U]
  {cfg : Settings T O L U} {repr : Json → PyStr} {s s' : State T O L U}

/-! ## The operations of a run -/

variable [TokenField T] [OrganizationField O] [LimitField L] [UrlField U]

/-- What the consumer asks of the broker. -/
inductive Operation (T : Type := ServerToken) (O : Type := String) (L : Type := Int)
    (U : Type := String)
  | reply (message : Message) (vllm_server : Option (VLLMServer T O L U))
  | ack (message : Message)
  | republish (message : Message)
  deriving DecidableEq

/-- The operations that succeed in an event. -/
def State.operations (s : State T O L U) : Event U → List (Operation T O L U)
  | .publish i => (s.callbacks[i]?.map fun c => .reply c.message c.vllm_server).toList
  | .ack i => (s.callbacks[i]?.map fun c => .ack c.message).toList
  | .requeue_ack i => (s.requeues[i]?.map fun t => .ack t.call.message).toList
  | .requeue_publish i => (s.requeues[i]?.map fun t => .republish t.call.new_msg).toList
  | _ => []

/-- The run to their ends of the callback and of the tasks that the last step started, with
every operation a success. -/
def State.rest (s s' : State T O L U) : List (Event U) :=
  (s'.callbacks.drop s.callbacks.length).flatMap (fun _ =>
    [.publish s.callbacks.length, .ack s.callbacks.length, .resume s.callbacks.length]) ++
  (s'.requeues.drop s.requeues.length).flatMap (fun _ =>
    [.requeue_ack s.requeues.length, .requeue_publish s.requeues.length])

/-- The segment answers the message, or hands it to one task. -/
def Hands (message : Message) (segment : Segment T O L U) : Prop :=
  (∃ server llm_params, segment = ⟨[], .publishes server llm_params⟩) ∨
    ∃ call : RequeueCall, call.message = message ∧ segment = ⟨[call], .returns⟩

/-- Pydantic takes the fields of the server. -/
structure Valid (server : VLLMServer T O L U) : Prop where
  llm_url : UrlField.llm_url server.url ≠ none
  llm_token : TokenField.llm_token server.token ≠ none
  llm_organization : OrganizationField.llm_organization server.organization ≠ none
  max_parallel_requests : LimitField.max_parallel_requests server.max_parallel_requests ≠ none

omit [DecidableEq T] [DecidableEq O] [DecidableEq L] [DecidableEq U] in
theorem message_data_ne_none_iff {server : VLLMServer T O L U} {current : Nat}
    {indicator : Option PyFloat} {forwarded : Option Int} {message : Message} :
    message_data cfg server current indicator forwarded message ≠ none ↔ Valid server := by
  have hfields : Valid server ↔ UrlField.llm_url server.url ≠ none ∧
      TokenField.llm_token server.token ≠ none ∧
      OrganizationField.llm_organization server.organization ≠ none ∧
      LimitField.max_parallel_requests server.max_parallel_requests ≠ none :=
    ⟨fun h => ⟨h.1, h.2, h.3, h.4⟩, fun h => ⟨h.1, h.2.1, h.2.2.1, h.2.2.2⟩⟩
  rw [hfields]
  unfold message_data
  cases UrlField.llm_url server.url with
  | none => simp
  | some url =>
    cases TokenField.llm_token server.token with
    | none => simp
    | some token =>
      cases OrganizationField.llm_organization server.organization with
      | none => simp
      | some organization =>
        cases LimitField.max_parallel_requests server.max_parallel_requests <;> simp

/-- A request for the server is settled: the policy lets it through and the answer is valid, or
the policy starts the task of its deferral. -/
def Settles (cfg : Settings T O L U) (indicator : Option PyFloat) (current : Nat)
    (server : VLLMServer T O L U) (priority : Option UInt8) : Prop :=
  (Passes cfg indicator current server.max_parallel_requests priority ∧ Valid server) ∨
    Requeues cfg current server.max_parallel_requests priority

/-- The policy and the answer, for a configured server. -/
theorem letThrough_cases (h : Sound cfg s) {server : VLLMServer T O L U}
    (hs : server ∈ cfg.VLLM_SERVERS) {indicator : Option PyFloat}
    (ht : indicator ≠ none → cfg.TIME_TO_FIRST_TOKEN_THRESHOLD ≠ none)
    (forwarded : Option Int) (call : RequeueCall) :
    (Settles cfg indicator (s.count server) server call.message.priority ∧
      ∃ segment, letThrough cfg s.current_parallel_requests server indicator forwarded call =
        .ok segment ∧ Hands call.message segment) ∨
    (¬Settles cfg indicator (s.count server) server call.message.priority ∧
      ∃ e, e ≠ .ServerNotFound ∧
        letThrough cfg s.current_parallel_requests server indicator forwarded call =
          .error e) := by
  obtain ⟨ids, hids⟩ := h.ids hs
  have hcount : s.count server = ids.card := by simp [State.count, State.ids, Dict.get, hids]
  rw [hcount]
  unfold letThrough
  rw [hids]
  rcases apply_policy_decides cfg indicator ids.card server.max_parallel_requests call ht with
    ⟨hpasses, hp⟩ | ⟨hrequeues, hp⟩ | ⟨hpasses, hrequeues, e, hne, hp⟩
  · simp only [hp]
    have hvalid : message_data cfg server ids.card indicator forwarded call.message ≠ none ↔
        Valid server := message_data_ne_none_iff
    cases hdata : message_data cfg server ids.card indicator forwarded call.message with
    | some llm_params =>
      exact .inl ⟨.inl ⟨hpasses, hvalid.mp (by simp [hdata])⟩, _, rfl, .inl ⟨_, _, rfl⟩⟩
    | none =>
      refine .inr ⟨?_, .ValidationError, by decide, rfl⟩
      rintro (⟨_, hok⟩ | hrequeues)
      · exact hvalid.mpr hok hdata
      · exact hpasses.not_requeues hrequeues
  · simp only [hp]
    exact .inl ⟨.inr hrequeues, _, rfl, .inr ⟨call, rfl, rfl⟩⟩
  · simp only [hp]
    refine .inr ⟨?_, e, hne, rfl⟩
    rintro (⟨hok, _⟩ | hok)
    · exact hpasses hok
    · exact hrequeues hok

/-- The servers among which a private queue of that organization chooses. -/
def candidates (cfg : Settings T O L U) (organization : String) : List (VLLMServer T O L U) :=
  matching_servers cfg (.str (.ofString organization))

/-- A score that the choice on the subscription reads raises. -/
def ScoresRaise (cfg : Settings T O L U) (strategy : Strategy T O L U) : Subscription → Prop
  | .main => ChoiceRaises strategy
  | .server_queue i => ∃ organization, queue_organization cfg i = some organization ∧
      DuplicatesRaise strategy (candidates cfg organization)

/-- A private queue has servers to choose from. It has none where the organization of each is no
text, like 5, but stands as one in the name of the queue. -/
def HasCandidates (cfg : Settings T O L U) : Subscription → Prop
  | .main => True
  | .server_queue i => ∀ organization, queue_organization cfg i = some organization →
      candidates cfg organization ≠ []

/-- The server that a delivery on the subscription is routed to, and its score. -/
def chosen (cfg : Settings T O L U) (strategy : Strategy T O L U) (random : Nat) :
    Subscription → Except Exn (VLLMServer T O L U × Option PyFloat)
  | .main => (strategy.choose_server random).1
  | .server_queue i =>
    match queue_organization cfg i with
    | none => .error .KeyError
    | some organization => choose_among_duplicates strategy (candidates cfg organization) random

/-- No score raises, there is a server for a private request, and the request is settled for the
one that is chosen. -/
def SettledWhen (cfg : Settings T O L U) (s : State T O L U) (subscription : Subscription)
    (message : Message) (random : Nat) : Prop :=
  ¬ScoresRaise cfg s.strategy subscription ∧ HasCandidates cfg subscription ∧
    ∀ server indicator, chosen cfg s.strategy random subscription = .ok (server, indicator) →
      Settles cfg indicator (s.count server) server message.priority

/-- What a callback does with the message of a delivery. -/
def Handles (cfg : Settings T O L U) (s : State T O L U) (subscription : Subscription)
    (message : Message) (random : Nat) : Prop :=
  (SettledWhen cfg s subscription message random ∧
    Hands message (s.segment cfg subscription message random).1) ∨
  (¬SettledWhen cfg s subscription message random ∧
    ∃ e, (s.segment cfg subscription message random).1 = ⟨[], .raises e⟩)

theorem main_handles (h : Sound cfg s) {message : Message} (hp : Published cfg.MODEL message)
    (random : Nat) : Handles cfg s .main message random := by
  obtain ⟨p, hprio⟩ := priority_of_published hp
  obtain ⟨forwarded, hfwd⟩ := apply_priority_of_some cfg.PRIORITY_HANDLER cfg.BEST_PRIORITY p
  rw [← hprio] at hfwd
  simp only [Handles, SettledWhen, ScoresRaise, HasCandidates, true_and, chosen, State.segment,
    on_message_callback]
  rcases choose_server_cases h.strategy random with
    ⟨hraise, he⟩ | ⟨hnot, ⟨server, hs, indicator, he, ht⟩ | he⟩
  · refine .inr ⟨fun hw => hw.1 hraise, .PercentileComputationError, ?_⟩
    rw [he]
    rfl
  · rcases letThrough_cases h hs ht forwarded
        ⟨message, none, some cfg.METRICS_REFRESH_RATE⟩ with
      ⟨hok, segment, ha, hh⟩ | ⟨hd, e, hne, ha⟩
    · refine .inl ⟨⟨hnot, ?_⟩, ?_⟩
      · intro server' indicator' he'
        rw [he] at he'
        cases he'
        exact hok
      · simp only [he, route, hfwd, ha]
        exact hh
    · refine .inr ⟨fun hw => hd (hw.2 server indicator he), e, ?_⟩
      simp only [he, route, hfwd, ha]
  · refine .inl ⟨⟨hnot, ?_⟩, ?_⟩
    · intro server indicator he'
      rw [he] at he'
      cases he'
    · simp only [he, route]
      exact .inl ⟨_, _, rfl⟩

omit [DecidableEq T] [DecidableEq O] [DecidableEq L] [DecidableEq U] [TokenField T] [LimitField L]
  [UrlField U] in
/-- What the callback reads in a message of a private queue. -/
theorem read_private {organization : String} {message : Message}
    (hp : Published cfg.MODEL message)
    (hk : message.routing_key = private_queue cfg.MODEL organization) :
    ∃ data queue, readMembers message.body = .ok data ∧
      matching_servers cfg (getMember data "organization") = candidates cfg organization ∧
      target_requeue cfg (getMember data "routing_mode") = .ok queue := by
  obtain ⟨mode, hmode, hbody⟩ := body_of_private hp hk
  have hread : readMembers message.body = .ok (ofStrings (payload mode organization)) :=
    hbody ▸ readMembers_dumps _ (by simp [payload])
  have horg : getMember (ofStrings (payload mode organization)) "organization" =
      .str (PyStr.ofString organization) := getMember_ofStrings _ _
  have hget : getMember (ofStrings (payload mode organization)) "routing_mode" =
      .str (PyStr.ofString mode) := getMember_ofStrings _ _
  rcases hmode with rfl | rfl
  · exact ⟨_, some cfg.MODEL, hread, by rw [horg]; rfl,
      by simp [hget, target_requeue, isStr_ofString]⟩
  · exact ⟨_, none, hread, by rw [horg]; rfl, by simp [hget, target_requeue, isStr_ofString]⟩

theorem private_handles (h : Sound cfg s) {message : Message} (hp : Published cfg.MODEL message)
    {i : Nat} (hq : (Subscription.server_queue i).queue cfg = some message.routing_key)
    (random : Nat) : Handles cfg s (.server_queue i) message random := by
  obtain ⟨organization, horganization, hkey⟩ := Option.map_eq_some_iff.mp hq
  have hsub : ∀ server ∈ candidates cfg organization, server ∈ cfg.VLLM_SERVERS :=
    fun server hs => List.mem_of_mem_filter hs
  obtain ⟨p, hprio⟩ := priority_of_published hp
  obtain ⟨forwarded, hfwd⟩ := apply_priority_of_some cfg.PRIORITY_HANDLER cfg.BEST_PRIORITY p
  rw [← hprio] at hfwd
  obtain ⟨data, queue, hread, hservers, hqueue⟩ := read_private hp hkey.symm
  simp only [Handles, SettledWhen, ScoresRaise, HasCandidates, chosen, horganization,
    Option.some.injEq, exists_eq_left', forall_eq', State.segment, server_specific_callback,
    routePrivate, hread, hfwd, hservers, bind, Except.bind]
  by_cases hne : candidates cfg organization = []
  · refine .inr ⟨fun hw => hw.2.1 hne, .ValueError, ?_⟩
    rw [hne, choose_among_nil]
  rcases choose_among_duplicates_cases h.strategy hne hsub random with
    ⟨hr, he⟩ | ⟨hnot, server, hs, score, he, ht⟩
  · refine .inr ⟨fun hw => hw.1 hr, .PercentileComputationError, ?_⟩
    simp only [he]
  · rcases letThrough_cases h (hsub server hs) ht forwarded
        ⟨message, queue, some cfg.METRICS_REFRESH_RATE⟩ with
      ⟨hok, segment, ha, hh⟩ | ⟨hd, e, _, ha⟩
    · refine .inl ⟨⟨hnot, hne, ?_⟩, ?_⟩
      · intro server' score' he'
        rw [he] at he'
        cases he'
        exact hok
      · simp only [he, hqueue, ha]
        exact hh
    · refine .inr ⟨fun hw => hd (hw.2.2 server score he), e, ?_⟩
      simp only [he, hqueue, ha]

theorem handles (h : Sound cfg s) {subscription : Subscription} {message : Message}
    (hp : Published cfg.MODEL message)
    (hq : subscription.queue cfg = some message.routing_key) (random : Nat) :
    Handles cfg s subscription message random := by
  cases subscription with
  | main => exact main_handles h hp random
  | server_queue i => exact private_handles h hp hq random

/-! ## The law -/

end aristote_dispatcher.rpc_server
