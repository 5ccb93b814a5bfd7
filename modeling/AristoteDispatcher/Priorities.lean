-- The priority of a request from end to end: the least of two at the sender, an
-- octet of each message however often it is deferred, the inverted scale of the
-- consumer, and a member of the body that goes to the server.
import AristoteDispatcher.GivenBack
import AristoteDispatcher.PrivateRouting
import AristoteDispatcher.Rights
import AristoteDispatcher.WireFormat

open runs
open pyfloat (PyFloat)
open json (Json PyStr Prints setMember)
open aristote_dispatcher.settings aristote_dispatcher.messages aristote_dispatcher.policies
open aristote_dispatcher.rpc_server aristote_dispatcher.broker
open aristote_dispatcher.proxy (llm_params_dict LLMRequest build_request)
open aristote_dispatcher.rpc_client (octet)
open aristote_dispatcher.message_data

namespace aristote_dispatcher.priorities

variable {cfg : Settings} {s s' : State}

/-! ## At the consumer -/

theorem forwarded_of_letThrough {current : Requests} {server : VLLMServer}
    {indicator : Option pyfloat.PyFloat} {forwarded : Option Int} {call : RequeueCall}
    {segment : Segment} {chosen : Option VLLMServer} {llm_params : MessageData}
    (h : letThrough cfg current server indicator forwarded call = .ok segment)
    (hstop : segment.stop = .publishes chosen llm_params) :
    llm_params.forwarded_priority = forwarded := by
  unfold letThrough at h
  split at h
  · cases h
  · split at h
    · cases h
    · cases h
      cases hstop
    · cases h
      cases hstop
      rfl

theorem apply_priority_vllm (hvllm : cfg.PRIORITY_HANDLER = .vllm) (p : UInt8) :
    apply_priority cfg.PRIORITY_HANDLER cfg.BEST_PRIORITY (some p) =
      .ok (some (max (cfg.BEST_PRIORITY - p.toNat) 0)) := by
  rw [hvllm]
  rfl

/-- An answer with a server has the priority of its message on the inverted scale, from either
callback. -/
theorem forwarded_of_segment (hvllm : cfg.PRIORITY_HANDLER = .vllm) {m : Message} {p : UInt8}
    (hp : m.priority = some p) {subscription : Subscription} {random : Nat}
    {chosen : Option VLLMServer} {llm_params : MessageData} {url : String}
    (hstop : (s.segment cfg subscription m random).1.stop = .publishes chosen llm_params)
    (hurl : llm_params.llm_url = some url) :
    llm_params.forwarded_priority = some (max (cfg.BEST_PRIORITY - p.toNat) 0) := by
  have hpriority := apply_priority_vllm hvllm p
  cases subscription with
  | main =>
    simp only [State.segment, on_message_callback] at hstop
    split at hstop
    · rename_i hroute
      unfold route at hroute
      split at hroute
      · cases hroute
      · simp only [hp, hpriority] at hroute
        exact forwarded_of_letThrough hroute hstop
    · -- the answer that no server was found
      cases hstop
      cases hurl
    · cases hstop
  | server_queue i =>
    simp only [State.segment, server_specific_callback] at hstop
    split at hstop
    · rename_i hroute
      simp only [routePrivate, hp, hpriority, bind, Except.bind] at hroute
      split at hroute
      · cases hroute
      · split at hroute
        · cases hroute
        · split at hroute
          · cases hroute
          · exact forwarded_of_letThrough hroute hstop
    · cases hstop

/-- A callback that answers, at any of its awaits. -/
def Stands (cfg : Settings) (c : Callback) : Prop :=
  ∃ (s : State) (random : Nat), (s.segment cfg c.subscription c.message random).1.stop =
    .publishes c.vllm_server c.llm_params

theorem stands_of_suspended {subscription : Subscription} {m : Message} {random : Nat}
    {c : Callback}
    (h : c ∈ suspended subscription m (s.segment cfg subscription m random).1.stop) :
    Stands cfg c := by
  unfold suspended at h
  split at h
  · rename_i hstop
    cases List.mem_singleton.mp h
    exact ⟨s, random, hstop⟩
  · cases h

theorem stands_step {repr : Json → PyStr} {e : Event} (hs : s.step cfg repr e = some s')
    (h : ∀ c ∈ s.callbacks, Stands cfg c) : ∀ c ∈ s'.callbacks, Stands cfg c := by
  intro c hc
  rcases callback_of_step hs hc with ⟨c', hc', heq⟩ | ⟨subscription, m, random, _, hnew⟩
  · have hstands := h c' hc'
    rw [heq]
    exact hstands
  · exact stands_of_suspended hnew

/-! ## In the runs of the broker -/

/-- The answer of a callback to a copy of the request. -/
structure AnswerTo (cfg : Settings) (r : broker.Request) (n : Nat) (c : Callback) : Prop where
  copy : Copy cfg.MODEL r n c.message
  stands : Stands cfg c

/-- The callbacks and the replies are answers to copies. -/
structure Answering (cfg : Settings) (es : List SystemEvent) (l : Logged System Entry) :
    Prop where
  traced : Traced cfg es l
  callbacks : ∀ c ∈ l.state.consumer.callbacks, Stands cfg c
  replied : ∀ reply, .replied reply ∈ l.log →
    ∃ r ∈ requests es, ∃ n c, AnswerTo cfg r n c ∧ c.reply = reply

theorem callbacks_system {repr : Json → PyStr} {b b' : System} {e : SystemEvent}
    (hs : b.step cfg repr e = some b') (h : ∀ c ∈ b.consumer.callbacks, Stands cfg c) :
    ∀ c ∈ b'.consumer.callbacks, Stands cfg c := by
  cases e with
  | consumer e =>
    obtain ⟨s', hs', rfl⟩ := consumer_step hs
    exact stands_step hs' h
  | call priority organization routing_mode correlation_id reply_to =>
    obtain ⟨_, hs⟩ := Option.ite_none_right_eq_some.mp hs
    cases hs
    exact h
  | expire i =>
    obtain ⟨m, _, rfl⟩ := Option.map_eq_some_iff.mp hs
    exact h
  | stop =>
    cases hs
    exact fun c hc => (by cases hc)

theorem answering_step {repr : Json → PyStr} {es : List SystemEvent} {e : SystemEvent}
    {l l' : Logged System Entry} (h : Answering cfg es l)
    (hs : System.logged cfg repr l e = some l') : Answering cfg (es ++ [e]) l' where
  traced := traced_step h.traced hs
  callbacks := callbacks_system (logged_eq_some hs).1 h.callbacks
  replied := by
    intro reply hreply
    rw [(logged_eq_some hs).2] at hreply
    rcases List.mem_append.mp hreply with hreply | hreply
    · obtain ⟨r, hr, hanswer⟩ := h.replied reply hreply
      exact ⟨r, mem_requests_snoc.mpr (.inl hr), hanswer⟩
    · obtain ⟨c, hc, rfl⟩ := callback_of_entry hreply
      obtain ⟨r, hr, n, _, hans⟩ := h.traced.callbacks c hc
      exact ⟨r, mem_requests_snoc.mpr (.inl hr), n, c, ⟨hans.copy, h.callbacks c hc⟩, rfl⟩

/-- In every run of a consumer and its broker, a reply is the answer to a copy of a request. -/
theorem answers_of_run {repr : Json → PyStr} {es : List SystemEvent} {l : Logged System Entry}
    (h : Run (System.logged cfg repr) Any (.start (.create cfg)) es l) {reply : Reply}
    (hreply : .replied reply ∈ l.log) :
    ∃ r ∈ requests es, ∃ n c, AnswerTo cfg r n c ∧ c.reply = reply := by
  have hanswering : Answering cfg es l := h.invariant_of_events
    ⟨traced_create cfg, fun c hc => (by cases hc), fun reply hreply => (by cases hreply)⟩
    fun _ _ _ _ hi _ hs => answering_step hi hs
  exact hanswering.replied reply hreply

/-- The answer with a server forwards the priority of the call. -/
theorem forwarded_of_answer (hvllm : cfg.PRIORITY_HANDLER = .vllm) {r : broker.Request} {n : Nat}
    {c : Callback} (h : AnswerTo cfg r n c) {url : String}
    (hurl : c.llm_params.llm_url = some url) :
    c.llm_params.forwarded_priority = some (max (cfg.BEST_PRIORITY - r.priority.toNat) 0) := by
  obtain ⟨s, random, hstop⟩ := h.stands
  exact forwarded_of_segment hvllm h.copy.priority hstop hurl

/-! ## At the sender -/

theorem toNat_of_octet {priority : Int} {p : UInt8} (h : octet priority = some p) :
    (p.toNat : Int) = priority := by
  unfold rpc_client.octet at h
  split at h
  · cases h
    rw [UInt8.toNat_ofNat']
    omega
  · cases h

/-- A user and a body with priorities from 0 to 255 make a call with an int that the encoder
takes. -/
theorem octet_of_checked {env : middleware.Environment} {user : middleware.User}
    {body : ByteArray} {d : middleware.Dispatched} (h : middleware.Checked env user body d)
    (huser : 0 ≤ user.priority ∧ user.priority ≤ 255)
    (hbody : ∀ v, d.json_body.lookup (.ofString "priority") = some v →
      ∃ i, middleware.integer? v = some i ∧ 0 ≤ i ∧ i ≤ 255) :
    ∃ priority p, middleware.integer? d.arguments.priority = some priority ∧
      octet priority = some p := by
  obtain ⟨i, hi, hlow, hhigh⟩ : ∃ i, middleware.integer? (json.getOr d.json_body "priority"
      (.int user.priority)) = some i ∧ 0 ≤ i ∧ i ≤ 255 := by
    unfold json.getOr
    cases hlookup : d.json_body.lookup (.ofString "priority") with
    | none => exact ⟨user.priority, rfl, huser⟩
    | some v => exact hbody v hlookup
  obtain ⟨v, hv, hmin⟩ := middleware.least_integer hi user.priority
  cases h.priority.symm.trans hv
  refine ⟨min i user.priority, _, hmin, if_pos ?_⟩
  omega

/-- The body that goes to the server when a priority is forwarded. -/
theorem content_of_forwarded (request : proxy.Request) {llm_params : MessageData} {f : Int}
    (h : llm_params.forwarded_priority = some f) (llm_url : String) :
    (build_request request llm_params llm_url).content =
      .dumps (setMember request.json_body (.ofString "priority") (.int f)) := by
  simp [build_request, h]

/-- A handler that comes to its request has params with a url, and made the request of them. -/
theorem request_of_sending {validate : List (PyStr × Json) → Option MessageData}
    {p : proxy.Proxy} {response : rpc_client.Response} {llm_params : MessageData}
    (hread : (llm_params_dict response.body).bind validate = some llm_params)
    {id llm_url : String} {llm_request : LLMRequest}
    (h : p.answered validate response = .sending id llm_url llm_request) :
    llm_params.llm_url = some llm_url ∧
      llm_request = build_request p.request llm_params llm_url := by
  obtain ⟨members, hmembers, hvalidate⟩ := Option.bind_eq_some_iff.mp hread
  simp only [proxy.Proxy.answered, hmembers, hvalidate] at h
  split at h
  · cases h
  · rename_i hurl
    cases h
    exact ⟨hurl, rfl⟩

/-- A handler makes the request to the server of what it reads. -/
theorem answered_of_read {validate : List (PyStr × Json) → Option MessageData}
    {response : rpc_client.Response} {llm_params : MessageData}
    (hread : (llm_params_dict response.body).bind validate = some llm_params) {llm_url : String}
    (hurl : llm_params.llm_url = some llm_url) (p : proxy.Proxy) :
    p.answered validate response = .sending (response.correlation_id.getD "None") llm_url
      (build_request p.request llm_params llm_url) := by
  obtain ⟨members, hmembers, hvalidate⟩ := Option.bind_eq_some_iff.mp hread
  simp only [proxy.Proxy.answered, hmembers, hvalidate, hurl]

/-! ## From end to end -/

/-- One request from end to end, with a consumer of that best priority. It is past the checks
with an int that the encoder takes; some copy of its message is answered; and the handler makes
the request to the server of what it reads in the body that the consumer writes. -/
structure Trip (best : Int) where
  repr : Json → String
  env : middleware.Environment
  request : middleware.HTTPRequest
  dispatched : middleware.Dispatched
  called : middleware.proxy repr env request = .call dispatched
  priority : Int
  integer : middleware.integer? dispatched.arguments.priority = some priority
  encoded : UInt8
  octet : rpc_client.octet priority = some encoded
  correlation_id : String
  reply_to : String
  cfg : Settings
  model : cfg.MODEL = dispatched.arguments.model
  handler : cfg.PRIORITY_HANDLER = .vllm
  best_priority : cfg.BEST_PRIORITY = best
  deferrals : Nat
  callback : Callback
  answer : AnswerTo cfg ⟨encoded, dispatched.arguments.organization.getD "None",
    dispatched.arguments.routing_mode, correlation_id, reply_to⟩ deferrals callback
  float_repr : PyFloat → List Char
  prints : Prints float_repr
  validators : Validators
  llm_url : String
  llm_request : LLMRequest
  sending : ∃ id, proxy.Proxy.answered validators.validate
    ⟨dispatched.user.toUser, dispatched.handed request priority, .calling⟩
    ⟨some callback.reply.correlation_id, body float_repr callback.reply.llm_params⟩ =
      .sending id llm_url llm_request

variable {best : Int}

/-- The message that the call publishes is the one whose copies come to the consumer. -/
theorem Trip.published (t : Trip best) (future : rpc_client.FutureState)
    (stage : rpc_client.Stage) :
    rpc_client.Call.message? ⟨proxy.call_arguments t.dispatched.user.toUser
        (t.dispatched.handed t.request t.priority), some t.correlation_id, future, stage⟩
        t.reply_to =
      some (broker.Request.message t.cfg.MODEL ⟨t.encoded,
        t.dispatched.arguments.organization.getD "None", t.dispatched.arguments.routing_mode,
        t.correlation_id, t.reply_to⟩) := by
  obtain ⟨user, _, hdispatch⟩ := middleware.dispatch_of_call t.called
  have hchecked := middleware.checked_of_dispatch t.repr hdispatch
  rw [hchecked.user_eq, middleware.call_arguments_handed hchecked, t.model]
  simp only [rpc_client.Call.message?, t.octet, Option.bind_some, Option.map_some]
  rfl

/-- The body sent to the server has that priority. -/
def Trip.Forwards (t : Trip best) (f : Int) : Prop :=
  ∃ members, t.llm_request.content = .dumps members ∧
    members.lookup (.ofString "priority") = some (.int f)

theorem Trip.forwards (t : Trip best) : t.Forwards (max (best - t.priority) 0) := by
  obtain ⟨id, hsending⟩ := t.sending
  have hread : (llm_params_dict (rpc_client.Response.mk (some t.callback.reply.correlation_id)
      (body t.float_repr t.callback.reply.llm_params)).body).bind t.validators.validate =
      some (reread t.float_repr t.callback.reply.llm_params) := read_body t.prints t.validators _
  obtain ⟨hurl, hrequest⟩ := request_of_sending hread hsending
  -- the url and the priority are read as they were written
  have hparams : (reread t.float_repr t.callback.reply.llm_params).forwarded_priority =
      some (max (t.cfg.BEST_PRIORITY - t.encoded.toNat) 0) :=
    forwarded_of_answer t.handler t.answer hurl
  rw [t.best_priority, toNat_of_octet t.octet] at hparams
  refine ⟨setMember t.dispatched.json_body (.ofString "priority")
    (.int (max (best - t.priority) 0)), ?_, json.lookup_setMember _ _ _⟩
  rw [hrequest, content_of_forwarded _ hparams]
  rfl

/-- The priority is no more than that of the user, whatever the body says. -/
theorem Trip.priority_le (t : Trip best) :
    middleware.authorize t.env.users t.request = .ok t.dispatched.user ∧
      t.priority ≤ t.dispatched.user.priority := by
  obtain ⟨user, huser, hdispatch⟩ := middleware.dispatch_of_call t.called
  have hchecked := middleware.checked_of_dispatch t.repr hdispatch
  rw [hchecked.user_eq]
  exact ⟨huser, middleware.least_le hchecked.priority t.integer⟩

/-- A forwarded priority never escalates past that of the user, and of two requests the one with
the lower dispatch priority has the higher forwarded one. -/
theorem priorities_keep_their_order {best : Int} (t t' : Trip best) :
    middleware.authorize t.env.users t.request = .ok t.dispatched.user ∧
    ∃ f f', t.Forwards f ∧ t'.Forwards f' ∧
      max (best - t.dispatched.user.priority) 0 ≤ f ∧
      (t.priority ≤ t'.priority → f' ≤ f) := by
  obtain ⟨huser, hle⟩ := t.priority_le
  refine ⟨huser, _, _, t.forwards, t'.forwards, ?_, ?_⟩
  · exact max_le_max (by omega) le_rfl
  · intro h
    exact max_le_max (by omega) le_rfl

/-! ## A deferred request and another one -/

/-- One server of the user's organization, with the handler that inverts priorities. -/
def vllmSettings : Settings :=
  { roundRobinSettings with
    MODEL := "m"
    PRIORITY_HANDLER := .vllm
    VLLM_SERVERS := [⟨"http://a", none, "o", 1⟩]
    urls_nodup := by decide }

/-- An answer with the server, behind so many deferrals. -/
def given (requeue_count : Nat) (forwarded_priority : Int) : MessageData where
  llm_url := some "http://a"
  llm_organization := some "o"
  strategy := "round-robin"
  requeue_count := requeue_count
  max_parallel_requests := 1
  current_parallel_requests := some 0
  forwarded_priority := some forwarded_priority

/-- A private-first request of a user with priority 5, which asks for 9. -/
def nineAsked : middleware.HTTPRequest :=
  middleware.post "\x7b\"model\": \"m\", \"priority\": 9\x7d"

/-- Its message. -/
def nineCalled : broker.Request := ⟨5, "o", "private-first", "1", "reply"⟩

/-- The callback that answers it on the queue of the model, where it came by a deferral. -/
def nineAnswered : Callback where
  subscription := .main
  message := RequeueCall.new_msg ⟨nineCalled.message "m", some "m", some 1⟩
  vllm_server := some ⟨"http://a", none, "o", 1⟩
  llm_params := given 1 0
  phase := .publishing

theorem nineAnswered_answers : AnswerTo vllmSettings nineCalled 1 nineAnswered where
  copy := .deferred .call (.inr ⟨rfl, rfl⟩)
  stands := ⟨State.create vllmSettings, 0, rfl⟩

/-- The reply. -/
def nineReplied : rpc_client.Response := ⟨some "1", body halfDigits (given 1 0)⟩

def nineDispatched : middleware.Dispatched where
  user := middleware.ana
  arguments := ⟨.int 5, 3, "m", some "o", "private-first"⟩
  json_body := [(.ofString "model", .str (.ofString "m")), (.ofString "priority", .int 9)]
  stream := true

set_option maxRecDepth 10000 in
def nineTrip : Trip 5 where
  repr := fun _ => ""
  env := middleware.oneModel
  request := nineAsked
  dispatched := nineDispatched
  called := rfl
  priority := 5
  integer := rfl
  encoded := 5
  octet := rfl
  correlation_id := "1"
  reply_to := "reply"
  cfg := vllmSettings
  model := rfl
  handler := rfl
  best_priority := rfl
  deferrals := 1
  callback := nineAnswered
  answer := nineAnswered_answers
  float_repr := halfDigits
  prints := prints_halfDigits
  validators := strict
  llm_url := "http://a"
  llm_request := build_request (nineDispatched.handed nineAsked 5) (given 1 0) "http://a"
  sending := ⟨"1", answered_of_read (read_body prints_halfDigits strict (given 1 0)) rfl _⟩

/-- A request of that user for any server, which asks for 3. -/
def threeAsked : middleware.HTTPRequest :=
  middleware.post
    "\x7b\"model\": \"m\", \"priority\": 3, \"routing-mode\": \"any\"\x7d"

/-- The callback that answers it at its first delivery. -/
def threeAnswered : Callback where
  subscription := .main
  message := (broker.Request.mk 3 "o" "any" "2" "reply").message "m"
  vllm_server := some ⟨"http://a", none, "o", 1⟩
  llm_params := given 0 2
  phase := .publishing

theorem threeAnswered_answers :
    AnswerTo vllmSettings ⟨3, "o", "any", "2", "reply"⟩ 0 threeAnswered where
  copy := .call
  stands := ⟨State.create vllmSettings, 0, rfl⟩

def threeDispatched : middleware.Dispatched where
  user := middleware.ana
  arguments := ⟨.int 3, 3, "m", some "o", "any"⟩
  json_body := [(.ofString "model", .str (.ofString "m")), (.ofString "priority", .int 3),
    (.ofString "routing-mode", .str (.ofString "any"))]
  stream := true

set_option maxRecDepth 10000 in
def threeTrip : Trip 5 where
  repr := fun _ => ""
  env := middleware.oneModel
  request := threeAsked
  dispatched := threeDispatched
  called := rfl
  priority := 3
  integer := rfl
  encoded := 3
  octet := rfl
  correlation_id := "2"
  reply_to := "reply"
  cfg := vllmSettings
  model := rfl
  handler := rfl
  best_priority := rfl
  deferrals := 0
  callback := threeAnswered
  answer := threeAnswered_answers
  float_repr := halfDigits
  prints := prints_halfDigits
  validators := strict
  llm_url := "http://a"
  llm_request := build_request (threeDispatched.handed threeAsked 3) (given 0 2) "http://a"
  sending := ⟨"2", answered_of_read (read_body prints_halfDigits strict (given 0 2)) rfl _⟩

theorem a_deferred_priority_keeps_its_order :
    ∃ f f', threeTrip.Forwards f ∧ nineTrip.Forwards f' ∧
      max (5 - (5 : Int)) 0 ≤ f ∧ ((3 : Int) ≤ 5 → f' ≤ f) :=
  (priorities_keep_their_order threeTrip nineTrip).2

end aristote_dispatcher.priorities
