-- The row that the sender stores of a request (sender/main.py: `Metric(...)`), from the request of
-- the client over the runs of the consumer and its broker. It tells who asked, which server
-- answered, and how often the request was deferred before.
import AristoteDispatcher.Grants
import AristoteDispatcher.Tables

open runs
open pyfloat (PyFloat)
open json (Json PyStr Prints readFloat)
open aristote_dispatcher.settings aristote_dispatcher.messages
open aristote_dispatcher.rpc_server (Reply noRepr)
open aristote_dispatcher.broker
open aristote_dispatcher.proxy (build_request llm_params_dict)
open aristote_dispatcher.message_data aristote_dispatcher.grants
open aristote_dispatcher.migrations (Metric)

namespace aristote_dispatcher.audit

/-! ## The row -/

/-- What the clock says at the start of a request, before it goes to the server, and behind the
answer. -/
structure Dates where
  start : Int
  sent_to_llm_date : Int
  response_date : Int

/-- `Metric(...)`, and what `store_usage_metrics` sets before its insert. The database gives the
id. -/
def metric (p : proxy.Proxy) (llm_params : MessageData) (llm_url : String) (dates : Dates)
    (prompt_tokens completion_tokens : Option Int) : Metric where
  id := 0
  user_name := p.user.name
  user_organization := p.user.organization
  request_date := some dates.start
  sent_to_llm_date := some dates.sent_to_llm_date
  response_date := some dates.response_date
  model := some p.request.model
  server := some llm_url
  server_organization := llm_params.llm_organization
  prompt_tokens := prompt_tokens
  completion_tokens := completion_tokens
  strategy := some llm_params.strategy
  requeue_count := some llm_params.requeue_count
  max_parallel_requests := some llm_params.max_parallel_requests
  current_parallel_requests := llm_params.current_parallel_requests.map fun n : Nat => (n : Int)
  priority := some p.request.priority
  performance_score := llm_params.performance_score
  routing_mode := some p.request.routing_mode

/-! ## The request -/

/-- A request that is past the checks and calls for the model of that consumer. -/
structure Asked (cfg : Settings) where
  repr : Json → String
  env : middleware.Environment
  request : middleware.HTTPRequest
  dispatched : middleware.Dispatched
  called : middleware.proxy repr env request = .call dispatched
  priority : Int
  integer : middleware.integer? dispatched.arguments.priority = some priority
  encoded : UInt8
  octet : rpc_client.octet priority = some encoded
  model : cfg.MODEL = dispatched.arguments.model
  correlation_id : String
  reply_to : String

variable {cfg : Settings}

/-- Its call, as the broker gets it. -/
def Asked.call (a : Asked cfg) : broker.Request :=
  ⟨a.encoded, a.dispatched.arguments.organization.getD "None", a.dispatched.arguments.routing_mode,
    a.correlation_id, a.reply_to⟩

/-- Its handler, at the call. -/
def Asked.handler (a : Asked cfg) : proxy.Proxy :=
  ⟨a.dispatched.user.toUser, a.dispatched.handed a.request a.priority, .calling⟩

/-- It is past the checks of its user. -/
theorem Asked.checked (a : Asked cfg) :
    middleware.authorize a.env.users a.request = .ok a.dispatched.user ∧
      middleware.Checked a.env a.dispatched.user a.request.body a.dispatched := by
  obtain ⟨user, huser, hdispatch⟩ := middleware.dispatch_of_call a.called
  have hchecked := middleware.checked_of_dispatch a.repr hdispatch
  obtain rfl := hchecked.user_eq
  exact ⟨huser, hchecked⟩

/-- The call publishes the message of it. -/
theorem Asked.published (a : Asked cfg) (future : rpc_client.FutureState)
    (stage : rpc_client.Stage) :
    rpc_client.Call.message? ⟨proxy.call_arguments a.handler.user a.handler.request,
        some a.correlation_id, future, stage⟩ a.reply_to =
      some (a.call.message cfg.MODEL) := by
  rw [Asked.handler, middleware.call_arguments_handed a.checked.2, a.model]
  simp only [rpc_client.Call.message?, a.octet, Option.bind_some, Option.map_some]
  rfl

/-- A request that is not for any server comes from a user with an organization. -/
theorem Asked.organization (a : Asked cfg)
    (hmode : a.dispatched.arguments.routing_mode ≠ "any") :
    some a.call.organization = a.handler.user.organization := by
  obtain ⟨_, organizations, _, _, hamong⟩ := a.checked.2.available hmode
  have horg := a.checked.2.organization
  obtain ⟨organization, huser, _⟩ := Option.any_eq_true _ _ |>.mp hamong
  have hasked : a.call.organization = organization := by
    rw [Asked.call, horg, huser]
    rfl
  rw [hasked]
  exact huser.symm

/-! ## What the row tells -/

/-- The row of a request, of which some copy was deferred at most so often. -/
structure Tells (cfg : Settings) (a : Asked cfg) (deferrals : Nat) (row : Metric) : Prop where
  user : row.user_name = a.dispatched.user.name ∧
    row.user_organization = a.dispatched.user.organization
  priority : ∃ priority, row.priority = some priority ∧ priority ≤ a.dispatched.user.priority
  model : row.model = some cfg.MODEL
  strategy : row.strategy = some cfg.ROUTING_STRATEGY.name
  server : ∃ server ∈ cfg.VLLM_SERVERS, row.server = some server.url ∧
    row.server_organization = some server.organization ∧
    row.max_parallel_requests = some server.max_parallel_requests
  requeue_count : ∃ n : Nat, row.requeue_count = some (n : Int) ∧ n ≤ deferrals ∧
    (row.routing_mode = some "private-first" →
      row.server_organization ≠ row.user_organization → 1 ≤ n)
  private_only : row.routing_mode = some "private-only" →
    row.server_organization = row.user_organization

/-- The row of an answer to a copy, in the name of a configured server. -/
theorem tells_of_answers {a : Asked cfg} {n deferrals : Nat} {c : rpc_server.Callback}
    (hans : Answers cfg a.call n c) (hn : n ≤ deferrals) {llm_params : MessageData}
    {server : VLLMServer} (hs : server ∈ cfg.VLLM_SERVERS) (hd : Describes cfg server llm_params)
    (hcount : llm_params.requeue_count = c.llm_params.requeue_count)
    (horg : llm_params.llm_organization = c.llm_params.llm_organization) (dates : Dates)
    (prompt_tokens completion_tokens : Option Int) :
    Tells cfg a deferrals
      (metric a.handler llm_params server.url dates prompt_tokens completion_tokens) := by
  have hown : a.dispatched.arguments.routing_mode ≠ "any" →
      llm_params.llm_organization = a.handler.user.organization ∨
        c.message.routing_key = cfg.MODEL := by
    intro hany
    rcases hans.organization with hmain | hsame
    · exact .inr hmain
    · exact .inl (horg.trans (hsame.trans (a.organization hany)))
  have hcounted : llm_params.requeue_count = n := hcount.trans hans.requeue_count
  refine ⟨⟨rfl, rfl⟩, ⟨a.priority, rfl, middleware.least_le a.checked.2.priority a.integer⟩,
    congrArg some a.model.symm, congrArg some hd.strategy,
    ⟨server, hs, rfl, hd.llm_organization, congrArg some hd.max_parallel_requests⟩,
    ⟨n, congrArg some hcounted, hn, fun hmode hne => ?_⟩, fun hmode => ?_⟩
  · have hfirst : a.call.routing_mode = "private-first" := Option.some.inj hmode
    have hany : a.dispatched.arguments.routing_mode ≠ "any" := by
      rw [show a.dispatched.arguments.routing_mode = "private-first" from hfirst]
      decide
    exact hans.copy.deferred_of_main hfirst ((hown hany).resolve_left hne)
  · have honly : a.call.routing_mode = "private-only" := Option.some.inj hmode
    have hany : a.dispatched.arguments.routing_mode ≠ "any" := by
      rw [show a.dispatched.arguments.routing_mode = "private-only" from honly]
      decide
    exact (hown hany).resolve_right (hans.copy.not_main honly)

/-- In every run of a consumer and its broker, whatever else is called, fails or restarts: when the
handler of a request makes the request to the server of a reply to its call, the row that it
stores tells who asked, which configured server answered, and that the request was deferred so
often, or more often where copies were lost. In a run without failures or expiry the count is
that of all its deferrals. -/
theorem the_row_tells_what_happened {repr : Json → PyStr} {es : List SystemEvent}
    {l : Logged System Entry} (h : Run (System.logged cfg repr) Any (.start (.create cfg)) es l)
    {float_repr : PyFloat → List Char} (hprints : Prints float_repr) (v : Validators)
    (a : Asked cfg) (hcall : a.call ∈ requests es) {reply : Reply}
    (hreply : .replied reply ∈ l.log) (hid : reply.correlation_id = a.correlation_id)
    {id llm_url : String} {req : proxy.LLMRequest}
    (hsending : a.handler.answered v.validate
      ⟨some reply.correlation_id, body float_repr reply.llm_params⟩ = .sending id llm_url req)
    (dates : Dates) (prompt_tokens completion_tokens : Option Int) :
    Tells cfg a (deferrals l.log a.correlation_id)
      (metric a.handler (reread float_repr reply.llm_params) llm_url dates prompt_tokens
        completion_tokens) ∧
    (Run (System.logged cfg repr) (fun _ e => Undisturbed e) (.start (.create cfg)) es l →
      reply.llm_params.requeue_count = deferrals l.log a.correlation_id) := by
  have hread : (llm_params_dict (rpc_client.Response.mk (some reply.correlation_id)
      (body float_repr reply.llm_params)).body).bind v.validate =
      some (reread float_repr reply.llm_params) := read_body hprints v reply.llm_params
  obtain ⟨hurl, _⟩ := priorities.request_of_sending hread hsending
  have htraced := traced_run h
  obtain ⟨r, hr, n, hn, c, hans, rfl⟩ := htraced.replied reply hreply
  obtain rfl := htraced.eq_of_id hr hcall (hans.copy.id.symm.trans hid)
  refine ⟨?_, fun hundisturbed => ?_⟩
  · rcases granted_reread (granted_of_run h hreply) float_repr with ⟨server, hs, hd⟩ | hnone
    · obtain rfl : server.url = llm_url := Option.some.inj (hd.llm_url.symm.trans hurl)
      exact tells_of_answers hans hn hs hd rfl rfl dates prompt_tokens completion_tokens
    · cases hnone.symm.trans hurl
  · have hwhole : Whole cfg es l := hundisturbed.invariant_of_events (whole_create cfg)
      fun _ _ _ _ hi hok hs => whole_step hi hok hs
    exact hwhole.replied _ _ (mem_repliesTo.mpr ⟨hreply, hid⟩)

/-! ## A request that leaves its organization -/

/-- One server of the user's organization and one of another, for one request each. -/
def twoOwners : Settings :=
  { priorities.vllmSettings with
    BEST_PRIORITY := 9
    VLLM_SERVERS := [⟨"http://a", none, "o", 1⟩, ⟨"http://b", none, "other", 1⟩]
    urls_nodup := by decide }

/-- The private-first request of a user. -/
def nineAsked : Asked twoOwners where
  repr := priorities.nineTrip.repr
  env := priorities.nineTrip.env
  request := priorities.nineTrip.request
  dispatched := priorities.nineTrip.dispatched
  called := priorities.nineTrip.called
  priority := priorities.nineTrip.priority
  integer := priorities.nineTrip.integer
  encoded := priorities.nineTrip.encoded
  octet := priorities.nineTrip.octet
  model := rfl
  correlation_id := "1"
  reply_to := "reply"

/-- Another request has the server of the organization. Ours is deferred there, deferred once more
on the queue of the model, and answered with the other server. -/
def answeredElsewhere : List SystemEvent :=
  let call (id : String) := call_message 5 "m" "o" "private-first" id "reply"
  let copy := RequeueCall.new_msg ⟨call "1", some "m", some 1⟩
  [.call 5 "o" "private-first" "0" "reply", .call 5 "o" "private-first" "1" "reply",
    .consumer (.deliver (.server_queue 0) (call "0") 0), .consumer (.publish 0),
    .consumer (.ack 0), .consumer (.resume 0),
    .consumer (.deliver (.server_queue 0) (call "1") 0), .consumer (.requeue_ack 0),
    .consumer (.requeue_publish 0), .consumer (.deliver .main copy 0),
    .consumer (.requeue_ack 0), .consumer (.requeue_publish 0),
    .consumer (.deliver .main (RequeueCall.new_msg ⟨copy, none, some 1⟩) 0),
    .consumer (.publish 0)]

theorem the_row_of_a_request_that_leaves_its_organization : ∃ l reply req,
    Run (System.logged twoOwners noRepr) Any (.start (.create twoOwners)) answeredElsewhere l ∧
    .replied reply ∈ l.log ∧
    nineAsked.handler.answered strict.validate
      ⟨some reply.correlation_id, body halfDigits reply.llm_params⟩ = .sending "1" "http://b" req ∧
    Tells twoOwners nineAsked (deferrals l.log "1")
      (metric nineAsked.handler (reread halfDigits reply.llm_params) "http://b" ⟨1, 2, 3⟩ (some 7)
        (some 5)) ∧
    reply.llm_params.requeue_count = 2 := by
  have hexec : ((exec (System.logged twoOwners noRepr) (.start (.create twoOwners))
      answeredElsewhere).bind fun l => (repliesTo l.log "1").head?.map fun reply =>
        (reply.llm_params.requeue_count, reply.llm_params.llm_url)) =
      some (2, some "http://b") := by
    decide +kernel
  obtain ⟨l, hl, hreplies⟩ := Option.bind_eq_some_iff.mp hexec
  obtain ⟨reply, hhead, hpair⟩ := Option.map_eq_some_iff.mp hreplies
  obtain ⟨hcount, hurl⟩ := Prod.mk.inj hpair
  obtain ⟨hreply, hid⟩ := mem_repliesTo.mp (List.mem_of_head? hhead)
  have hrun := run_of_exec hl
  have hread : (llm_params_dict (rpc_client.Response.mk (some reply.correlation_id)
      (body halfDigits reply.llm_params)).body).bind strict.validate =
      some (reread halfDigits reply.llm_params) := read_body prints_halfDigits strict _
  have hsending : nineAsked.handler.answered strict.validate
      ⟨some reply.correlation_id, body halfDigits reply.llm_params⟩ =
      .sending "1" "http://b" (build_request nineAsked.handler.request
        (reread halfDigits reply.llm_params) "http://b") := by
    rw [priorities.answered_of_read hread hurl, Option.getD_some, hid]
  have hcall : nineAsked.call ∈ requests answeredElsewhere := .tail _ (.head _)
  exact ⟨l, reply, _, hrun, hreply, hsending, (the_row_tells_what_happened hrun prints_halfDigits
    strict nineAsked hcall hreply hid hsending ⟨1, 2, 3⟩ (some 7) (some 5)).1, hcount⟩

end aristote_dispatcher.audit
