-- What an answer grants: the params of one configured server, or none. So the request that the
-- sender makes of it goes to that server with its own token, and with no other header of the
-- client than the type of the content.
import AristoteDispatcher.LiveCopies
import AristoteDispatcher.Priorities

open runs
open pyfloat (PyFloat)
open json (Json PyStr Prints)
open aristote_dispatcher.settings aristote_dispatcher.messages aristote_dispatcher.strategy
open aristote_dispatcher.rpc_server aristote_dispatcher.broker
open aristote_dispatcher.proxy (LLMRequest build_request llm_params_dict)
open aristote_dispatcher.message_data

namespace aristote_dispatcher.grants

variable {cfg : Settings} {repr : Json → PyStr} {s s' : State} {es : List SystemEvent}

/-! ## At the consumer -/

/-- The params that name a server. -/
structure Describes (cfg : Settings) (server : VLLMServer) (m : MessageData) : Prop where
  llm_url : m.llm_url = some server.url
  llm_token : m.llm_token = server.token
  llm_organization : m.llm_organization = some server.organization
  strategy : m.strategy = cfg.ROUTING_STRATEGY.name
  max_parallel_requests : m.max_parallel_requests = server.max_parallel_requests

/-- The params grant a configured server, or none. -/
def Granted (cfg : Settings) (m : MessageData) : Prop :=
  (∃ server ∈ cfg.VLLM_SERVERS, Describes cfg server m) ∨ m.llm_url = none

/-- They grant the server that was chosen. -/
def GrantedTo (cfg : Settings) (chosen : Option VLLMServer) (m : MessageData) : Prop :=
  (∃ server ∈ cfg.VLLM_SERVERS, chosen = some server ∧ Describes cfg server m) ∨
    chosen = none ∧ m.llm_url = none

theorem GrantedTo.granted {chosen : Option VLLMServer} {m : MessageData}
    (h : GrantedTo cfg chosen m) : Granted cfg m :=
  h.imp (fun ⟨server, hs, _, hd⟩ => ⟨server, hs, hd⟩) And.right

theorem granted_of_letThrough {current : Requests} {server : VLLMServer}
    {indicator : Option PyFloat} {forwarded : Option Int} {call : RequeueCall} {segment : Segment}
    {chosen : Option VLLMServer} {llm_params : MessageData} (hs : server ∈ cfg.VLLM_SERVERS)
    (h : letThrough cfg current server indicator forwarded call = .ok segment)
    (hstop : segment.stop = .publishes chosen llm_params) : GrantedTo cfg chosen llm_params := by
  unfold letThrough at h
  split at h
  · cases h
  · split at h
    · cases h
    · cases h
      cases hstop
    · cases h
      cases hstop
      exact .inl ⟨server, hs, rfl, rfl, rfl, rfl, rfl, rfl⟩

/-- From either queue, a sound strategy makes an answer that grants the server it chose, or
none. -/
theorem granted_of_segment (h : StrategySound cfg s.strategy) {subscription : Subscription}
    {m : Message} {random : Nat} {chosen : Option VLLMServer} {llm_params : MessageData}
    (hstop : (s.segment cfg subscription m random).1.stop = .publishes chosen llm_params) :
    GrantedTo cfg chosen llm_params := by
  cases subscription with
  | main =>
    simp only [State.segment, on_message_callback] at hstop
    split at hstop
    · rename_i hroute
      unfold route at hroute
      split at hroute
      · cases hroute
      · rename_i server indicator hchosen
        have hs : server ∈ cfg.VLLM_SERVERS := by
          rcases choose_server_cases h random with
            ⟨_, herror⟩ | ⟨_, ⟨own, hown, _, heq, _⟩ | herror⟩
          · cases hchosen.symm.trans herror
          · cases hchosen.symm.trans heq
            exact hown
          · cases hchosen.symm.trans herror
        split at hroute
        · cases hroute
        · exact granted_of_letThrough hs hroute hstop
    · -- the answer that no server was found
      cases hstop
      exact .inr ⟨rfl, rfl⟩
    · cases hstop
  | server_queue i =>
    simp only [State.segment, server_specific_callback] at hstop
    split at hstop
    · rename_i hroute
      simp only [routePrivate, bind, Except.bind] at hroute
      split at hroute
      · cases hroute
      · split at hroute
        · cases hroute
        · split at hroute
          · cases hroute
          · rename_i hchosen
            split at hroute
            · cases hroute
            · have hmem := mem_of_choose_among_duplicates hchosen
              exact granted_of_letThrough (List.mem_of_mem_filter hmem) hroute hstop
    · cases hstop

/-- The strategy of a reachable consumer is sound, and each of its answers grants the server that
it chose, or none. -/
structure Grants (cfg : Settings) (s : State) : Prop where
  sound : Sound cfg s
  callbacks : ∀ c ∈ s.callbacks, GrantedTo cfg c.vllm_server c.llm_params

theorem grants_create (cfg : Settings) : Grants cfg (.create cfg) :=
  ⟨sound_create cfg, fun c hc => (by cases hc)⟩

theorem grants_step {e : rpc_server.Event} (h : Grants cfg s) (hs : s.step cfg repr e = some s') :
    Grants cfg s' := by
  refine ⟨sound_step h.sound hs, fun c hc => ?_⟩
  rcases callback_of_step hs hc with ⟨c', hc', heq⟩ | ⟨subscription, m, random, _, hnew⟩
  · rw [heq]
    exact h.callbacks c' hc'
  · unfold suspended at hnew
    split at hnew
    · rename_i hstop
      cases List.mem_singleton.mp hnew
      exact granted_of_segment h.sound.strategy hstop
    · cases hnew

/-! ## In the runs of the broker -/

theorem grants_system {b b' : System} {e : SystemEvent} (h : Grants cfg b.consumer)
    (hs : b.step cfg repr e = some b') : Grants cfg b'.consumer := by
  cases e with
  | consumer e =>
    obtain ⟨s', hs', rfl⟩ := consumer_step hs
    exact grants_step h hs'
  | call priority organization routing_mode correlation_id reply_to =>
    obtain ⟨_, hs⟩ := Option.ite_none_right_eq_some.mp hs
    cases hs
    exact h
  | expire i =>
    obtain ⟨m, _, rfl⟩ := Option.map_eq_some_iff.mp hs
    exact h
  | stop =>
    cases hs
    exact grants_create cfg

theorem granted_of_entry {b : System} (h : Grants cfg b.consumer) {e : SystemEvent}
    {entry : Entry} (hentry : entry ∈ b.entries cfg e) {reply : Reply}
    (hreply : entry = .replied reply) : Granted cfg reply.llm_params := by
  subst hreply
  obtain ⟨c, hc, rfl⟩ := callback_of_entry hentry
  exact (h.callbacks c hc).granted

/-- In every run of a consumer and its broker. -/
theorem granted_of_run {l : Logged System Entry}
    (h : Run (System.logged cfg repr) Any (.start (.create cfg)) es l) {reply : Reply}
    (hreply : .replied reply ∈ l.log) : Granted cfg reply.llm_params := by
  have hgrants : ∀ {es b}, Run (System.step cfg repr) Any (.create cfg) es b →
      Grants cfg b.consumer := fun hrun =>
    hrun.invariant (I := fun b => Grants cfg b.consumer) (grants_create cfg)
      fun _ _ _ hi _ hs => grants_system hi hs
  have hlog : ∀ entry ∈ l.log, ∀ reply, entry = .replied reply →
      Granted cfg reply.llm_params := by
    have hany : Run (System.logged cfg repr) (fun l e => Any l.state e) (.start (.create cfg))
        es l := h.any
    refine Run.log_forall (fun es b e b' hrun _ _ entry hentry reply => ?_) hany
    exact granted_of_entry (hgrants hrun) hentry
  exact hlog _ hreply reply rfl

/-! ## At the sender -/

theorem granted_reread {m : MessageData} (h : Granted cfg m)
    (float_repr : PyFloat → List Char) : Granted cfg (reread float_repr m) := by
  rcases h with ⟨server, hs, hd⟩ | hurl
  · exact .inl ⟨server, hs, hd.llm_url, hd.llm_token, hd.llm_organization, hd.strategy,
      hd.max_parallel_requests⟩
  · exact .inr hurl

/-- The headers of the request to a server. -/
def HasHeaders (content_type : Option String) (server : VLLMServer) (req : LLMRequest) : Prop :=
  ∀ name value, (name, value) ∈ req.headers ↔
    (name = "Content-Type" ∧ value = content_type.getD "application/json") ∨
    (name = "Authorization" ∧ ∃ token, server.token = some token ∧ token ≠ "" ∧
      value = "Bearer " ++ token)

theorem hasHeaders_build_request {server : VLLMServer} {m : MessageData}
    (h : m.llm_token = server.token) (request : proxy.Request) (llm_url : String) :
    HasHeaders request.content_type server (build_request request m llm_url) := by
  intro name value
  simp only [build_request, h, List.mem_cons, Prod.mk.injEq]
  refine or_congr Iff.rfl ?_
  cases server.token with
  | none => exact iff_of_false (by simp) (by simp)
  | some token =>
    dsimp only
    split
    · rename_i hempty
      refine iff_of_false (by simp) ?_
      rintro ⟨_, token', heq, hne, _⟩
      cases heq
      exact hne hempty
    · rename_i hne
      simp [hne]

/-- In every run of a consumer and its broker, whatever reply a handler gets: the request that it
makes goes to one configured server, with the token of that server if it has one, and with no
other header than the type of the content. -/
theorem a_token_goes_to_its_server {l : Logged System Entry}
    (h : Run (System.logged cfg repr) Any (.start (.create cfg)) es l)
    {float_repr : PyFloat → List Char} (hprints : Prints float_repr) (v : Validators)
    {reply : Reply} (hreply : .replied reply ∈ l.log) (p : proxy.Proxy)
    {id llm_url : String} {req : LLMRequest}
    (hsending : p.answered v.validate
      ⟨some reply.correlation_id, body float_repr reply.llm_params⟩ = .sending id llm_url req) :
    ∃ server ∈ cfg.VLLM_SERVERS, req.base_url = server.url ∧
      HasHeaders p.request.content_type server req ∧
      ∀ other ∈ cfg.VLLM_SERVERS, other.url = req.base_url → other = server := by
  have hread : (llm_params_dict (rpc_client.Response.mk (some reply.correlation_id)
      (body float_repr reply.llm_params)).body).bind v.validate =
      some (reread float_repr reply.llm_params) := read_body hprints v reply.llm_params
  obtain ⟨hurl, rfl⟩ := priorities.request_of_sending hread hsending
  rcases granted_reread (granted_of_run h hreply) float_repr with ⟨server, hs, hd⟩ | hnone
  · obtain rfl : server.url = llm_url := Option.some.inj (hd.llm_url.symm.trans hurl)
    exact ⟨server, hs, rfl, hasHeaders_build_request hd.llm_token p.request _,
      fun other hother heq => server_eq_of_url cfg hother hs heq⟩
  · cases hnone.symm.trans hurl

/-- Two servers with a token each. -/
def tokenSettings : Settings :=
  { roundRobinSettings with
    VLLM_SERVERS := [⟨"http://a", some "token-a", "org", 1⟩, ⟨"http://b", some "token-b", "org", 1⟩]
    urls_nodup := by decide }

/-- Two calls, of which the second one is answered with the second server. -/
def twoGranted : List SystemEvent :=
  [.call 0 "org" "any" "1" "reply", .call 0 "org" "any" "2" "reply",
    .consumer (.deliver .main (anyCall "1") 0), .consumer (.publish 0), .consumer (.ack 0),
    .consumer (.resume 0), .consumer (.deliver .main (anyCall "2") 0), .consumer (.publish 0)]

/-- The handler of the second call. -/
def secondHandler : proxy.Proxy :=
  ⟨middleware.ana.toUser, priorities.nineDispatched.handed priorities.nineAsked 5, .calling⟩

theorem the_second_token_goes_to_the_second_server : ∃ l reply req,
    Run (System.logged tokenSettings noRepr) Any (.start (.create tokenSettings)) twoGranted l ∧
    .replied reply ∈ l.log ∧
    secondHandler.answered strict.validate
      ⟨some reply.correlation_id, body halfDigits reply.llm_params⟩ = .sending "2" "http://b" req ∧
    ∃ server ∈ tokenSettings.VLLM_SERVERS, req.base_url = server.url ∧
      HasHeaders secondHandler.request.content_type server req ∧
      ∀ other ∈ tokenSettings.VLLM_SERVERS, other.url = req.base_url → other = server := by
  have hexec : ((exec (System.logged tokenSettings noRepr) (.start (.create tokenSettings))
      twoGranted).bind fun l => (repliesTo l.log "2").head?.map fun reply =>
        (reply.correlation_id, reply.llm_params.llm_url)) = some ("2", some "http://b") := by
    decide +kernel
  obtain ⟨l, hl, hreplies⟩ := Option.bind_eq_some_iff.mp hexec
  obtain ⟨reply, hhead, hpair⟩ := Option.map_eq_some_iff.mp hreplies
  obtain ⟨hid, hurl⟩ := Prod.mk.inj hpair
  have hrun := run_of_exec hl
  have hreply : .replied reply ∈ l.log := (mem_repliesTo.mp (List.mem_of_head? hhead)).1
  have hread : (llm_params_dict (rpc_client.Response.mk (some reply.correlation_id)
      (body halfDigits reply.llm_params)).body).bind strict.validate =
      some (reread halfDigits reply.llm_params) := read_body prints_halfDigits strict _
  have hsending : secondHandler.answered strict.validate
      ⟨some reply.correlation_id, body halfDigits reply.llm_params⟩ =
      .sending "2" "http://b" (build_request secondHandler.request
        (reread halfDigits reply.llm_params) "http://b") := by
    rw [priorities.answered_of_read hread hurl, Option.getD_some, hid]
  exact ⟨l, reply, _, hrun, hreply, hsending,
    a_token_goes_to_its_server hrun prints_halfDigits strict hreply secondHandler hsending⟩

end aristote_dispatcher.grants
