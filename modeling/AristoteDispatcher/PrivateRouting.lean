-- Private routing over whole runs: a private-only request stays with the servers
-- of its organization, and a private-first one leaves them by a deferral only.
import AristoteDispatcher.Copies

open runs places
open json (Json PyStr)
open aristote_dispatcher.settings aristote_dispatcher.messages
open aristote_dispatcher.strategy

namespace aristote_dispatcher.broker

open aristote_dispatcher.rpc_server

variable {cfg : Settings} {repr : Json → PyStr} {l l' : Logged System Entry}
  {es : List SystemEvent} {r : Request} {m : Message}

/-- Some request of the run, with a number of deferrals that were logged for it. -/
def Called (es : List SystemEvent) (log : List Entry) (P : Request → Nat → Prop) : Prop :=
  ∃ r ∈ requests es, ∃ n ≤ deferrals log r.correlation_id, P r n

theorem Called.imp {log : List Entry} {P Q : Request → Nat → Prop} (h : Called es log P)
    (himp : ∀ r n, P r n → Q r n) : Called es log Q := by
  obtain ⟨r, hr, n, hn, hp⟩ := h
  exact ⟨r, hr, n, hn, himp r n hp⟩

theorem Called.mono {log entries : List Entry} {e : SystemEvent} {P : Request → Nat → Prop}
    (h : Called es log P) : Called (es ++ [e]) (log ++ entries) P := by
  obtain ⟨r, hr, n, hn, hp⟩ := h
  refine ⟨r, mem_requests_snoc.mpr (.inl hr), n, ?_, hp⟩
  rw [deferrals_append]
  omega

/-- Every message in the system is a copy of a request, and each answer is one to a copy. -/
structure Traced (cfg : Settings) (es : List SystemEvent) (l : Logged System Entry) : Prop where
  ids : l.state.published = (requests es).map (·.correlation_id)
  nodup : ((requests es).map (·.correlation_id)).Nodup
  modes : ∀ r ∈ requests es, r.routing_mode ∈ routing_modes
  ready : ∀ m ∈ l.state.ready, Called es l.log fun r n => Copy cfg.MODEL r n m
  unsettled : ∀ d ∈ l.state.consumer.unsettled,
    Called es l.log fun r n => Copy cfg.MODEL r n d.2
  callbacks : ∀ c ∈ l.state.consumer.callbacks, Called es l.log fun r n => Answers cfg r n c
  requeues : ∀ t ∈ l.state.consumer.requeues,
    Called es l.log fun r n => Copy cfg.MODEL r n t.call.new_msg
  replied : ∀ reply, .replied reply ∈ l.log →
    Called es l.log fun r n => ∃ c, Answers cfg r n c ∧ c.reply = reply

theorem traced_create (cfg : Settings) : Traced cfg [] (.start (.create cfg)) where
  ids := rfl
  nodup := List.nodup_nil
  modes := fun _ h => (by cases h)
  ready := fun _ h => (by cases h)
  unsettled := fun _ h => (by cases h)
  callbacks := fun _ h => (by cases h)
  requeues := fun _ h => (by cases h)
  replied := fun _ h => (by cases h)

/-- A deferral is logged. -/
theorem deferrals_of_task {b : System} {subscription : Subscription} {random : Nat}
    {call : RequeueCall} {id : String}
    (hcall : call ∈ (b.consumer.segment cfg subscription m random).1.tasks)
    (hid : call.message.id = id) :
    1 ≤ deferrals (b.entries cfg (.consumer (.deliver subscription m random))) id := by
  refine List.countP_pos_iff.mpr ⟨.deferred call, List.mem_map_of_mem hcall, ?_⟩
  simp [Entry.isDeferral, hid]

/-- The answer that a step logs is that of a callback. -/
theorem callback_of_entry {b : System} {e : SystemEvent} {reply : Reply}
    (h : .replied reply ∈ b.entries cfg e) : ∃ c ∈ b.consumer.callbacks, c.reply = reply := by
  unfold System.entries at h
  split at h
  · obtain ⟨call, _, heq⟩ := List.mem_map.mp h
    cases heq
  · obtain ⟨c, hc, heq⟩ := Option.map_eq_some_iff.mp (Option.mem_toList.mp h)
    cases heq
    exact ⟨c, List.mem_of_getElem? hc, rfl⟩
  · cases h

theorem requests_snoc_of_none {e : SystemEvent} (h : e.request? = none) :
    requests (es ++ [e]) = requests es := by
  simp [requests, List.filterMap_append, h]

theorem Traced.replied_snoc (h : Traced cfg es l) {e : SystemEvent} {reply : Reply}
    (hreply : .replied reply ∈ l.log ++ l.state.entries cfg e) :
    Called (es ++ [e]) (l.log ++ l.state.entries cfg e) fun r n =>
      ∃ c, Answers cfg r n c ∧ c.reply = reply := by
  rcases List.mem_append.mp hreply with hreply | hreply
  · exact (h.replied reply hreply).mono
  · obtain ⟨c, hc, rfl⟩ := callback_of_entry hreply
    exact (h.callbacks c hc).mono.imp fun r n hans => ⟨c, hans, rfl⟩

/-- A step of the consumer. -/
theorem traced_consumer {e : Event} (h : Traced cfg es l)
    (hs : System.logged cfg repr l (.consumer e) = some l') :
    Traced cfg (es ++ [.consumer e]) l' := by
  obtain ⟨b', log'⟩ := l'
  obtain ⟨hstep, rfl⟩ := logged_eq_some hs
  obtain ⟨s', hs', rfl⟩ := consumer_step hstep
  have hreq : requests (es ++ [.consumer e]) = requests es := requests_snoc_of_none rfl
  -- what a delivery starts, from the copy that it takes
  have hdelivered : ∀ {subscription : Subscription} {message : Message} {random : Nat},
      e = .deliver subscription message random → Called es l.log fun r n =>
        r.routing_mode ∈ routing_modes ∧ subscription.queue cfg = some message.routing_key ∧
          Copy cfg.MODEL r n message := by
    rintro subscription message random rfl
    obtain ⟨r, hr, n, hn, hcopy⟩ := h.ready message (mem_ready_of_deliver hstep)
    cases moves_of_step hs' with
    | deliver hq hfree => exact ⟨r, hr, n, hn, h.modes r hr, hq, hcopy⟩
  refine ⟨?_, ?_, ?_, ?_, ?_, ?_, ?_, ?_⟩
  · rw [hreq]
    exact h.ids
  · rw [hreq]
    exact h.nodup
  · rw [hreq]
    exact h.modes
  · intro m hm
    rcases ready_of_after hm with hm | ⟨t, ht, rfl⟩
    · exact (h.ready m hm).mono
    · exact (h.requeues t ht).mono
  · intro d hd
    rcases unsettled_of_step hs' hd with hd | ⟨random, rfl⟩
    · exact (h.unsettled d hd).mono
    · exact (h.ready _ (mem_ready_of_deliver hstep)).mono
  · intro c hc
    rcases callback_of_step hs' hc with ⟨c', hc', heq⟩ | ⟨subscription, message, random, rfl, hnew⟩
    · refine (h.callbacks c' hc').mono.imp fun r n hans => ?_
      rw [heq]
      exact ⟨hans.copy, hans.requeue_count, hans.organization⟩
    · refine (hdelivered rfl).mono.imp fun r n ⟨hmode, hq, hcopy⟩ => ?_
      exact (delivered_copy hcopy hmode hq _ random).2 c hnew
  · intro t ht
    rcases requeue_of_step hs' ht with ⟨t', ht', heq⟩ |
      ⟨subscription, message, random, rfl, call, hcall, rfl⟩
    · refine (h.requeues t' ht').mono.imp fun r n hcopy => ?_
      rw [heq]
      exact hcopy
    · obtain ⟨r, hr, n, hn, hmode, hq, hcopy⟩ := hdelivered rfl
      have hdefers := (delivered_copy hcopy hmode hq _ random).1 call hcall
      have hlog := deferrals_of_task hcall hdefers.copy.id
      refine ⟨r, hreq ▸ hr, n + 1, ?_, hdefers.new_msg⟩
      rw [deferrals_append]
      omega
  · exact fun reply hreply => h.replied_snoc hreply

theorem traced_step {e : SystemEvent} (h : Traced cfg es l)
    (hs : System.logged cfg repr l e = some l') : Traced cfg (es ++ [e]) l' := by
  cases e with
  | consumer e => exact traced_consumer h hs
  | call priority organization routing_mode correlation_id reply_to =>
    obtain ⟨b', log'⟩ := l'
    obtain ⟨hstep, rfl⟩ := logged_eq_some hs
    obtain ⟨⟨hmode, hnew, _⟩, hstep⟩ := Option.ite_none_right_eq_some.mp hstep
    cases hstep
    have hreq : requests (es ++ [.call priority organization routing_mode correlation_id
        reply_to]) = requests es ++ [⟨priority, organization, routing_mode, correlation_id,
          reply_to⟩] := by
      simp [requests, List.filterMap_append, SystemEvent.request?]
    refine ⟨?_, ?_, ?_, ?_, fun d hd => (h.unsettled d hd).mono,
      fun c hc => (h.callbacks c hc).mono, fun t ht => (h.requeues t ht).mono, ?_⟩
    · rw [hreq, List.map_append, ← h.ids]
      rfl
    · rw [hreq, List.map_append, ← h.ids]
      refine List.nodup_append.mpr ⟨h.ids ▸ h.nodup, List.nodup_singleton _, ?_⟩
      rintro id hid _ hlast rfl
      cases List.mem_singleton.mp hlast
      exact hnew hid
    · rw [hreq]
      intro r hr
      rcases List.mem_append.mp hr with hr | hr
      · exact h.modes r hr
      · cases List.mem_singleton.mp hr
        exact hmode
    · intro m hm
      rcases List.mem_append.mp hm with hm | hm
      · exact (h.ready m hm).mono
      · cases List.mem_singleton.mp hm
        exact ⟨_, mem_requests_snoc.mpr (.inr rfl), 0, Nat.zero_le _, .call⟩
    · exact fun reply hreply => h.replied_snoc hreply
  | expire i =>
    obtain ⟨b', log'⟩ := l'
    obtain ⟨hstep, rfl⟩ := logged_eq_some hs
    obtain ⟨message, hm, rfl⟩ := Option.map_eq_some_iff.mp hstep
    have hreq : requests (es ++ [.expire i]) = requests es := requests_snoc_of_none rfl
    refine ⟨hreq ▸ h.ids, hreq ▸ h.nodup, hreq ▸ h.modes, ?_, fun d hd => (h.unsettled d hd).mono,
      fun c hc => (h.callbacks c hc).mono, fun t ht => (h.requeues t ht).mono, ?_⟩
    · exact fun m hm => (h.ready m (List.mem_of_mem_eraseIdx hm)).mono
    · exact fun reply hreply => h.replied_snoc hreply
  | stop =>
    obtain ⟨b', log'⟩ := l'
    obtain ⟨hstep, rfl⟩ := logged_eq_some hs
    cases hstep
    have hreq : requests (es ++ [.stop]) = requests es := requests_snoc_of_none rfl
    refine ⟨hreq ▸ h.ids, hreq ▸ h.nodup, hreq ▸ h.modes, ?_, fun d hd => (by cases hd),
      fun c hc => (by cases hc), fun t ht => (by cases ht), ?_⟩
    · intro m hm
      rcases List.mem_append.mp hm with hm | hm
      · exact (h.ready m hm).mono
      · obtain ⟨d, hd, rfl⟩ := List.mem_map.mp hm
        exact (h.unsettled d hd).mono
    · exact fun reply hreply => h.replied_snoc hreply

theorem traced_run {ok : Logged System Entry → SystemEvent → Prop}
    (h : Run (System.logged cfg repr) ok (.start (.create cfg)) es l) : Traced cfg es l :=
  h.invariant_of_events (traced_create cfg) fun _ _ _ _ hi _ hs => traced_step hi hs

/-! ## The law -/

/-- The request that a message of the system belongs to is the one with its id. -/
theorem Traced.eq_of_id (h : Traced cfg es l) {r r' : Request} (hr : r ∈ requests es)
    (hr' : r' ∈ requests es) (hid : r.correlation_id = r'.correlation_id) : r = r' :=
  List.inj_on_of_nodup_map h.nodup hr hr' hid

/-- In every run, each reply to a private-only request names its organization, and none of its
copies comes to the queue of the model; and a private-first request that is answered with a
server of another organization was deferred before, and the reply says so. -/
theorem private_requests_keep_their_organization (cfg : Settings) (repr : Json → PyStr)
    {es : List SystemEvent} {l : Logged System Entry}
    (h : Run (System.logged cfg repr) Any (.start (.create cfg)) es l)
    (priority : UInt8) (organization correlation_id reply_to : String) :
    (.call priority organization "private-only" correlation_id reply_to ∈ es →
      (∀ reply, .replied reply ∈ l.log → reply.correlation_id = correlation_id →
        reply.llm_params.llm_organization = some organization) ∧
      ∀ message ∈ l.state.ready, message.id = correlation_id →
        message.routing_key ≠ cfg.MODEL) ∧
    (.call priority organization "private-first" correlation_id reply_to ∈ es →
      ∀ reply, .replied reply ∈ l.log → reply.correlation_id = correlation_id →
        reply.llm_params.llm_organization ≠ some organization →
        1 ≤ reply.llm_params.requeue_count ∧ 1 ≤ deferrals l.log correlation_id) := by
  have htraced := traced_run h
  refine ⟨fun hcall => ?_, fun hcall => ?_⟩
  · have hr : Request.mk priority organization "private-only" correlation_id reply_to ∈
        requests es := List.mem_filterMap.mpr ⟨_, hcall, rfl⟩
    refine ⟨?_, ?_⟩
    · intro reply hreply hid
      obtain ⟨r, hr', n, _, c, hans, rfl⟩ := htraced.replied reply hreply
      obtain rfl := htraced.eq_of_id hr' hr (hans.copy.id.symm.trans hid)
      exact hans.organization.resolve_left (hans.copy.not_main rfl)
    · intro message hm hid
      obtain ⟨r, hr', n, _, hcopy⟩ := htraced.ready message hm
      obtain rfl := htraced.eq_of_id hr' hr (hcopy.id.symm.trans hid)
      exact hcopy.not_main rfl
  · have hr : Request.mk priority organization "private-first" correlation_id reply_to ∈
        requests es := List.mem_filterMap.mpr ⟨_, hcall, rfl⟩
    intro reply hreply hid horg
    obtain ⟨r, hr', n, hn, c, hans, rfl⟩ := htraced.replied reply hreply
    obtain rfl := htraced.eq_of_id hr' hr (hans.copy.id.symm.trans hid)
    have hmain := hans.organization.resolve_right horg
    have hpos := hans.copy.deferred_of_main rfl hmain
    refine ⟨?_, hpos.trans hn⟩
    have hcount : c.reply.llm_params.requeue_count = n := hans.requeue_count
    omega

/-- Two organizations with one server each, which takes one request. -/
def twoOrganizations : Settings :=
  { roundRobinSettings with
    VLLM_SERVERS := [⟨"http://a", none, "org", 1⟩, ⟨"http://b", none, "other", 1⟩]
    urls_nodup := by decide }

/-- Two private-first calls: the second one is deferred to the queue of the model, deferred
there once more, and answered with the server of the other organization. -/
def leavesItsOrganization : List SystemEvent :=
  let call (id : String) := call_message 0 "model" "org" "private-first" id "reply"
  let copy := RequeueCall.new_msg ⟨call "2", some "model", some 1⟩
  [.call 0 "org" "private-first" "1" "reply", .call 0 "org" "private-first" "2" "reply",
    .consumer (.deliver (.server_queue 0) (call "1") 0), .consumer (.publish 0),
    .consumer (.ack 0), .consumer (.resume 0),
    .consumer (.deliver (.server_queue 0) (call "2") 0), .consumer (.requeue_ack 0),
    .consumer (.requeue_publish 0), .consumer (.deliver .main copy 0),
    .consumer (.requeue_ack 0), .consumer (.requeue_publish 0),
    .consumer (.deliver .main (RequeueCall.new_msg ⟨copy, none, some 1⟩) 0),
    .consumer (.publish 0)]

theorem a_private_first_request_leaves_its_organization : ∃ l reply,
    Run (System.logged twoOrganizations noRepr) Any (.start (.create twoOrganizations))
      leavesItsOrganization l ∧
    .replied reply ∈ l.log ∧ reply.correlation_id = "2" ∧
    reply.llm_params.llm_organization = some "other" ∧
    1 ≤ reply.llm_params.requeue_count ∧ 1 ≤ deferrals l.log "2" := by
  have hexec : ((exec (System.logged twoOrganizations noRepr) (.start (.create twoOrganizations))
      leavesItsOrganization).map fun l => l.log.getLast?.bind fun entry =>
        match entry with
        | .replied reply => some (reply.correlation_id, reply.llm_params.llm_organization)
        | .deferred _ => none) = some (some ("2", some "other")) := by decide +kernel
  obtain ⟨l, hl, hlast⟩ := Option.map_eq_some_iff.mp hexec
  obtain ⟨entry, hentry, hreply⟩ := Option.bind_eq_some_iff.mp hlast
  cases entry with
  | deferred call => cases hreply
  | replied reply =>
    have hlog := List.mem_of_getLast? hentry
    simp only [Option.some.injEq, Prod.mk.injEq] at hreply
    obtain ⟨hid, horg⟩ := hreply
    refine ⟨l, reply, run_of_exec hl, hlog, hid, horg, ?_⟩
    exact (private_requests_keep_their_organization twoOrganizations noRepr (run_of_exec hl) 0
      "org" "2" "reply").2 (.tail _ (.head _)) reply hlog hid (by simp [horg])

end aristote_dispatcher.broker
