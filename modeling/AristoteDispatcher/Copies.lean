-- The copies of a request. Each deferral publishes one more of them, and all have
-- the fields of the first but for their count and, once a private-first request
-- goes to the queue of the model, their routing key.
import AristoteDispatcher.Lib.Logged
import AristoteDispatcher.Broker
import AristoteDispatcher.Deliveries

open runs
open json (Json PyStr dumps ofStrings getMember getMember_ofStrings)
open aristote_dispatcher.settings aristote_dispatcher.messages
open aristote_dispatcher.strategy

namespace aristote_dispatcher.broker

open aristote_dispatcher.rpc_server

variable {cfg : Settings} {repr : Json → PyStr} {model : String} {n : Nat}

/-- What a sender asks for. -/
structure Request where
  priority : UInt8
  organization : String
  routing_mode : String
  correlation_id : String
  reply_to : String
  deriving DecidableEq

def Request.message (model : String) (r : Request) : Message :=
  call_message r.priority model r.organization r.routing_mode r.correlation_id r.reply_to

/-- The call that an event is. -/
def SystemEvent.request? : SystemEvent → Option Request
  | .call priority organization routing_mode correlation_id reply_to =>
    some ⟨priority, organization, routing_mode, correlation_id, reply_to⟩
  | _ => none

/-- The id of the call that an event is. -/
def SystemEvent.call? : SystemEvent → Option String
  | .call _ _ _ correlation_id _ => some correlation_id
  | _ => none

/-- The message is what the request becomes after so many deferrals. -/
inductive Copy (model : String) (r : Request) : Nat → Message → Prop
  | call : Copy model r 0 (r.message model)
  | deferred {n : Nat} {message : Message} {queue : Option String} {delay : Option Nat}
      (h : Copy model r n message)
      (hq : queue = none ∨ (queue = some model ∧ r.routing_mode = "private-first")) :
      Copy model r (n + 1) (RequeueCall.new_msg ⟨message, queue, delay⟩)

variable {r : Request} {m : Message}

/-! ## What a copy keeps -/

theorem Copy.id (h : Copy model r n m) : m.id = r.correlation_id := by
  induction h with
  | call => rfl
  | deferred h hq ih => exact ih

theorem Copy.body (h : Copy model r n m) : m.body = (r.message model).body := by
  induction h with
  | call => rfl
  | deferred h hq ih => exact ih

theorem Copy.correlation_id (h : Copy model r n m) :
    m.correlation_id = some r.correlation_id := by
  induction h with
  | call => rfl
  | deferred h hq ih => exact ih

theorem Copy.reply_to (h : Copy model r n m) : m.reply_to = some r.reply_to := by
  induction h with
  | call => rfl
  | deferred h hq ih => exact ih

theorem Copy.priority (h : Copy model r n m) : m.priority = some r.priority := by
  induction h with
  | call => rfl
  | deferred h hq ih => exact ih

/-- The header counts the deferrals. -/
theorem Copy.requeue_count (h : Copy model r n m) : m.requeue_count = n := by
  induction h with
  | call => rfl
  | deferred h hq ih =>
    rw [requeue_count_new_msg, ih]
    push_cast
    rfl

/-- A copy is on the queue of the call, or a private-first one came to the queue of the model
by a deferral. -/
theorem Copy.routing_key (h : Copy model r n m) :
    m.routing_key = (r.message model).routing_key ∨
      (r.routing_mode = "private-first" ∧ m.routing_key = model ∧ 1 ≤ n) := by
  induction h with
  | call => exact .inl rfl
  | deferred h hq ih =>
    rcases hq with rfl | ⟨rfl, hmode⟩
    · rcases ih with heq | ⟨hmode, heq, _⟩
      · exact .inl heq
      · exact .inr ⟨hmode, heq, by omega⟩
    · exact .inr ⟨hmode, rfl, by omega⟩

theorem Copy.published (h : Copy model r n m) (hmode : r.routing_mode ∈ routing_modes) :
    Published model m := by
  induction h with
  | call => exact .call _ _ _ _ _ hmode
  | deferred h hq ih => exact .requeue _ ih (hq.imp_right And.left)

/-- A request for the servers of its organization. -/
theorem Request.routing_key_of_private (hmode : r.routing_mode ≠ "any") :
    (r.message model).routing_key = private_queue model r.organization :=
  if_neg hmode

/-- A private-only request never comes to the queue of the model. -/
theorem Copy.not_main (h : Copy model r n m) (hmode : r.routing_mode = "private-only") :
    m.routing_key ≠ model := by
  have hany : r.routing_mode ≠ "any" := by simp [hmode]
  rcases h.routing_key with heq | ⟨hfirst, _⟩
  · rw [heq, Request.routing_key_of_private hany]
    exact private_queue_ne _ _
  · rw [hmode] at hfirst
    exact absurd hfirst (by decide)

/-- A private-first request comes there after a deferral only. -/
theorem Copy.deferred_of_main (h : Copy model r n m) (hmode : r.routing_mode = "private-first")
    (hkey : m.routing_key = model) : 1 ≤ n := by
  have hany : r.routing_mode ≠ "any" := by simp [hmode]
  rcases h.routing_key with heq | ⟨_, _, hn⟩
  · rw [heq, Request.routing_key_of_private hany] at hkey
    exact absurd hkey (private_queue_ne _ _)
  · exact hn

/-! ## The delivery of a copy -/

/-- What a callback can make of a copy: it defers it to its queue or, with private-first, to
that of the model, and on a private queue it answers with a server of the organization. -/
theorem segment_of_copy (h : Copy cfg.MODEL r n m) (hmode : r.routing_mode ∈ routing_modes)
    {subscription : Subscription} (hq : subscription.queue cfg = some m.routing_key) (s : State)
    (random : Nat) :
    ∃ queue servers,
      Handled m queue servers (m.routing_key = cfg.MODEL)
        (s.segment cfg subscription m random).1 ∧
      (queue = none ∨ (queue = some cfg.MODEL ∧ r.routing_mode = "private-first")) ∧
      (m.routing_key = cfg.MODEL ∨
        ∀ server ∈ servers, server.organization = r.organization) := by
  cases subscription with
  | main =>
    have hkey : m.routing_key = cfg.MODEL := (Option.some.inj hq).symm
    exact ⟨none, _, (main_handled cfg s m random).mono fun _ => hkey, .inl rfl, .inl hkey⟩
  | server_queue i =>
    obtain ⟨own, hown, hkey⟩ := Option.map_eq_some_iff.mp hq
    -- the key is that of the call, so the body is one for a private queue
    have hany : r.routing_mode ≠ "any" := by
      intro hany
      have hmain : (r.message cfg.MODEL).routing_key = cfg.MODEL := if_pos hany
      rcases h.routing_key with heq | ⟨_, heq, _⟩
      · exact private_queue_ne _ _ (hkey.trans (heq.trans hmain))
      · exact private_queue_ne _ _ (hkey.trans heq)
    have hbody : m.body = (dumps (payload r.routing_mode r.organization)).toUTF8 :=
      h.body.trans (if_neg hany)
    have hread : readMembers m.body = .ok (ofStrings (payload r.routing_mode r.organization)) :=
      hbody ▸ readMembers_dumps _ (by simp [payload])
    have horg : getMember (ofStrings (payload r.routing_mode r.organization)) "organization" =
        .str (PyStr.ofString r.organization) := getMember_ofStrings _ _
    have hget : getMember (ofStrings (payload r.routing_mode r.organization)) "routing_mode" =
        .str (PyStr.ofString r.routing_mode) := getMember_ofStrings _ _
    have hmodes : r.routing_mode = "private-first" ∨ r.routing_mode = "private-only" := by
      simp only [routing_modes, List.mem_cons, List.not_mem_nil, or_false] at hmode
      exact hmode.resolve_left hany
    obtain ⟨queue, hqueue, hto⟩ : ∃ queue,
        target_requeue cfg (getMember (ofStrings (payload r.routing_mode r.organization))
          "routing_mode") = .ok queue ∧
        (queue = none ∨ (queue = some cfg.MODEL ∧ r.routing_mode = "private-first")) := by
      rw [hget]
      rcases hmodes with heq | heq
      · exact ⟨some cfg.MODEL, by simp [heq, target_requeue, isStr_ofString], .inr ⟨rfl, heq⟩⟩
      · exact ⟨none, by simp [heq, target_requeue, isStr_ofString], .inl rfl⟩
    refine ⟨queue, _, (private_handled hread hqueue s i random).mono False.elim, hto, .inr ?_⟩
    intro server hs
    rw [horg, matching_servers_ofString] at hs
    simpa [organization_servers] using (List.mem_filter.mp hs).2

/-- The call of a requeue task for a copy. -/
structure Defers (cfg : Settings) (r : Request) (n : Nat) (call : RequeueCall) : Prop where
  copy : Copy cfg.MODEL r n call.message
  queue : call.queue = none ∨ (call.queue = some cfg.MODEL ∧ r.routing_mode = "private-first")

theorem Defers.new_msg {call : RequeueCall} (h : Defers cfg r n call) :
    Copy cfg.MODEL r (n + 1) call.new_msg :=
  .deferred h.copy h.queue

/-- The answer to a copy. -/
structure Answers (cfg : Settings) (r : Request) (n : Nat) (c : Callback) : Prop where
  copy : Copy cfg.MODEL r n c.message
  requeue_count : c.llm_params.requeue_count = n
  organization : c.message.routing_key = cfg.MODEL ∨
    c.llm_params.llm_organization = some r.organization

theorem delivered_copy (h : Copy cfg.MODEL r n m) (hmode : r.routing_mode ∈ routing_modes)
    {subscription : Subscription} (hq : subscription.queue cfg = some m.routing_key) (s : State)
    (random : Nat) :
    (∀ call ∈ (s.segment cfg subscription m random).1.tasks, Defers cfg r n call) ∧
    ∀ c ∈ suspended subscription m (s.segment cfg subscription m random).1.stop,
      Answers cfg r n c := by
  obtain ⟨queue, servers, hhandled, hto, horg⟩ := segment_of_copy h hmode hq s random
  cases hseg : (s.segment cfg subscription m random).1 with | mk tasks stop
  rw [hseg] at hhandled
  cases hhandled with
  | raises e => exact ⟨fun _ hc => (by cases hc), fun _ hc => (by cases hc)⟩
  | deferred delay =>
    refine ⟨fun call hcall => ?_, fun _ hc => (by cases hc)⟩
    cases List.mem_singleton.mp hcall
    exact ⟨h, hto⟩
  | answered hs hurl hserver hcount =>
    refine ⟨fun _ hc => (by cases hc), fun c hc => ?_⟩
    cases List.mem_singleton.mp hc
    refine ⟨h, hcount.trans h.requeue_count, horg.imp_right fun hall => ?_⟩
    rw [hserver, hall _ hs]
  | refused hrefuses hurl hserver hcount =>
    refine ⟨fun _ hc => (by cases hc), fun c hc => ?_⟩
    cases List.mem_singleton.mp hc
    exact ⟨h, hcount.trans h.requeue_count, .inl hrefuses⟩

/-! ## Where an id and a ready message come from -/

/-- The ids of the calls after a step of the system. -/
theorem published_step {b b' : System} {e : SystemEvent} (hs : b.step cfg repr e = some b') :
    b'.published = b.published ++ e.call?.toList ∧ ∀ id, e.call? = some id → id ∉ b.published := by
  cases e with
  | call priority organization routing_mode correlation_id reply_to =>
    obtain ⟨⟨_, hnew, _⟩, hs⟩ := Option.ite_none_right_eq_some.mp hs
    cases hs
    refine ⟨rfl, fun id hid => ?_⟩
    cases hid
    exact hnew
  | consumer e =>
    obtain ⟨s', _, rfl⟩ := consumer_step hs
    exact ⟨(List.append_nil _).symm, fun _ hid => (by cases hid)⟩
  | expire i =>
    obtain ⟨message, _, rfl⟩ := Option.map_eq_some_iff.mp hs
    exact ⟨(List.append_nil _).symm, fun _ hid => (by cases hid)⟩
  | stop =>
    cases hs
    exact ⟨(List.append_nil _).symm, fun _ hid => (by cases hid)⟩

/-- A copy that goes out is that of a requeue task. -/
theorem task_of_copy {s : State} {e : Event} {o : Operation} (ho : o ∈ s.operations e)
    (hcopy : Operation.copy? o = some m) :
    ∃ i t, e = .requeue_publish i ∧ s.requeues[i]? = some t ∧ t.call.new_msg = m := by
  cases e with
  | requeue_publish i =>
    obtain ⟨t, ht, rfl⟩ := Option.map_eq_some_iff.mp (Option.mem_toList.mp ho)
    exact ⟨i, t, rfl, ht, Option.some.inj hcopy⟩
  | publish i =>
    obtain ⟨c, _, rfl⟩ := Option.map_eq_some_iff.mp (Option.mem_toList.mp ho)
    cases hcopy
  | ack i =>
    obtain ⟨c, _, rfl⟩ := Option.map_eq_some_iff.mp (Option.mem_toList.mp ho)
    cases hcopy
  | requeue_ack i =>
    obtain ⟨t, _, rfl⟩ := Option.map_eq_some_iff.mp (Option.mem_toList.mp ho)
    cases hcopy
  | _ => cases ho

/-- What is ready after a step of the consumer was so before, or is the copy that a task
publishes. -/
theorem ready_of_after {b : System} {e : Event} {s' : State} (hm : m ∈ (b.after e s').ready) :
    m ∈ b.ready ∨ ∃ t ∈ b.consumer.requeues, t.call.new_msg = m := by
  rcases List.mem_append.mp hm with hm | hm
  · left
    unfold takes at hm
    split at hm
    · exact List.mem_of_mem_erase hm
    · exact hm
  · right
    obtain ⟨o, ho, hcopy⟩ := List.mem_filterMap.mp hm
    obtain ⟨i, t, _, ht, hmsg⟩ := task_of_copy ho hcopy
    exact ⟨t, List.mem_of_getElem? ht, hmsg⟩

/-- A message that is delivered was ready. -/
theorem mem_ready_of_deliver {b b' : System} {subscription : Subscription} {random : Nat}
    (h : b.step cfg repr (.consumer (.deliver subscription m random)) = some b') : m ∈ b.ready :=
  (Option.ite_none_right_eq_some.mp h).1 m rfl

/-! ## What happens to requests -/

/-- A callback defers a request, or its answer goes out. -/
inductive Entry
  | deferred (call : RequeueCall)
  | replied (reply : Reply)
  deriving DecidableEq

def System.entries (cfg : Settings) (b : System) : SystemEvent → List Entry
  | .consumer (.deliver subscription message random) =>
    (b.consumer.segment cfg subscription message random).1.tasks.map .deferred
  | .consumer (.publish i) => (b.consumer.callbacks[i]?.map fun c => .replied c.reply).toList
  | _ => []

/-- The entry is a deferral of the id. -/
def Entry.isDeferral (id : String) : Entry → Bool
  | .deferred call => call.message.id = id
  | .replied _ => false

/-- How often the id was deferred. -/
def deferrals (log : List Entry) (id : String) : Nat := log.countP (Entry.isDeferral id)

theorem deferrals_append (log entries : List Entry) (id : String) :
    deferrals (log ++ entries) id = deferrals log id + deferrals entries id :=
  List.countP_append

/-- The machine of the broker that keeps the log. -/
def System.logged (cfg : Settings) (repr : Json → PyStr) (l : Logged System Entry)
    (e : SystemEvent) : Option (Logged System Entry) :=
  runs.logged (System.step cfg repr) (System.entries cfg) l e

/-- The requests that were called. -/
def requests (es : List SystemEvent) : List Request := es.filterMap SystemEvent.request?

theorem mem_requests_snoc {es : List SystemEvent} {e : SystemEvent} :
    r ∈ requests (es ++ [e]) ↔ r ∈ requests es ∨ e.request? = some r := by
  unfold requests
  rw [List.filterMap_append, List.mem_append]
  simp

end aristote_dispatcher.broker
