-- Whether a request can get stuck. Without failures the consumer alone can always finish its
-- callbacks, its tasks and its timers, and then no server is full: so it can answer all that
-- waits, and after a restart all that the broker holds.
import AristoteDispatcher.Lib.Draining
import AristoteDispatcher.LiveCopies
import AristoteDispatcher.Tended

open pydict pyfloat runs places
open json (Json PyStr)
open aristote_dispatcher.settings aristote_dispatcher.messages
open aristote_dispatcher.policies aristote_dispatcher.strategy aristote_dispatcher.queues

namespace aristote_dispatcher.broker

open aristote_dispatcher.rpc_server

variable {cfg : Settings} {repr : Json → PyStr} {s s' : State} {b b' : System}
  {es : List SystemEvent} {m : Message}

/-! ## What is left to do -/

def Phase.work : Phase → Nat
  | .publishing => 4
  | .confirming => 3
  | .acked => 2

theorem Phase.work_publishing : Phase.work .publishing = 4 := rfl
theorem Phase.work_confirming : Phase.work .confirming = 3 := rfl
theorem Phase.work_acked : Phase.work .acked = 2 := rfl

/-- A task that publishes leaves a request to deliver. -/
def RequeueTask.work (t : RequeueTask) : Nat := if t.acked then 6 else 7

def State.work (s : State) : Nat :=
  (s.callbacks.map fun c => Phase.work c.phase).sum + (s.requeues.map RequeueTask.work).sum +
    s.timers.length

/-- The steps up to the rest: of a ready request there are its delivery, the publish, the ack and
the end of its callback, and its timer. -/
def System.work (b : System) : Nat := 5 * b.ready.length + State.work b.consumer

/-- A step takes from the work, and no request from its queue. -/
structure Advances (cfg : Settings) (s : State) (e : Event) (s' : State) : Prop where
  calm : Calm cfg s e
  takes : takes e = none
  work : 5 * ((s.operations e).filterMap Operation.copy?).length + State.work s' < State.work s

theorem advances_callback {c : Callback} {callbacks : List Callback}
    (hc : s.callbacks = c :: callbacks) :
    ∃ e s', s.step cfg repr e = some s' ∧ Advances cfg s e s' := by
  have hget : s.callbacks[0]? = some c := by rw [hc]; rfl
  have hwork : State.work s = Phase.work c.phase + (callbacks.map fun c => Phase.work c.phase).sum +
      (s.requeues.map RequeueTask.work).sum + s.timers.length := by
    rw [State.work, hc, List.map_cons, List.sum_cons]
  cases hp : c.phase with
  | publishing =>
    refine ⟨.publish 0, s.goOn 0 c .confirming, by simp [State.step, hget, hp], trivial, rfl, ?_⟩
    rw [copies_of_operations, hwork, hp]
    simp only [State.work, State.goOn, hc, List.set_cons_zero, List.map_cons, List.sum_cons,
      List.length_nil, Phase.work_publishing, Phase.work_confirming]
    omega
  | confirming =>
    refine ⟨.ack 0, (s.settle c.subscription c.message).goOn 0 c .acked,
      by simp [State.step, hget, hp], trivial, rfl, ?_⟩
    rw [copies_of_operations, hwork, hp]
    simp only [State.work, State.goOn, State.settle, hc, List.set_cons_zero, List.map_cons,
      List.sum_cons, List.length_nil, Phase.work_confirming, Phase.work_acked]
    omega
  | acked =>
    cases hserver : c.vllm_server with
    | none =>
      refine ⟨.resume 0, s.finish 0, by simp [State.step, hget, hp, hserver], trivial, rfl, ?_⟩
      rw [copies_of_operations, hwork, hp]
      simp only [State.work, State.finish, hc, List.eraseIdx_cons_zero, List.length_nil,
        Phase.work_acked]
      omega
    | some server =>
      refine ⟨.resume 0, (s.finish 0).add server c.message.id,
        by simp [State.step, hget, hp, hserver], trivial, rfl, ?_⟩
      have htimers : ((s.finish 0).add server c.message.id).timers.length ≤
          s.timers.length + 1 := by
        unfold State.add State.finish
        split <;> simp
      rw [copies_of_operations, hwork, hp]
      simp only [State.work, callbacks_add, requeues_add, State.finish, hc,
        List.eraseIdx_cons_zero, List.length_nil, Phase.work_acked] at htimers ⊢
      omega

theorem advances_requeue {t : RequeueTask} {requeues : List RequeueTask}
    (ht : s.requeues = t :: requeues) :
    ∃ e s', s.step cfg repr e = some s' ∧ Advances cfg s e s' := by
  have hget : s.requeues[0]? = some t := by rw [ht]; rfl
  have hwork : State.work s = (s.callbacks.map fun c => Phase.work c.phase).sum +
      (RequeueTask.work t + (requeues.map RequeueTask.work).sum) + s.timers.length := by
    rw [State.work, ht, List.map_cons, List.sum_cons]
  cases hp : t.acked with
  | false =>
    refine ⟨.requeue_ack 0, { s.settle t.subscription t.call.message with
      requeues := s.requeues.set 0 { t with acked := true } },
      by simp [State.step, hget, hp], trivial, rfl, ?_⟩
    rw [copies_of_operations, hwork]
    simp only [State.work, State.settle, ht, List.set_cons_zero, List.map_cons, List.sum_cons,
      List.length_nil, RequeueTask.work, hp, Bool.false_eq_true, if_true, if_false]
    omega
  | true =>
    refine ⟨.requeue_publish 0, s.finishRequeue 0, by simp [State.step, hget, hp], trivial, rfl, ?_⟩
    have hcopy : ((s.operations (.requeue_publish 0)).filterMap Operation.copy?).length = 1 := by
      simp only [copies_of_operations, hget, Option.map_some, Option.toList_some,
        List.length_singleton]
    rw [hcopy, hwork]
    simp only [State.work, State.finishRequeue, ht, List.eraseIdx_cons_zero, RequeueTask.work, hp,
      if_true]
    omega

theorem advances_timer {server : VLLMServer} {id : String} {timers : List (VLLMServer × String)}
    (ht : s.timers = (server, id) :: timers) :
    ∃ e s', s.step cfg repr e = some s' ∧ Advances cfg s e s' := by
  have hget : s.timers[0]? = some (server, id) := by rw [ht]; rfl
  refine ⟨.expire 0, ({ s with timers := s.timers.eraseIdx 0 } : State).expire server id,
    by simp [State.step, hget], trivial, rfl, ?_⟩
  simp [State.operations, State.work, timers_expire, ht]

/-- While a callback, a task or a timer is left, one of them can go on. -/
theorem advances_of_busy (h : State.work s ≠ 0) :
    ∃ e s', s.step cfg repr e = some s' ∧ Advances cfg s e s' := by
  cases hc : s.callbacks with
  | cons c callbacks => exact advances_callback hc
  | nil =>
    cases ht : s.requeues with
    | cons t requeues => exact advances_requeue ht
    | nil =>
      cases hx : s.timers with
      | cons timer timers => exact advances_timer hx
      | nil => simp [State.work, hc, ht, hx] at h

/-! ## What a run without failures keeps -/

/-- No failure strikes. -/
def Steady (_ : System) (e : SystemEvent) : Prop := ¬Failure e

instance (b : System) (e : SystemEvent) : Decidable (Steady b e) :=
  inferInstanceAs (Decidable (¬Failure e))

/-- A message that a callback can handle, in a queue that a subscription takes from. -/
def Deliverable (cfg : Settings) (m : Message) : Prop :=
  Published cfg.MODEL m ∧ ∃ subscription : Subscription,
    subscription.queue cfg = some m.routing_key

theorem declared_requests (h : Run (System.step cfg repr) Any (.create cfg) es b) :
    ∀ r ∈ requests es, (r.message cfg.MODEL).routing_key ∈ queue_names cfg := by
  refine h.invariant_of_events (I := fun es _ => ∀ r ∈ requests es,
    (r.message cfg.MODEL).routing_key ∈ queue_names cfg) (fun r hr => by cases hr) ?_
  intro es b e b' ih _ hs r hr
  rcases mem_requests_snoc.mp hr with hr | hr
  · exact ih r hr
  · cases e with
    | call priority organization routing_mode correlation_id reply_to =>
      obtain ⟨⟨_, _, hdeclared⟩, _⟩ := Option.ite_none_right_eq_some.mp hs
      cases hr
      exact hdeclared
    | _ => cases hr

/-- The queue of a copy is the queue of the model or that of an organization with a server. -/
theorem subscription_of_copy {r : Request} {n : Nat} (h : Copy cfg.MODEL r n m)
    (hdeclared : (r.message cfg.MODEL).routing_key ∈ queue_names cfg) :
    ∃ subscription : Subscription, subscription.queue cfg = some m.routing_key := by
  rcases h.routing_key with hkey | ⟨_, hkey, _⟩
  · by_cases hany : r.routing_mode = "any"
    · have hmain : (r.message cfg.MODEL).routing_key = cfg.MODEL := if_pos hany
      exact ⟨.main, by rw [hkey, hmain]; rfl⟩
    · rw [Request.routing_key_of_private hany] at hkey hdeclared
      rcases mem_queue_names.mp hdeclared with hmodel | hcompleted | ⟨server, hserver, hname⟩
      · exact absurd hmodel (private_queue_ne _ _)
      · exact absurd hcompleted.symm (completed_queue_ne_private _ _ _)
      · obtain ⟨i, hi⟩ := List.getElem?_of_mem hserver
        exact ⟨.server_queue i, by rw [hkey, queue_of_server hi, hname]⟩
  · exact ⟨.main, by rw [hkey]; rfl⟩

theorem deliverable_ready (h : Run (System.step cfg repr) Any (.create cfg) es b) :
    ∀ m ∈ b.ready, Deliverable cfg m := by
  intro m hm
  obtain ⟨log, hlog⟩ : ∃ log, Run (logged (System.step cfg repr) (System.entries cfg))
      Any (.start (.create cfg)) es ⟨b, log⟩ := h.exists_logged
  have htraced : Traced cfg es ⟨b, log⟩ := traced_run hlog
  obtain ⟨r, hr, n, _, hcopy⟩ := htraced.ready m hm
  exact ⟨hcopy.published (htraced.modes r hr),
    subscription_of_copy hcopy (declared_requests h r hr)⟩

/-- A callback acks after its answer, and each delivery and each counted id is looked after. -/
structure Serving (cfg : Settings) (b : System) : Prop where
  answered : ∀ c ∈ b.consumer.callbacks, c.phase ≠ .publishing → c.message.id ∈ b.replied
  tended : Tended cfg b.consumer

theorem serving_of_create (h : b.consumer = .create cfg) : Serving cfg b := by
  refine ⟨fun c hc => ?_, h ▸ tended_create cfg⟩
  rw [h] at hc
  cases hc

theorem serving_step {e : SystemEvent} (hround : cfg.ROUTING_STRATEGY = .round_robin)
    (h : Serving cfg b) (hready : ∀ m ∈ b.ready, Deliverable cfg m) (hok : ¬Failure e)
    (hs : b.step cfg repr e = some b') : Serving cfg b' := by
  cases e with
  | call priority organization routing_mode correlation_id reply_to =>
    obtain ⟨_, hs⟩ := Option.ite_none_right_eq_some.mp hs
    cases hs
    exact ⟨h.answered, h.tended⟩
  | expire i =>
    obtain ⟨message, _, rfl⟩ := Option.map_eq_some_iff.mp hs
    exact ⟨h.answered, h.tended⟩
  | stop => exact absurd trivial hok
  | consumer e =>
    obtain ⟨s', hs', rfl⟩ := consumer_step hs
    refine ⟨fun c hc hp => ?_, tended_step h.tended ?_ hs'⟩
    · rcases answered_step hs' hc hp with ⟨d, hd, hdp, heq⟩ | hmem
      · exact List.mem_append_left _ (heq ▸ h.answered d hd hdp)
      · exact List.mem_append_right _ hmem
    · cases e with
      | deliver subscription message random =>
        cases moves_of_step hs' with
        | deliver hq hfree =>
          have hpub := (hready message (mem_ready_of_deliver hs)).1
          rcases handles h.tended.sound hpub hq random with ⟨_, hhands⟩ | ⟨hnot, _⟩
          · exact hhands
          · exact absurd (settledWhen_of_round_robin hround h.tended.sound.strategy _ _ _) hnot
      | publish_raises i => exact absurd trivial hok
      | ack_raises i => exact absurd trivial hok
      | requeue_ack_raises i => exact absurd trivial hok
      | requeue_publish_raises i => exact absurd trivial hok
      | _ => trivial

theorem serving_run (hround : cfg.ROUTING_STRATEGY = .round_robin)
    (h : Run (System.step cfg repr) Steady (.create cfg) es b) : Serving cfg b := by
  induction h with
  | nil => exact serving_of_create rfl
  | snoc hrun hok hs ih =>
    exact serving_step hround ih (deliverable_ready hrun.any) hok hs

/-! ## The way to rest -/

/-- A consumer whose work is done. -/
structure AtRest (s : State) : Prop where
  callbacks : s.callbacks = []
  requeues : s.requeues = []
  timers : s.timers = []

theorem atRest_of_work (h : State.work s = 0) : AtRest s := by
  have hcallback : ∀ c : Callback, Phase.work c.phase ≠ 0 := by
    intro c
    cases c.phase <;> simp [Phase.work]
  have htask : ∀ t : RequeueTask, RequeueTask.work t ≠ 0 := by
    intro t
    unfold RequeueTask.work
    split <;> simp
  unfold State.work at h
  refine ⟨?_, ?_, List.eq_nil_of_length_eq_zero (by omega)⟩
  · cases hc : s.callbacks with
    | nil => rfl
    | cons c callbacks =>
      rw [hc, List.map_cons, List.sum_cons] at h
      have := hcallback c
      omega
  · cases ht : s.requeues with
    | nil => rfl
    | cons t requeues =>
      rw [ht, List.map_cons, List.sum_cons] at h
      have := htask t
      omega

theorem AtRest.unsettled (h : AtRest s) (ht : Tended cfg s) : s.unsettled = [] := by
  refine List.eq_nil_iff_forall_not_mem.mpr fun d hd => ?_
  rcases ht.owners d hd with ⟨c, hc, _⟩ | ⟨t, htask, _⟩
  · rw [h.callbacks] at hc
    cases hc
  · rw [h.requeues] at htask
    cases htask

theorem AtRest.ids (h : AtRest s) (ht : Tended cfg s) (server : VLLMServer) :
    s.ids server = ∅ := by
  refine Finset.eq_empty_of_forall_notMem fun id hid => ?_
  have htimer := ht.timers server id hid
  rw [h.timers] at htimer
  cases htimer

/-- While there is work, a step of the consumer takes from it. -/
theorem advances_system (hround : cfg.ROUTING_STRATEGY = .round_robin)
    (hone : ∀ server ∈ cfg.VLLM_SERVERS, 1 ≤ server.max_parallel_requests)
    (h : Serving cfg b) (hready : ∀ m ∈ b.ready, Deliverable cfg m) (hwork : b.work ≠ 0) :
    ∃ e b', ¬Failure (.consumer e) ∧ b.step cfg repr (.consumer e) = some b' ∧
      b'.work < b.work := by
  by_cases hbusy : State.work b.consumer = 0
  · have hrest := atRest_of_work hbusy
    cases hr : b.ready with
    | nil => simp [System.work, hr, hbusy] at hwork
    | cons m rest =>
      obtain ⟨hpub, subscription, hq⟩ := hready m (by rw [hr]; exact List.mem_cons_self)
      have hfree : ∀ server ∈ cfg.VLLM_SERVERS,
          (b.consumer.count server : Int) < server.max_parallel_requests := by
        intro server hserver
        have hcount : b.consumer.count server = 0 := by
          rw [State.count, hrest.ids h.tended, Finset.card_empty]
        have := hone server hserver
        omega
      obtain ⟨server, llm_params, hseg⟩ :=
        answers_when_free hround h.tended.sound hfree 0 hpub hq
      have hstep : b.consumer.step cfg repr (.deliver subscription m 0) =
          some (b.consumer.deliver cfg subscription m 0) := by
        refine if_pos ⟨hq, fun d hd => ?_⟩
        rw [hrest.unsettled h.tended] at hd
        cases hd
      refine ⟨.deliver subscription m 0, b.after (.deliver subscription m 0)
        (b.consumer.deliver cfg subscription m 0), id, ?_, ?_⟩
      · rw [System.step, if_pos, hstep, Option.map_some]
        rintro message hm
        cases hm
        rw [hr]
        exact List.mem_cons_self
      · have hafter : State.work (b.consumer.deliver cfg subscription m 0) = 4 := by
          simp [State.work, State.deliver, hseg, suspended, hrest.callbacks, hrest.requeues,
            hrest.timers, Phase.work_publishing]
        have hlength : (b.after (.deliver subscription m 0)
            (b.consumer.deliver cfg subscription m 0)).ready.length = rest.length := by
          simp [System.after, takes, State.operations, hr]
        rw [System.work, System.work, hlength, hr, List.length_cons]
        simp only [System.after, hafter]
        omega
  · obtain ⟨e, s', hs, hadv⟩ : ∃ e s', b.consumer.step cfg repr e = some s' ∧
        Advances cfg b.consumer e s' := advances_of_busy hbusy
    refine ⟨e, b.after e s', ?_, ?_, ?_⟩
    · have hcalm := hadv.calm
      intro hf
      cases e with
      | publish_raises i => exact hcalm
      | ack_raises i => exact hcalm
      | requeue_ack_raises i => exact hcalm
      | requeue_publish_raises i => exact hcalm
      | _ => exact hf
    · rw [System.step, if_pos, hs, Option.map_some]
      intro message hm
      rw [hadv.takes] at hm
      cases hm
    · have hless := hadv.work
      simp only [System.work, System.after, hadv.takes, Option.elim_none, List.length_append]
      omega

/-- The step is one of the consumer, and no failure. -/
def ByConsumer (_ : System) (e : SystemEvent) : Prop := ¬Failure e ∧ ∃ e', e = .consumer e'

/-- The broker holds the request, or a task is to publish its copy. -/
def Waits (b : System) (id : String) : Prop := Held b id ∨ Sleeping b.consumer id

/-- What waits waits on, or is answered. -/
theorem waits_step {e : SystemEvent} {id : String} (h : Serving cfg b) (hok : ByConsumer b e)
    (hs : b.step cfg repr e = some b') (hw : Waits b id) : id ∈ b'.replied ∨ Waits b' id := by
  obtain ⟨hnot, e, rfl⟩ := hok
  obtain ⟨s', hs', rfl⟩ := consumer_step hs
  -- as if this request were the only one
  have hk : Kept { b with published := [id], expired := [] } := by
    refine ⟨h.answered, fun id' hp => ?_⟩
    cases List.mem_singleton.mp hp.1
    exact hw
  have hdrop : ∀ i, e ≠ .requeue_publish_raises i := by
    rintro i rfl
    exact hnot trivial
  by_cases hid : id ∈ (b.after e s').replied
  · exact .inl hid
  · have hpending : Pending (System.after { b with published := [id], expired := [] } e s') id :=
      ⟨List.mem_singleton_self id, hid, List.not_mem_nil⟩
    exact .inr ((kept_after hk hs' hdrop).kept id hpending)

/-- Nothing that waits is left. -/
structure Drained (b : System) : Prop where
  ready : b.ready = []
  unsettled : b.consumer.unsettled = []
  requeues : b.consumer.requeues = []
  free : ∀ server, b.consumer.count server = 0

theorem drained_of_work (h : Serving cfg b) (hwork : b.work = 0) : Drained b := by
  rw [System.work] at hwork
  have hrest : AtRest b.consumer := atRest_of_work (by omega)
  refine ⟨List.eq_nil_of_length_eq_zero (by omega), hrest.unsettled h.tended, hrest.requeues, ?_⟩
  intro server
  rw [State.count, hrest.ids h.tended, Finset.card_empty]

theorem Drained.not_waits (h : Drained b) (id : String) : ¬Waits b id := by
  rintro ((⟨m, hm, _⟩ | ⟨d, hd, _⟩) | ⟨t, ht, _⟩)
  · rw [h.ready] at hm
    cases hm
  · rw [h.unsettled] at hd
    cases hd
  · rw [h.requeues] at ht
    cases ht

/-- The consumer alone can answer all that waits. -/
theorem drains (hround : cfg.ROUTING_STRATEGY = .round_robin)
    (hone : ∀ server ∈ cfg.VLLM_SERVERS, 1 ≤ server.max_parallel_requests)
    (h : Run (System.step cfg repr) Any (.create cfg) es b) (hserving : Serving cfg b) :
    ∃ es' b', Run (System.step cfg repr) ByConsumer b es' b' ∧ es'.length ≤ b.work ∧
      (∀ id, Waits b id → id ∈ b'.replied) ∧ Drained b' := by
  let I (c : System) : Prop :=
    (∃ es, Run (System.step cfg repr) Any (.create cfg) es c) ∧ Serving cfg c ∧
      ∀ id, Waits b id → id ∈ c.replied ∨ Waits c id
  have hnext : ∀ c, I c → c.work ≠ 0 → ∃ e c', ByConsumer c e ∧ c.step cfg repr e = some c' ∧
      I c' ∧ c'.work < c.work := by
    rintro c ⟨⟨es, hrun⟩, hc, hwaits⟩ hwork
    obtain ⟨e, c', hnot, hs, hlt⟩ :=
      advances_system hround hone hc (deliverable_ready hrun) hwork
    refine ⟨.consumer e, c', ⟨hnot, e, rfl⟩, hs, ⟨⟨_, .snoc hrun trivial hs⟩,
      serving_step hround hc (deliverable_ready hrun) hnot hs, fun id hid => ?_⟩, hlt⟩
    rcases hwaits id hid with hreplied | hw
    · obtain ⟨s', _, rfl⟩ := consumer_step hs
      exact .inl (List.mem_append_left _ hreplied)
    · exact waits_step hc ⟨hnot, e, rfl⟩ hs hw
  obtain ⟨es', b', hrun, ⟨_, hb', hwaits⟩, hzero, hlen⟩ :=
    exists_run_to_rest System.work hnext ⟨⟨es, h⟩, hserving, fun _ hw => .inr hw⟩
  have hdrained : Drained b' := drained_of_work hb' hzero
  exact ⟨es', b', hrun, hlen, fun id hid => (hwaits id hid).resolve_right (hdrained.not_waits id),
    hdrained⟩

/-! ## The laws -/

/-- With round robin and servers that take requests, every state of a run without failures can go
on, by steps of the consumer alone and no more of them than there is work, to one where each
request that was pending is answered, nothing is ready or unsettled, and no server has a counted
request. So no request gets stuck. -/
theorem every_pending_request_can_be_answered (cfg : Settings) (repr : Json → PyStr)
    (hround : cfg.ROUTING_STRATEGY = .round_robin)
    (hone : ∀ server ∈ cfg.VLLM_SERVERS, 1 ≤ server.max_parallel_requests)
    (h : Run (System.step cfg repr) Steady (.create cfg) es b) :
    ∃ es' b', Run (System.step cfg repr) ByConsumer b es' b' ∧ es'.length ≤ b.work ∧
      (∀ id, Pending b id → id ∈ b'.replied) ∧ Drained b' := by
  have hk : Kept b := h.invariant (kept_create cfg) fun _ _ _ hi hok hs =>
    kept_step hi (fun hf => absurd hf hok) hs
  obtain ⟨es', b', hrun, hlen, hreplied, hdrained⟩ :=
    drains hround hone h.any (serving_run hround h)
  exact ⟨es', b', hrun, hlen, fun id hp => hreplied id (hk.kept id hp), hdrained⟩

/-- Its deferral is acked, and its copy is not published yet. -/
theorem a_deferred_request_can_be_answered : ∃ b,
    Run (System.step roundRobinSettings noRepr) Steady
      (.create roundRobinSettings) deferred b ∧ Pending b "2" ∧
    ∃ es' b', Run (System.step roundRobinSettings noRepr) ByConsumer b es' b' ∧
      es'.length ≤ b.work ∧ (∀ id, Pending b id → id ∈ b'.replied) ∧ Drained b' := by
  have hsome : ((exec (checked (System.step roundRobinSettings noRepr) Steady)
      (.create roundRobinSettings) deferred).any fun b =>
        "2" ∈ b.published ∧ "2" ∉ b.replied ∧ "2" ∉ b.expired) = true := by decide +kernel
  obtain ⟨b, hb, hpending⟩ := (Option.any_eq_true _ _).mp hsome
  have hrun : Run (System.step roundRobinSettings noRepr) Steady
      (.create roundRobinSettings) deferred b := run_of_checked hb
  have hpending : "2" ∈ b.published ∧ "2" ∉ b.replied ∧ "2" ∉ b.expired :=
    of_decide_eq_true hpending
  exact ⟨b, hrun, hpending,
    every_pending_request_can_be_answered roundRobinSettings noRepr rfl (by decide) hrun⟩

/-- Whatever failed before, a consumer that stops and starts again can answer, alone and in five
steps for each, every request that was ready or unsettled. -/
theorem a_restart_can_answer_all_that_is_held (cfg : Settings) (repr : Json → PyStr)
    (hround : cfg.ROUTING_STRATEGY = .round_robin)
    (hone : ∀ server ∈ cfg.VLLM_SERVERS, 1 ≤ server.max_parallel_requests)
    (h : Run (System.step cfg repr) Any (.create cfg) es b)
    (hs : b.step cfg repr .stop = some b') :
    ∃ es' c, Run (System.step cfg repr) ByConsumer b' es' c ∧
      es'.length ≤ 5 * (b.ready.length + b.consumer.unsettled.length) ∧
      (∀ id, Held b id → id ∈ c.replied) ∧ Drained c := by
  have hrun : Run (System.step cfg repr) Any (.create cfg) (es ++ [.stop]) b' :=
    .snoc h trivial hs
  cases hs
  obtain ⟨es', c, hrun, hlen, hreplied, hdrained⟩ :=
    drains hround hone hrun (serving_of_create rfl)
  refine ⟨es', c, hrun, ?_, fun id hheld => hreplied id (.inl (.inl ?_)), hdrained⟩
  · have hwork : State.work (.create cfg) = 0 := rfl
    simpa [System.work, hwork] using hlen
  · rcases hheld with ⟨m, hm, hid⟩ | ⟨d, hd, hid⟩
    · exact ⟨m, List.mem_append_left _ hm, hid⟩
    · exact ⟨d.2, List.mem_append_right _ (List.mem_map_of_mem hd), hid⟩

/-- The publish of the answer raises, so the delivery stays unsettled up to the restart. -/
def unanswered : List SystemEvent :=
  [.call 0 "org" "any" "1" "reply", .consumer (.deliver .main (anyCall "1") 0),
    .consumer (.publish_raises 0)]

theorem a_restart_can_answer_an_unsettled_request : ∃ b b',
    Run (System.step roundRobinSettings noRepr) Any (.create roundRobinSettings) unanswered b ∧
    Unsettled b.consumer "1" ∧
    b.step roundRobinSettings noRepr .stop = some b' ∧
    ∃ es' c, Run (System.step roundRobinSettings noRepr) ByConsumer b' es' c ∧
      es'.length ≤ 5 * (b.ready.length + b.consumer.unsettled.length) ∧
      (∀ id, Held b id → id ∈ c.replied) ∧ Drained c := by
  have hsome : ((exec (System.step roundRobinSettings noRepr) (.create roundRobinSettings)
      unanswered).any fun b => b.consumer.unsettled.any fun d => d.2.id = "1") = true := by
    decide +kernel
  obtain ⟨b, hb, hunsettled⟩ := (Option.any_eq_true _ _).mp hsome
  obtain ⟨d, hd, hid⟩ := List.any_eq_true.mp hunsettled
  have hrun : Run (System.step roundRobinSettings noRepr) Any (.create roundRobinSettings)
      unanswered b := run_of_exec hb
  exact ⟨b, _, hrun, ⟨d, hd, of_decide_eq_true hid⟩, rfl,
    a_restart_can_answer_all_that_is_held roundRobinSettings noRepr rfl (by decide) hrun rfl⟩

end aristote_dispatcher.broker
