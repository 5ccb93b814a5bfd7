-- How fast a request can be deferred (quality_of_service_policy/utils.py: `requeue`). A task
-- sleeps METRICS_REFRESH_RATE seconds between its ack and its publish, so the count of a request
-- says how long it has waited at least, whatever fails on the way.
import AristoteDispatcher.Deadlines

open runs places
open json (Json PyStr)
open aristote_dispatcher.settings aristote_dispatcher.messages
open aristote_dispatcher.policies aristote_dispatcher.strategy

namespace aristote_dispatcher.rpc_server

variable {cfg : Settings} {m : Message}

theorem task_of_letThrough {current : Requests} {server : VLLMServer}
    {indicator : Option pyfloat.PyFloat} {forwarded : Option Int} {queue : Option String}
    {delay : Option Nat} {segment : Segment} {call : RequeueCall}
    (h : letThrough cfg current server indicator forwarded ⟨m, queue, delay⟩ = .ok segment)
    (hcall : call ∈ segment.tasks) : call = ⟨m, queue, delay⟩ := by
  unfold letThrough at h
  split at h
  · cases h
  · split at h
    · cases h
    · rename_i tasks hp
      cases h
      rw [apply_policy_tasks hp] at hcall
      exact List.mem_singleton.mp hcall
    · rename_i tasks hp
      cases h
      rw [apply_policy_tasks hp] at hcall
      cases hcall

/-- Every deferral sleeps for one refresh. -/
theorem delay_of_task {s : State} {subscription : Subscription} {random : Nat}
    {call : RequeueCall} (h : call ∈ (s.segment cfg subscription m random).1.tasks) :
    call.delay = some cfg.METRICS_REFRESH_RATE := by
  cases subscription with
  | main =>
    simp only [State.segment, on_message_callback] at h
    split at h
    · rename_i hr
      unfold route at hr
      split at hr
      · cases hr
      · split at hr
        · cases hr
        · rw [task_of_letThrough hr h]
    · cases h
    · cases h
  | server_queue i =>
    simp only [State.segment, server_specific_callback] at h
    split at h
    · rename_i hr
      simp only [routePrivate, bind, Except.bind] at hr
      split at hr
      · cases hr
      · split at hr
        · cases hr
        · split at hr
          · cases hr
          · split at hr
            · cases hr
            · rw [task_of_letThrough hr h]
    · cases h

end aristote_dispatcher.rpc_server

namespace aristote_dispatcher.broker

open aristote_dispatcher.rpc_server

/-- A system and its clock, in milliseconds. Each requeue task stands with the time that it
started or, once it acked, the time of the ack. -/
structure Paced where
  system : System
  now : Nat
  since : List Nat
  called : List (String × Nat)

def Paced.create (cfg : Settings) : Paced := ⟨.create cfg, 0, [], []⟩

/-- Time passes, or the system goes on. -/
inductive PacedEvent
  | tick (n : Nat)
  | system (e : SystemEvent)

/-- The sleep of the task at that place is over. A delay is in seconds. -/
def Paced.isAwake (p : Paced) (i : Nat) : Bool :=
  p.system.consumer.requeues[i]?.all fun t => p.since[i]?.all fun time =>
    t.call.delay.all fun delay => time + 1000 * delay ≤ p.now

def Paced.allows (p : Paced) : SystemEvent → Bool
  | .consumer (.requeue_publish i) => p.isAwake i
  | .consumer (.requeue_publish_raises i) => p.isAwake i
  | _ => true

def Paced.sinceAfter (p : Paced) (requeues : List RequeueTask) : Event → List Nat
  | .requeue_ack i => p.since.set i p.now
  | .requeue_ack_raises i => p.since.eraseIdx i
  | .requeue_publish i => p.since.eraseIdx i
  | .requeue_publish_raises i => p.since.eraseIdx i
  | _ => p.since ++ (requeues.drop p.system.consumer.requeues.length).map fun _ => p.now

def Paced.after (p : Paced) (e : SystemEvent) (system : System) : Paced :=
  { p with
    system := system
    since :=
      match e with
      | .consumer e => p.sinceAfter system.consumer.requeues e
      | .stop => []
      | _ => p.since
    called := p.called ++ (e.call?.map (·, p.now)).toList }

def Paced.step (cfg : Settings) (repr : Json → PyStr) (p : Paced) : PacedEvent → Option Paced
  | .tick n => some { p with now := p.now + n }
  | .system e => if p.allows e then (p.system.step cfg repr e).map (p.after e) else none

/-- The replies that go out, with their times. -/
def Paced.entries (p : Paced) : PacedEvent → List (Reply × Nat)
  | .system (.consumer (.publish i)) =>
    (p.system.consumer.callbacks[i]?.map fun c => (c.reply, p.now)).toList
  | _ => []

/-- The machine that writes down its replies. -/
def Paced.logged (cfg : Settings) (repr : Json → PyStr) :
    Logged Paced (Reply × Nat) → PacedEvent → Option (Logged Paced (Reply × Nat)) :=
  runs.logged (Paced.step cfg repr) Paced.entries

variable {cfg : Settings} {repr : Json → PyStr} {p p' : Paced} {s s' : State} {b : System}
  {m : Message} {id : String} {count : Int} {time time' : Nat}

/-! ## What the clock says of a count -/

/-- The time is so late that the request can have been deferred so often. -/
def Paced.Spans (cfg : Settings) (p : Paced) (id : String) (count : Int) (time : Nat) : Prop :=
  ∃ t, (id, t) ∈ p.called ∧ (t : Int) + 1000 * cfg.METRICS_REFRESH_RATE * count ≤ time

theorem Paced.Spans.mono (h : p.Spans cfg id count time)
    (hcalled : ∀ r ∈ p.called, r ∈ p'.called) (hle : time ≤ time') :
    p'.Spans cfg id count time' := by
  obtain ⟨t, ht, hspan⟩ := h
  exact ⟨t, hcalled _ ht, by omega⟩

/-- One refresh later it can have been deferred once more. -/
theorem Paced.Spans.succ (h : p.Spans cfg id count time)
    (hle : time + 1000 * cfg.METRICS_REFRESH_RATE ≤ time') : p.Spans cfg id (count + 1) time' := by
  obtain ⟨t, ht, hspan⟩ := h
  refine ⟨t, ht, ?_⟩
  rw [Int.mul_add, Int.mul_one]
  omega

/-- A requeue task that stands with its time. -/
structure Paced.Rests (cfg : Settings) (p : Paced) (t : RequeueTask) (time : Nat) : Prop where
  past : time ≤ p.now
  delay : t.call.delay = some cfg.METRICS_REFRESH_RATE
  spans : p.Spans cfg t.call.message.id t.call.message.requeue_count time

structure Spaced (cfg : Settings) (p : Paced) : Prop where
  ids : p.called.map Prod.fst = p.system.published
  nodup : p.system.published.Nodup
  ready : ∀ m ∈ p.system.ready, p.Spans cfg m.id m.requeue_count p.now
  unsettled : ∀ d ∈ p.system.consumer.unsettled, p.Spans cfg d.2.id d.2.requeue_count p.now
  callbacks : ∀ c ∈ p.system.consumer.callbacks,
    p.Spans cfg c.message.id c.llm_params.requeue_count p.now
  requeues : List.Forall₂ (p.Rests cfg) p.system.consumer.requeues p.since

theorem spaced_create (cfg : Settings) : Spaced cfg (.create cfg) where
  ids := rfl
  nodup := List.nodup_nil
  ready := fun _ h => (by cases h)
  unsettled := fun _ h => (by cases h)
  callbacks := fun _ h => (by cases h)
  requeues := .nil

theorem spaced_tick (h : Spaced cfg p) (n : Nat) : Spaced cfg { p with now := p.now + n } := by
  have hspans : ∀ {id count}, p.Spans cfg id count p.now →
      Paced.Spans cfg { p with now := p.now + n } id count (p.now + n) := fun hs =>
    hs.mono (fun _ hr => hr) (Nat.le_add_right _ _)
  refine ⟨h.ids, h.nodup, fun m hm => hspans (h.ready m hm), fun d hd => hspans (h.unsettled d hd),
    fun c hc => hspans (h.callbacks c hc), h.requeues.imp fun t time ht => ?_⟩
  exact ⟨ht.past.trans (Nat.le_add_right _ _), ht.delay, ht.spans⟩

/-- The answer of a callback says how often the message was deferred. -/
theorem requeue_count_of_suspended {subscription : Subscription} {random : Nat} {c : Callback}
    (h : c ∈ suspended subscription m (s.segment cfg subscription m random).1.stop) :
    c.llm_params.requeue_count = m.requeue_count := by
  obtain ⟨queue, servers, hhandled⟩ := segment_handled cfg s subscription m random
  cases hseg : (s.segment cfg subscription m random).1 with | mk tasks stop
  rw [hseg] at h hhandled
  cases hhandled with
  | answered hs hurl horg hcount =>
    cases List.mem_singleton.mp h
    exact hcount
  | refused hrefuses hurl horg hcount =>
    cases List.mem_singleton.mp h
    exact hcount
  | _ => cases h

/-- The tasks of the consumer and their times go on together. -/
theorem rests_step {e : Event} {R R' : RequeueTask → Nat → Prop}
    (h : List.Forall₂ R p.system.consumer.requeues p.since)
    (hs : p.system.consumer.step cfg repr e = some s') (hmono : ∀ t time, R t time → R' t time)
    (hack : ∀ t time, R t time → R' { t with acked := true } p.now)
    (hnew : ∀ subscription message random, e = .deliver subscription message random →
      ∀ call ∈ (p.system.consumer.segment cfg subscription message random).1.tasks,
        R' ⟨subscription, call, false⟩ p.now) :
    List.Forall₂ R' s'.requeues (p.sinceAfter s'.requeues e) := by
  have hall : List.Forall₂ R' p.system.consumer.requeues p.since := h.imp hmono
  have hsame : s'.requeues = p.system.consumer.requeues →
      List.Forall₂ R' s'.requeues (p.since ++
        (s'.requeues.drop p.system.consumer.requeues.length).map fun _ => p.now) := by
    intro heq
    rw [heq, List.drop_length, List.map_nil, List.append_nil]
    exact hall
  cases moves_of_step hs with
  | @deliver subscription message random hq hfree =>
    simp only [Paced.sinceAfter, State.deliver, List.drop_left]
    refine List.rel_append hall ?_
    rw [List.map_map, List.forall₂_map_left_iff, List.forall₂_map_right_iff, List.forall₂_same]
    exact fun call hcall => hnew subscription message random rfl call hcall
  | requeue_ack ht hp =>
    obtain ⟨time, _, htime⟩ := getElem?_of_forall₂ h ht
    exact forall₂_set hall (hack _ time htime)
  | requeue_ack_raises ht hp => exact forall₂_eraseIdx hall
  | requeue_publish ht hp => exact forall₂_eraseIdx hall
  | requeue_publish_raises ht hp => exact forall₂_eraseIdx hall
  | resume hc hp hserver => exact hsame (requeues_add _ _)
  | expire ht => exact hsame (requeues_expire _ _)
  | _ => exact hsame rfl

/-- A copy that comes to a queue is that of a task whose sleep is over. -/
theorem spans_copy {e : Event} (h : Spaced cfg p) (hallows : p.allows (.consumer e) = true)
    (hm : m ∈ (p.system.consumer.operations e).filterMap Operation.copy?) :
    p.Spans cfg m.id m.requeue_count p.now := by
  obtain ⟨o, ho, hcopy⟩ := List.mem_filterMap.mp hm
  obtain ⟨i, t, rfl, ht, rfl⟩ := task_of_copy ho hcopy
  obtain ⟨time, htime, hrests⟩ := getElem?_of_forall₂ h.requeues ht
  simp only [Paced.allows, Paced.isAwake, ht, htime, hrests.delay, Option.all_some,
    decide_eq_true_eq] at hallows
  rw [requeue_count_new_msg]
  exact hrests.spans.succ hallows

theorem Paced.Spans.after (h : p.Spans cfg id count time) (e : SystemEvent) :
    (p.after e b).Spans cfg id count time :=
  h.mono (fun _ hr => List.mem_append_left _ hr) le_rfl

theorem spaced_consumer {e : Event} (h : Spaced cfg p) (hallows : p.allows (.consumer e) = true)
    (hs : p.system.consumer.step cfg repr e = some s')
    (hdelivered : ∀ subscription message random, e = .deliver subscription message random →
      message ∈ p.system.ready) :
    Spaced cfg (p.after (.consumer e) (p.system.after e s')) := by
  have hmessage : ∀ {subscription message random}, e = .deliver subscription message random →
      p.Spans cfg message.id message.requeue_count p.now := fun he =>
    h.ready _ (hdelivered _ _ _ he)
  refine ⟨?_, h.nodup, fun m hm => ?_, fun d hd => ?_, fun c hc => ?_, ?_⟩
  · simpa [Paced.after, SystemEvent.call?, System.after] using h.ids
  · rcases List.mem_append.mp hm with hm | hm
    · unfold takes at hm
      split at hm
      · exact (h.ready m (List.mem_of_mem_erase hm)).after _
      · exact (h.ready m hm).after _
    · exact (spans_copy h hallows hm).after _
  · rcases unsettled_of_step hs hd with hd | ⟨random, he⟩
    · exact (h.unsettled d hd).after _
    · exact (hmessage he).after _
  · rcases callback_of_step hs hc with ⟨c', hc', heq⟩ | ⟨_, _, _, he, hc⟩
    · rw [heq]
      exact (h.callbacks c' hc').after _
    · rw [message_of_suspended hc, requeue_count_of_suspended hc]
      exact (hmessage he).after _
  · refine rests_step h.requeues hs ?_ ?_ ?_
    · exact fun t time ht => ⟨ht.past, ht.delay, ht.spans.after _⟩
    · intro t time ht
      exact ⟨le_rfl, ht.delay, (ht.spans.mono (fun _ hr => hr) ht.past).after _⟩
    · intro subscription message random he call hcall
      refine ⟨le_rfl, delay_of_task hcall, ?_⟩
      rw [message_of_task hcall]
      exact (hmessage he).after _

theorem spaced_system {e : SystemEvent} (h : Spaced cfg p) (hallows : p.allows e = true)
    (hs : p.system.step cfg repr e = some b) : Spaced cfg (p.after e b) := by
  cases e with
  | call priority organization routing_mode correlation_id reply_to =>
    obtain ⟨⟨_, hnew, _⟩, hs⟩ := Option.ite_none_right_eq_some.mp hs
    cases hs
    refine ⟨?_, ?_, fun m hm => ?_, fun d hd => (h.unsettled d hd).after _,
      fun c hc => (h.callbacks c hc).after _,
      h.requeues.imp fun t time ht => ⟨ht.past, ht.delay, ht.spans.after _⟩⟩
    · simp [Paced.after, SystemEvent.call?, h.ids]
    · refine List.nodup_append.mpr ⟨h.nodup, List.nodup_singleton _, ?_⟩
      rintro id hid _ hlast rfl
      cases List.mem_singleton.mp hlast
      exact hnew hid
    · rcases List.mem_append.mp hm with hm | hm
      · exact (h.ready m hm).after _
      · cases List.mem_singleton.mp hm
        refine ⟨p.now, List.mem_append_right _ (List.mem_singleton_self _), ?_⟩
        simp [call_message, Message.requeue_count, Paced.after]
  | consumer e =>
    obtain ⟨s', hs', rfl⟩ := consumer_step hs
    refine spaced_consumer h hallows hs' ?_
    rintro subscription message random rfl
    exact mem_ready_of_deliver hs
  | expire i =>
    obtain ⟨message, _, rfl⟩ := Option.map_eq_some_iff.mp hs
    refine ⟨?_, h.nodup, fun m hm => (h.ready m (List.mem_of_mem_eraseIdx hm)).after _,
      fun d hd => (h.unsettled d hd).after _, fun c hc => (h.callbacks c hc).after _,
      h.requeues.imp fun t time ht => ⟨ht.past, ht.delay, ht.spans.after _⟩⟩
    simpa [Paced.after, SystemEvent.call?] using h.ids
  | stop =>
    cases hs
    refine ⟨?_, h.nodup, fun m hm => ?_, fun _ hd => (by cases hd), fun _ hc => (by cases hc),
      .nil⟩
    · simpa [Paced.after, SystemEvent.call?] using h.ids
    · rcases List.mem_append.mp hm with hm | hm
      · exact (h.ready m hm).after _
      · obtain ⟨d, hd, rfl⟩ := List.mem_map.mp hm
        exact (h.unsettled d hd).after _

theorem spaced_step {e : PacedEvent} (h : Spaced cfg p) (hs : p.step cfg repr e = some p') :
    Spaced cfg p' := by
  cases e with
  | tick n =>
    cases hs
    exact spaced_tick h n
  | system e =>
    obtain ⟨hallows, hs⟩ := Option.ite_none_right_eq_some.mp hs
    obtain ⟨b, hb, rfl⟩ := Option.map_eq_some_iff.mp hs
    exact spaced_system h hallows hb

/-! ## The law -/

/-- A request has one call. -/
theorem Spaced.le_of_spans (h : Spaced cfg p) (hspan : p.Spans cfg id count time) {t : Nat}
    (ht : (id, t) ∈ p.called) : (t : Int) + 1000 * cfg.METRICS_REFRESH_RATE * count ≤ time := by
  obtain ⟨u, hu, hle⟩ := hspan
  have hnodup : (p.called.map Prod.fst).Nodup := h.ids ▸ h.nodup
  have heq : (id, t) = (id, u) := List.inj_on_of_nodup_map hnodup ht hu rfl
  cases heq
  exact hle

/-- What is said of the replies that went out. -/
structure Spoken (cfg : Settings) (l : Logged Paced (Reply × Nat)) : Prop where
  spaced : Spaced cfg l.state
  replies : ∀ r ∈ l.log, l.state.Spans cfg r.1.correlation_id r.1.llm_params.requeue_count r.2

theorem called_step {e : PacedEvent} (hs : p.step cfg repr e = some p') :
    ∀ r ∈ p.called, r ∈ p'.called := by
  cases e with
  | tick n =>
    cases hs
    exact fun _ hr => hr
  | system e =>
    obtain ⟨_, hs⟩ := Option.ite_none_right_eq_some.mp hs
    obtain ⟨b, _, rfl⟩ := Option.map_eq_some_iff.mp hs
    exact fun r hr => List.mem_append_left _ hr

theorem spoken_step {l l' : Logged Paced (Reply × Nat)} {e : PacedEvent} (h : Spoken cfg l)
    (hs : Paced.logged cfg repr l e = some l') : Spoken cfg l' := by
  obtain ⟨p', log'⟩ := l'
  obtain ⟨hstep, rfl⟩ := logged_eq_some hs
  refine ⟨spaced_step h.spaced hstep, fun r hr => ?_⟩
  rcases List.mem_append.mp hr with hr | hr
  · exact (h.replies r hr).mono (called_step hstep) le_rfl
  · unfold Paced.entries at hr
    split at hr
    · obtain ⟨c, hc, rfl⟩ := Option.map_eq_some_iff.mp (Option.mem_toList.mp hr)
      exact (h.spaced.callbacks c (List.mem_of_getElem? hc)).mono (called_step hstep) le_rfl
    · cases hr

/-- In every run, whatever fails in it: a reply that says that its request was deferred so often
goes out that many refreshes after the call, or later. And what is ready, unsettled or about to
be answered has waited as long. -/
theorem each_deferral_takes_a_refresh (cfg : Settings) (repr : Json → PyStr)
    {es : List PacedEvent} {l : Logged Paced (Reply × Nat)}
    (h : Run (Paced.logged cfg repr) Any (.start (.create cfg)) es l) (id : String) (t : Nat)
    (ht : (id, t) ∈ l.state.called) :
    (∀ reply time, (reply, time) ∈ l.log → reply.correlation_id = id →
      (t : Int) + 1000 * cfg.METRICS_REFRESH_RATE * reply.llm_params.requeue_count ≤ time) ∧
    (∀ m, m ∈ l.state.system.ready ∨ m ∈ l.state.system.consumer.unsettled.map Prod.snd →
      m.id = id →
      (t : Int) + 1000 * cfg.METRICS_REFRESH_RATE * m.requeue_count ≤ l.state.now) ∧
    ∀ c ∈ l.state.system.consumer.callbacks, c.message.id = id →
      (t : Int) + 1000 * cfg.METRICS_REFRESH_RATE * c.llm_params.requeue_count ≤ l.state.now := by
  have hspoken : Spoken cfg l := h.invariant (I := Spoken cfg)
    ⟨spaced_create cfg, fun _ hr => (by cases hr)⟩ fun _ _ _ hi _ hs => spoken_step hi hs
  have hle : ∀ {id' count time}, l.state.Spans cfg id' count time → id' = id →
      (t : Int) + 1000 * cfg.METRICS_REFRESH_RATE * count ≤ time := by
    rintro id' count time hspan rfl
    exact hspoken.spaced.le_of_spans hspan ht
  refine ⟨fun reply time hr => hle (hspoken.replies _ hr), fun m hm => ?_, fun c hc =>
    hle (hspoken.spaced.callbacks c hc)⟩
  rcases hm with hm | hm
  · exact hle (hspoken.spaced.ready m hm)
  · obtain ⟨d, hd, rfl⟩ := List.mem_map.mp hm
    exact hle (hspoken.spaced.unsettled d hd)

/-- The second of two requests is deferred, and its copy is answered one refresh later. -/
def answeredLate : List PacedEvent :=
  deferred.map .system ++ [.tick 1000, .system (.consumer (.requeue_publish 0)),
    .system (.consumer (.expire 0)),
    .system (.consumer (.deliver .main (RequeueCall.mk (anyCall "2") none none).new_msg 0)),
    .system (.consumer (.publish 0))]

theorem a_deferred_request_is_answered_late : ∃ l reply,
    Run (Paced.logged roundRobinSettings noRepr) Any (.start (.create roundRobinSettings))
      answeredLate l ∧ (reply, 1000) ∈ l.log ∧ reply.correlation_id = "2" ∧
    reply.llm_params.requeue_count = 1 ∧ ("2", 0) ∈ l.state.called ∧
    ((0 : Nat) : Int) + 1000 * roundRobinSettings.METRICS_REFRESH_RATE *
      reply.llm_params.requeue_count ≤ (1000 : Nat) := by
  have hsome : ((exec (Paced.logged roundRobinSettings noRepr)
      (.start (.create roundRobinSettings)) answeredLate).any fun l =>
        (l.log.any fun r => r.1.correlation_id = "2" && r.1.llm_params.requeue_count = 1 &&
          r.2 = 1000) && l.state.called.contains ("2", 0)) = true := by decide +kernel
  obtain ⟨l, hl, hlog⟩ := (Option.any_eq_true _ _).mp hsome
  obtain ⟨hany, hcalled⟩ := Bool.and_eq_true_iff.mp hlog
  obtain ⟨⟨reply, time⟩, hr, hreply⟩ := List.any_eq_true.mp hany
  simp only [Bool.and_eq_true, decide_eq_true_eq] at hreply
  obtain ⟨⟨hid, hcount⟩, rfl⟩ := hreply
  have hcalled : ("2", 0) ∈ l.state.called := List.contains_iff_mem.mp hcalled
  exact ⟨l, reply, run_of_exec hl, hr, hid, hcount, hcalled,
    (each_deferral_takes_a_refresh roundRobinSettings noRepr (run_of_exec hl) "2" 0 hcalled).1
      reply 1000 hr hid⟩

end aristote_dispatcher.broker
