-- How long a request waits. The time to live is that of one message in the queue of
-- the model: a private queue has none, and each deferral publishes a new message,
-- so a request outlives its deadline there and in the sleep of a deferral.
import AristoteDispatcher.Clock

open runs places
open json (Json PyStr)
open aristote_dispatcher.settings aristote_dispatcher.messages aristote_dispatcher.queues

namespace aristote_dispatcher.broker

open aristote_dispatcher.rpc_server

variable {cfg : Settings} {q : QueueSettings} {repr : Json → PyStr} {MESSAGE_TIMEOUT : Nat}
  {b b' : System} {c c' : Clocked} {m : Message}

/-! ## The ids of a system -/

/-- The ids of all messages in the system, wherever they are. -/
structure Everywhere (P : String → Prop) (b : System) : Prop where
  ready : ∀ m ∈ b.ready, P m.id
  unsettled : ∀ d ∈ b.consumer.unsettled, P d.2.id
  callbacks : ∀ c ∈ b.consumer.callbacks, P c.message.id
  requeues : ∀ t ∈ b.consumer.requeues, P t.call.message.id

theorem message_of_suspended {subscription : Subscription} {message : Message} {stop : Stop}
    {c : Callback} (h : c ∈ suspended subscription message stop) : c.message = message := by
  cases stop with
  | publishes server llm_params =>
    cases List.mem_singleton.mp h
    rfl
  | _ => cases h

/-- A deferral is one of the message that was delivered. -/
theorem message_of_task {s : State} {subscription : Subscription} {random : Nat}
    {call : RequeueCall} (h : call ∈ (s.segment cfg subscription m random).1.tasks) :
    call.message = m := by
  obtain ⟨queue, servers, hhandled⟩ := segment_handled cfg s subscription m random
  cases hseg : (s.segment cfg subscription m random).1 with | mk tasks stop
  rw [hseg] at h hhandled
  cases hhandled with
  | deferred delay =>
    cases List.mem_singleton.mp h
    rfl
  | _ => cases h

theorem everywhere_step {P : String → Prop} {e : SystemEvent} (h : Everywhere P b)
    (hs : b.step cfg repr e = some b') (hcall : ∀ id, e.call? = some id → P id) :
    Everywhere P b' := by
  cases e with
  | call priority organization routing_mode correlation_id reply_to =>
    obtain ⟨_, hs⟩ := Option.ite_none_right_eq_some.mp hs
    cases hs
    refine ⟨fun m hm => ?_, h.unsettled, h.callbacks, h.requeues⟩
    rcases List.mem_append.mp hm with hm | hm
    · exact h.ready m hm
    · cases List.mem_singleton.mp hm
      exact hcall correlation_id rfl
  | consumer e =>
    obtain ⟨s', hstep, rfl⟩ := consumer_step hs
    have hdelivered : ∀ {subscription : Subscription} {message : Message} {random : Nat},
        e = .deliver subscription message random → P message.id := by
      rintro subscription message random rfl
      exact h.ready _ (mem_ready_of_deliver hs)
    refine ⟨fun m hm => ?_, fun d hd => ?_, fun c hc => ?_, fun t ht => ?_⟩
    · rcases ready_of_after hm with hm | ⟨t, ht, rfl⟩
      · exact h.ready m hm
      · exact h.requeues t ht
    · rcases unsettled_of_step hstep hd with hd | ⟨random, he⟩
      · exact h.unsettled d hd
      · exact hdelivered he
    · rcases callback_of_step hstep hc with ⟨c', hc', heq⟩ | ⟨_, _, _, he, hc⟩
      · rw [heq]
        exact h.callbacks c' hc'
      · rw [message_of_suspended hc]
        exact hdelivered he
    · rcases requeue_of_step hstep ht with ⟨t', ht', heq⟩ | ⟨_, _, _, he, call, hcall', rfl⟩
      · rw [heq]
        exact h.requeues t' ht'
      · show P call.message.id
        rw [message_of_task hcall']
        exact hdelivered he
  | expire i =>
    obtain ⟨message, _, rfl⟩ := Option.map_eq_some_iff.mp hs
    exact ⟨fun m hm => h.ready m (List.mem_of_mem_eraseIdx hm), h.unsettled, h.callbacks,
      h.requeues⟩
  | stop =>
    cases hs
    refine ⟨fun m hm => ?_, fun _ hd => (by cases hd), fun _ hc => (by cases hc),
      fun _ ht => (by cases ht)⟩
    rcases List.mem_append.mp hm with hm | hm
    · exact h.ready m hm
    · obtain ⟨d, hd, rfl⟩ := List.mem_map.mp hm
      exact h.unsettled d hd

/-! ## A request past its deadline -/

/-- The message is the first one of a request that was published then to the queue of the
model: it did not come to a queue later. -/
def Clocked.First (cfg : Settings) (c : Clocked) (published : Nat) (m : Message) : Prop :=
  m.routing_key = cfg.MODEL ∧ ∀ a ∈ c.arrivals, a.1 = m → a.2 ≤ published

/-- Nothing of the request waits but its first message on the queue of the model: no copy, none
on a private queue, no deferral, and no answer that takes a slot is on its way. -/
structure Done (cfg : Settings) (c : Clocked) (r : String × Nat) : Prop where
  ready : ∀ m ∈ c.system.ready, m.id = r.1 → c.First cfg r.2 m
  requeues : ∀ t ∈ c.system.consumer.requeues, t.call.message.id ≠ r.1
  callbacks : ∀ d ∈ c.system.consumer.callbacks, d.message.id = r.1 → d.vllm_server = none

/-- When the clock passes the deadline of a request, nothing of it waits but its first message
on the queue of the model; and when the process ends, it has no other unsettled delivery of a
request past its deadline. -/
def InTime (cfg : Settings) (q : QueueSettings) (c : Clocked) : ClockedEvent → Prop
  | .tick n => ∀ r ∈ c.called, c.now ≤ r.2 + q.RPC_MESSAGE_EXPIRATION →
      r.2 + q.RPC_MESSAGE_EXPIRATION < c.now + n → Done cfg c r
  | .system .stop => ∀ r ∈ c.called, r.2 + q.RPC_MESSAGE_EXPIRATION < c.now →
      ∀ d ∈ c.system.consumer.unsettled, d.2.id = r.1 → c.First cfg r.2 d.2
  | _ => True

/-- What is past its deadline is not delivered. -/
theorem id_ne_of_lives {r : String × Nat} (h : Done cfg c r)
    (hover : r.2 + q.RPC_MESSAGE_EXPIRATION < c.now) (hm : m ∈ c.system.ready)
    (hlives : c.lives cfg q m = true) : m.id ≠ r.1 := by
  intro hid
  obtain ⟨hkey, hfirst⟩ := h.ready m hm hid
  rw [Clocked.lives, hkey, x_message_ttl_main, List.any_eq_true] at hlives
  obtain ⟨a, ha, hnow⟩ := hlives
  simp only [Bool.and_eq_true, decide_eq_true_eq] at hnow
  have hle := hfirst a ha hnow.1
  omega

/-- The messages that come to queues in an event are that of the call, or copies of deferred
requests. -/
theorem id_of_arrives {e : SystemEvent} (hm : m ∈ b.arrives cfg e) :
    e.call? = some m.id ∨ ∃ t ∈ b.consumer.requeues, t.call.message.id = m.id := by
  unfold System.arrives at hm
  split at hm
  · cases List.mem_singleton.mp hm
    exact .inl rfl
  · obtain ⟨o, ho, hcopy⟩ := List.mem_filterMap.mp hm
    obtain ⟨i, t, _, ht, rfl⟩ := task_of_copy ho hcopy
    exact .inr ⟨t, List.mem_of_getElem? ht, rfl⟩
  · cases hm

/-- A request stays done: nothing of it is delivered, so nothing of it is published again. -/
theorem done_step {e : SystemEvent} {r : String × Nat} (h : Done cfg c r)
    (hover : r.2 + q.RPC_MESSAGE_EXPIRATION < c.now) (hok : InTime cfg q c (.system e))
    (hr : r ∈ c.called) (hnew : ∀ id, e.call? = some id → id ≠ r.1)
    (hallows : c.allows cfg q e = true) (hs : c.system.step cfg repr e = some b') :
    Done cfg (c.after cfg e b') r := by
  have hfirst : ∀ {m : Message}, m.id = r.1 → c.First cfg r.2 m →
      (c.after cfg e b').First cfg r.2 m := by
    rintro m hid ⟨hkey, hle⟩
    refine ⟨hkey, fun a ha hm => ?_⟩
    rcases List.mem_append.mp ha with ha | ha
    · exact hle a ha hm
    · obtain ⟨m', hm', rfl⟩ := List.mem_map.mp ha
      obtain rfl : m' = m := hm
      rcases id_of_arrives hm' with hcall | ⟨t, ht, htid⟩
      · exact absurd hid (hnew _ hcall)
      · exact absurd (htid.trans hid) (h.requeues t ht)
  have hready : ∀ {m : Message}, m ∈ c.system.ready → m.id = r.1 →
      (c.after cfg e b').First cfg r.2 m := fun hm hid => hfirst hid (h.ready _ hm hid)
  cases e with
  | call priority organization routing_mode correlation_id reply_to =>
    obtain ⟨_, hs⟩ := Option.ite_none_right_eq_some.mp hs
    cases hs
    refine ⟨fun m hm hid => ?_, h.requeues, h.callbacks⟩
    rcases List.mem_append.mp hm with hm | hm
    · exact hready hm hid
    · cases List.mem_singleton.mp hm
      exact absurd hid (hnew correlation_id rfl)
  | consumer e =>
    obtain ⟨s', hstep, rfl⟩ := consumer_step hs
    have hdelivered : ∀ {subscription : Subscription} {message : Message} {random : Nat},
        e = .deliver subscription message random → message.id ≠ r.1 := by
      rintro subscription message random rfl
      exact id_ne_of_lives h hover (mem_ready_of_deliver hs) hallows
    refine ⟨fun m hm hid => ?_, fun t ht => ?_, fun d hd hid => ?_⟩
    · rcases ready_of_after hm with hm | ⟨t, ht, rfl⟩
      · exact hready hm hid
      · exact absurd hid (h.requeues t ht)
    · rcases requeue_of_step hstep ht with ⟨t', ht', heq⟩ | ⟨_, _, _, he, call, hcall', rfl⟩
      · rw [heq]
        exact h.requeues t' ht'
      · show call.message.id ≠ r.1
        rw [message_of_task hcall']
        exact hdelivered he
    · rcases callback_of_step hstep hd with ⟨d', hd', heq⟩ | ⟨_, _, _, he, hd⟩
      · rw [heq] at hid ⊢
        exact h.callbacks d' hd' hid
      · rw [message_of_suspended hd] at hid
        exact absurd hid (hdelivered he)
  | expire i =>
    obtain ⟨message, _, rfl⟩ := Option.map_eq_some_iff.mp hs
    exact ⟨fun m hm hid => hready (List.mem_of_mem_eraseIdx hm) hid, h.requeues, h.callbacks⟩
  | stop =>
    cases hs
    refine ⟨fun m hm hid => ?_, fun _ ht => (by cases ht), fun _ hd => (by cases hd)⟩
    rcases List.mem_append.mp hm with hm | hm
    · exact hready hm hid
    · obtain ⟨d, hd, rfl⟩ := List.mem_map.mp hm
      exact hfirst hid (hok r hr hover d hd hid)

/-! ## What every run in time keeps -/

/-- What happened to a request happened by its deadline. -/
def ByDeadline (q : QueueSettings) (c : Clocked) (happened : List (String × Nat)) : Prop :=
  ∀ h ∈ happened, ∃ t, (h.1, t) ∈ c.called ∧ h.2 ≤ t + q.RPC_MESSAGE_EXPIRATION

structure Timely (cfg : Settings) (q : QueueSettings) (MESSAGE_TIMEOUT : Nat) (c : Clocked) :
    Prop where
  ids : c.system.published = c.called.map Prod.fst
  nodup : (c.called.map Prod.fst).Nodup
  known : Everywhere (· ∈ c.system.published) c.system
  called : ∀ r ∈ c.called, r.2 ≤ c.now
  done : ∀ r ∈ c.called, r.2 + q.RPC_MESSAGE_EXPIRATION < c.now → Done cfg c r
  delivered : ByDeadline q c c.delivered
  granted : ByDeadline q c c.granted
  timed_out : ∀ u ∈ c.timed_out, ∃ t, (u.1, t) ∈ c.called ∧ t + 1000 * MESSAGE_TIMEOUT < u.2

theorem timely_create (cfg : Settings) (q : QueueSettings) (MESSAGE_TIMEOUT : Nat) :
    Timely cfg q MESSAGE_TIMEOUT (.create cfg) where
  ids := rfl
  nodup := List.nodup_nil
  known := ⟨fun _ h => (by cases h), fun _ h => (by cases h), fun _ h => (by cases h),
    fun _ h => (by cases h)⟩
  called := fun _ h => (by cases h)
  done := fun _ h => (by cases h)
  delivered := fun _ h => (by cases h)
  granted := fun _ h => (by cases h)
  timed_out := fun _ h => (by cases h)

theorem mem_called_after {e : SystemEvent} {r : String × Nat} (h : r ∈ c.called) :
    r ∈ (c.after cfg e b').called :=
  List.mem_append_left _ h

/-- What happens in a step happens to requests that are not past their deadline. -/
theorem byDeadline_after {e : SystemEvent} {happened : List (String × Nat)} {new : Option String}
    (h : ByDeadline q c happened)
    (hnew : ∀ id, new = some id → ∃ t, (id, t) ∈ c.called ∧ c.now ≤ t + q.RPC_MESSAGE_EXPIRATION) :
    ByDeadline q (c.after cfg e b') (happened ++ (new.map (·, c.now)).toList) := by
  intro x hx
  rcases List.mem_append.mp hx with hx | hx
  · obtain ⟨t, ht, hle⟩ := h x hx
    exact ⟨t, mem_called_after ht, hle⟩
  · obtain ⟨id, hid, rfl⟩ := Option.map_eq_some_iff.mp (Option.mem_toList.mp hx)
    obtain ⟨t, ht, hle⟩ := hnew id hid
    exact ⟨t, mem_called_after ht, hle⟩

/-- A request that is known was called, and is done if it is past its deadline. -/
theorem Timely.called_of_known (h : Timely cfg q MESSAGE_TIMEOUT c) {id : String}
    (hid : id ∈ c.system.published)
    (hnot : ∀ t, t + q.RPC_MESSAGE_EXPIRATION < c.now → ¬Done cfg c (id, t)) :
    ∃ t, (id, t) ∈ c.called ∧ c.now ≤ t + q.RPC_MESSAGE_EXPIRATION := by
  rw [h.ids] at hid
  obtain ⟨⟨_, t⟩, hr, rfl⟩ := List.mem_map.mp hid
  refine ⟨t, hr, ?_⟩
  by_contra hlt
  have hover : t + q.RPC_MESSAGE_EXPIRATION < c.now := by omega
  exact hnot t hover (h.done _ hr hover)

theorem timely_system {e : SystemEvent} (h : Timely cfg q MESSAGE_TIMEOUT c)
    (hok : InTime cfg q c (.system e)) (hallows : c.allows cfg q e = true)
    (hs : c.system.step cfg repr e = some b') :
    Timely cfg q MESSAGE_TIMEOUT (c.after cfg e b') := by
  obtain ⟨hpublished, hnew⟩ := published_step hs
  have hmem : ∀ {r : String × Nat}, r ∈ (c.after cfg e b').called →
      r ∈ c.called ∨ (e.call? = some r.1 ∧ r.2 = c.now) := by
    intro r hr
    rcases List.mem_append.mp hr with hr | hr
    · exact .inl hr
    · obtain ⟨id, hid, rfl⟩ := Option.map_eq_some_iff.mp (Option.mem_toList.mp hr)
      exact .inr ⟨hid, rfl⟩
  have hids : (c.after cfg e b').called.map Prod.fst = c.called.map Prod.fst ++ e.call?.toList := by
    cases hcall : e.call? <;> simp [Clocked.after, hcall]
  refine ⟨?_, ?_, ?_, ?_, ?_, ?_, ?_, ?_⟩
  · rw [hids, ← h.ids]
    exact hpublished
  · rw [hids]
    cases hcall : e.call? with
    | none => simpa using h.nodup
    | some id =>
      rw [← h.ids, List.nodup_append]
      refine ⟨h.ids ▸ h.nodup, List.nodup_singleton id, ?_⟩
      rintro _ hid _ hid' rfl
      cases List.mem_singleton.mp hid'
      exact hnew _ hcall hid
  · show Everywhere (· ∈ b'.published) b'
    rw [hpublished]
    refine everywhere_step ⟨?_, ?_, ?_, ?_⟩ hs fun id hid => ?_
    · exact fun m hm => List.mem_append_left _ (h.known.ready m hm)
    · exact fun d hd => List.mem_append_left _ (h.known.unsettled d hd)
    · exact fun d hd => List.mem_append_left _ (h.known.callbacks d hd)
    · exact fun t ht => List.mem_append_left _ (h.known.requeues t ht)
    · exact List.mem_append_right _ (by simp [hid])
  · intro r hr
    rcases hmem hr with hr | ⟨_, hnow⟩
    · exact h.called r hr
    · exact hnow.le
  · intro r hr hover
    rcases hmem hr with hr | ⟨_, hnow⟩
    · refine done_step (h.done r hr hover) hover hok hr (fun id hid heq => ?_) hallows hs
      refine hnew id hid ?_
      rw [h.ids, heq]
      exact List.mem_map_of_mem hr
    · have hlt : r.2 + q.RPC_MESSAGE_EXPIRATION < c.now := hover
      omega
  · refine byDeadline_after h.delivered fun id hid => ?_
    cases e with
    | consumer e =>
      cases e with
      | deliver subscription message random =>
        cases hid
        have hready := mem_ready_of_deliver hs
        exact h.called_of_known (h.known.ready _ hready) fun t hover hdone =>
          id_ne_of_lives hdone hover hready hallows rfl
      | _ => cases hid
    | _ => cases hid
  · refine byDeadline_after h.granted fun id hid => ?_
    cases e with
    | consumer e =>
      cases e with
      | resume i =>
        obtain ⟨d, hd, hserver⟩ := Option.bind_eq_some_iff.mp hid
        obtain ⟨server, hserver, rfl⟩ := Option.map_eq_some_iff.mp hserver
        have hcallback := List.mem_of_getElem? hd
        refine h.called_of_known (h.known.callbacks d hcallback) fun t _ hdone => ?_
        rw [hdone.callbacks d hcallback rfl] at hserver
        cases hserver
      | _ => cases hid
    | _ => cases hid
  · intro u hu
    obtain ⟨t, ht, hlt⟩ := h.timed_out u hu
    exact ⟨t, mem_called_after ht, hlt⟩

theorem timely_step {e : ClockedEvent} (h : Timely cfg q MESSAGE_TIMEOUT c)
    (hok : InTime cfg q c e) (hs : c.step cfg q repr MESSAGE_TIMEOUT e = some c') :
    Timely cfg q MESSAGE_TIMEOUT c' := by
  cases e with
  | tick n =>
    cases hs
    refine ⟨h.ids, h.nodup, h.known, fun r hr => ?_, fun r hr hover => ?_, h.delivered, h.granted,
      h.timed_out⟩
    · exact (h.called r hr).trans (Nat.le_add_right _ _)
    · by_cases hpast : r.2 + q.RPC_MESSAGE_EXPIRATION < c.now
      · obtain ⟨hready, hrequeues, hcallbacks⟩ := h.done r hr hpast
        exact ⟨hready, hrequeues, hcallbacks⟩
      · obtain ⟨hready, hrequeues, hcallbacks⟩ := hok r hr (Nat.le_of_not_lt hpast) hover
        exact ⟨hready, hrequeues, hcallbacks⟩
  | system e =>
    obtain ⟨hallows, hs⟩ := Option.ite_none_right_eq_some.mp hs
    obtain ⟨b', hb', rfl⟩ := Option.map_eq_some_iff.mp hs
    exact timely_system h hok hallows hb'
  | timeout id =>
    obtain ⟨hany, hs⟩ := Option.ite_none_right_eq_some.mp hs
    cases hs
    refine ⟨h.ids, h.nodup, h.known, h.called, fun r hr hover => ?_, h.delivered, h.granted, ?_⟩
    · obtain ⟨hready, hrequeues, hcallbacks⟩ := h.done r hr hover
      exact ⟨hready, hrequeues, hcallbacks⟩
    · intro u hu
      rcases List.mem_append.mp hu with hu | hu
      · exact h.timed_out u hu
      · cases List.mem_singleton.mp hu
        obtain ⟨⟨_, t⟩, hr, hr'⟩ := List.any_eq_true.mp hany
        simp only [Bool.and_eq_true, decide_eq_true_eq] at hr'
        obtain ⟨rfl, hlt⟩ := hr'
        exact ⟨t, hr, hlt⟩

/-- A private queue sets no deadline: whatever time passes, its request is delivered then. -/
theorem private_request_is_delivered_after_any_time {organization : String}
    {subscription : Subscription} (hm : m ∈ c.system.ready)
    (hkey : m.routing_key = private_queue cfg.MODEL organization)
    (hq : subscription.queue cfg = some m.routing_key)
    (hfree : ∀ d ∈ c.system.consumer.unsettled, d.1 ≠ subscription) (n random : Nat) :
    ∃ c', exec (Clocked.step cfg q repr MESSAGE_TIMEOUT) c
        [.tick n, .system (.consumer (.deliver subscription m random))] = some c' ∧
      (m.id, c.now + n) ∈ c'.delivered := by
  have hlives : Clocked.lives cfg q { c with now := c.now + n } m = true := by
    rw [Clocked.lives, hkey, x_message_ttl_private]
  have hdeliver : c.system.consumer.step cfg repr (.deliver subscription m random) =
      some (c.system.consumer.deliver cfg subscription m random) := if_pos ⟨hq, hfree⟩
  obtain ⟨b', hsystem⟩ : ∃ b',
      c.system.step cfg repr (.consumer (.deliver subscription m random)) = some b' :=
    ⟨_, by simp [System.step, takes, hm, hdeliver]; rfl⟩
  refine ⟨Clocked.after cfg { c with now := c.now + n }
    (.consumer (.deliver subscription m random)) b', ?_, ?_⟩
  · simp only [exec, Clocked.step, Clocked.allows, hlives, hsystem, Option.bind_some, if_true,
      Option.map_some]
  · simp [Clocked.after, SystemEvent.delivers?]

/-! ## The law -/

/-- Every request is delivered by its deadline, and gets no slot after its call returned
TIMEOUT. -/
structure OnTime (q : QueueSettings) (c : Clocked) : Prop where
  once : (c.called.map Prod.fst).Nodup
  delivered : ∀ id time, (id, time) ∈ c.delivered →
    ∃ t, (id, t) ∈ c.called ∧ time ≤ t + q.RPC_MESSAGE_EXPIRATION
  granted : ∀ id time, (id, time) ∈ c.granted → ∀ u, (id, u) ∈ c.timed_out → time < u

theorem eq_of_mem_called (h : (c.called.map Prod.fst).Nodup) {id : String} {t u : Nat}
    (ht : (id, t) ∈ c.called) (hu : (id, u) ∈ c.called) : t = u := by
  have hinj := List.inj_on_of_nodup_map h ht hu rfl
  exact congrArg Prod.snd hinj

/-- In every run that is in time, no request is delivered past its deadline, which is that of
its first message, and none gets a slot once its call returned TIMEOUT. -/
theorem requests_are_on_time_when_none_outlives_its_deadline (repr : Json → PyStr)
    (htimeout : q.RPC_MESSAGE_EXPIRATION ≤ 1000 * MESSAGE_TIMEOUT) {es : List ClockedEvent}
    (h : Run (Clocked.step cfg q repr MESSAGE_TIMEOUT) (InTime cfg q) (.create cfg) es c) :
    OnTime q c := by
  have htimely : Timely cfg q MESSAGE_TIMEOUT c :=
    h.invariant (timely_create cfg q MESSAGE_TIMEOUT) fun _ _ _ hi hok hs => timely_step hi hok hs
  refine ⟨htimely.nodup, fun id time hd => htimely.delivered _ hd, fun id time hg u hu => ?_⟩
  obtain ⟨t, ht, hle⟩ := htimely.granted _ hg
  obtain ⟨t', ht', hlt⟩ := htimely.timed_out _ hu
  cases eq_of_mem_called htimely.nodup ht ht'
  dsimp only at hle hlt
  omega

instance (cfg : Settings) (c : Clocked) (published : Nat) (m : Message) :
    Decidable (c.First cfg published m) :=
  inferInstanceAs (Decidable (_ ∧ _))

instance (cfg : Settings) (c : Clocked) (r : String × Nat) : Decidable (Done cfg c r) :=
  decidable_of_iff ((∀ m ∈ c.system.ready, m.id = r.1 → c.First cfg r.2 m) ∧
      (∀ t ∈ c.system.consumer.requeues, t.call.message.id ≠ r.1) ∧
      ∀ d ∈ c.system.consumer.callbacks, d.message.id = r.1 → d.vllm_server = none)
    ⟨fun h => ⟨h.1, h.2.1, h.2.2⟩, fun h => ⟨h.ready, h.requeues, h.callbacks⟩⟩

instance (cfg : Settings) (q : QueueSettings) (c : Clocked) (e : ClockedEvent) :
    Decidable (InTime cfg q c e) :=
  match e with
  | .tick n => inferInstanceAs (Decidable (∀ r ∈ c.called,
      c.now ≤ r.2 + q.RPC_MESSAGE_EXPIRATION → r.2 + q.RPC_MESSAGE_EXPIRATION < c.now + n →
        Done cfg c r))
  | .system .stop => inferInstanceAs (Decidable (∀ r ∈ c.called,
      r.2 + q.RPC_MESSAGE_EXPIRATION < c.now →
        ∀ d ∈ c.system.consumer.unsettled, d.2.id = r.1 → c.First cfg r.2 d.2))
  | .system (.call ..) | .system (.consumer _) | .system (.expire _) | .timeout _ =>
    inferInstanceAs (Decidable True)

/-- Of two requests one is answered, and one expires on the queue of the model. -/
def oneExpires : List ClockedEvent :=
  [.system (.call 0 "org" "any" "1" "reply"), .system (.call 0 "org" "any" "2" "reply"),
    .tick 1000, .system (.consumer (.deliver .main (anyCall "1") 0)),
    .system (.consumer (.publish 0)), .system (.consumer (.ack 0)),
    .system (.consumer (.resume 0)), .tick 600000, .system (.expire 0), .timeout "2"]

theorem two_requests_are_on_time : ∃ c,
    Run (Clocked.step roundRobinSettings defaultQueues noRepr 570)
      (InTime roundRobinSettings defaultQueues) (.create roundRobinSettings) oneExpires c ∧
    defaultQueues.RPC_MESSAGE_EXPIRATION ≤ 1000 * 570 ∧ OnTime defaultQueues c := by
  have hsome : (exec (checked (Clocked.step roundRobinSettings defaultQueues noRepr 570)
      (InTime roundRobinSettings defaultQueues)) (.create roundRobinSettings)
      oneExpires).isSome = true := by decide +kernel
  obtain ⟨c, hc⟩ := Option.isSome_iff_exists.mp hsome
  exact ⟨c, run_of_checked hc, by decide,
    requests_are_on_time_when_none_outlives_its_deadline noRepr (by decide) (run_of_checked hc)⟩

/-- A request for any server that waits until shortly before its deadline and is then deferred:
its copy is delivered at 580 seconds. -/
def deferredLate : List ClockedEvent :=
  [.system (.call 0 "org" "any" "1" "reply"), .system (.call 0 "org" "any" "2" "reply"),
    .tick 569000, .system (.consumer (.deliver .main (anyCall "1") 0)),
    .system (.consumer (.publish 0)), .system (.consumer (.ack 0)),
    .system (.consumer (.resume 0)), .system (.consumer (.deliver .main (anyCall "2") 0)),
    .system (.consumer (.requeue_ack 0)), .tick 10000, .system (.consumer (.requeue_publish 0)),
    .tick 1000,
    .system (.consumer (.deliver .main (RequeueCall.mk (anyCall "2") none none).new_msg 0))]

/-- A request on a private queue, which keeps it until its call returned TIMEOUT. -/
def keptPrivately : List ClockedEvent :=
  [.system (.call 0 "org" "private-only" "1" "reply"), .tick 600000, .timeout "1", .tick 1000,
    .system (.consumer (.deliver (.server_queue 0) (privateCall "1") 0)),
    .system (.consumer (.publish 0)), .system (.consumer (.ack 0)),
    .system (.consumer (.resume 0))]

/-- A copy is delivered past the deadline of its request, on the queue of the model too, and a
slot is given to a request whose call returned TIMEOUT. -/
theorem a_request_outlives_its_deadline :
    (¬∀ (cfg : Settings) (q : QueueSettings) (repr : Json → PyStr) (MESSAGE_TIMEOUT : Nat)
      (es : List ClockedEvent) (c : Clocked),
      q.RPC_MESSAGE_EXPIRATION = 1000 * MESSAGE_TIMEOUT →
      Run (Clocked.step cfg q repr MESSAGE_TIMEOUT) Any (.create cfg) es c →
      (∀ priority organization routing_mode id reply_to,
        .system (.call priority organization routing_mode id reply_to) ∈ es →
          routing_mode = "any") →
      ∀ id time, (id, time) ∈ c.delivered →
        ∃ t, (id, t) ∈ c.called ∧ time ≤ t + q.RPC_MESSAGE_EXPIRATION) ∧
    ¬∀ (cfg : Settings) (q : QueueSettings) (repr : Json → PyStr) (MESSAGE_TIMEOUT : Nat)
      (es : List ClockedEvent) (c : Clocked),
      q.RPC_MESSAGE_EXPIRATION = 1000 * MESSAGE_TIMEOUT →
      Run (Clocked.step cfg q repr MESSAGE_TIMEOUT) Any (.create cfg) es c →
      ∀ id time, (id, time) ∈ c.granted → ∀ u, (id, u) ∈ c.timed_out → time < u := by
  constructor
  · intro hall
    have hexec : ((exec (Clocked.step roundRobinSettings defaultQueues noRepr 570)
        (.create roundRobinSettings) deferredLate).map fun c => (c.called, c.delivered)) =
        some ([("1", 0), ("2", 0)], [("1", 569000), ("2", 569000), ("2", 580000)]) := by
      decide +kernel
    obtain ⟨c, hc, hpair⟩ := Option.map_eq_some_iff.mp hexec
    obtain ⟨hcalled, hdelivered⟩ := Prod.mk.inj hpair
    have hany : ∀ priority organization routing_mode id reply_to,
        .system (.call priority organization routing_mode id reply_to) ∈ deferredLate →
          routing_mode = "any" := by
      intro _ _ _ _ _ hmem
      simp only [deferredLate, List.mem_cons, List.not_mem_nil, or_false, reduceCtorEq,
        ClockedEvent.system.injEq, SystemEvent.call.injEq] at hmem
      rcases hmem with ⟨_, _, hmode, _⟩ | ⟨_, _, hmode, _⟩ <;> exact hmode
    obtain ⟨t, ht, hle⟩ := hall roundRobinSettings defaultQueues noRepr 570 _ c rfl
      (run_of_exec hc) hany "2" 580000 (by simp [hdelivered])
    obtain rfl : t = 0 := by simpa [hcalled] using ht
    exact absurd hle (by decide)
  · intro hall
    have hexec : ((exec (Clocked.step roundRobinSettings defaultQueues noRepr 570)
        (.create roundRobinSettings) keptPrivately).map fun c => (c.granted, c.timed_out)) =
        some ([("1", 601000)], [("1", 600000)]) := by decide +kernel
    obtain ⟨c, hc, hpair⟩ := Option.map_eq_some_iff.mp hexec
    obtain ⟨hgranted, htimed⟩ := Prod.mk.inj hpair
    have hlt := hall roundRobinSettings defaultQueues noRepr 570 _ c rfl (run_of_exec hc) "1"
      601000 (by simp [hgranted]) 600000 (by simp [htimed])
    omega

end aristote_dispatcher.broker
