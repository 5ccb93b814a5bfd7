-- The broker beside one consumer: what is ready in its queues, and which calls
-- have an answer. A deferral acks the request, sleeps, and only then publishes
-- the copy, and in between the broker does not have it. The queues are those that
-- the consumer declares, and they are there as long as the broker is: `x-expires`
-- is left out, a message to another queue is never accepted, and a consumer that
-- ends starts again at once.
import AristoteDispatcher.ParallelLimit
import AristoteDispatcher.Queues

open runs places
open json (Json PyStr)
open aristote_dispatcher.settings aristote_dispatcher.messages
open aristote_dispatcher.policies aristote_dispatcher.strategy aristote_dispatcher.queues

namespace aristote_dispatcher.broker

open aristote_dispatcher.rpc_server

/-- A consumer and its broker. The broker also holds the unsettled deliveries. -/
structure System where
  consumer : State
  ready : List Message
  /-- The ids of all calls so far, of those with an answer, and of those that expired. -/
  published : List String
  replied : List String
  expired : List String

def System.create (cfg : Settings) : System := ⟨.create cfg, [], [], [], []⟩

/-- A call of a sender, a step of the consumer, the end of a message by its TTL, or the end of
the process of the consumer, which then starts again. -/
inductive SystemEvent
  | call (priority : UInt8) (organization routing_mode correlation_id reply_to : String)
  | consumer (e : Event)
  | expire (i : Nat)
  | stop

/-- The message that an event takes from its queue. -/
def takes : Event → Option Message
  | .deliver _ message _ => some message
  | _ => none

/-- The copy that an operation puts into a queue. -/
def Operation.copy? : Operation → Option Message
  | .republish message => some message
  | _ => none

/-- The id of the call that an operation answers. -/
def Operation.answer? : Operation → Option String
  | .reply message _ => some message.id
  | _ => none

/-- What the broker does with an event of the consumer. -/
def System.after (b : System) (e : Event) (consumer : State) : System :=
  { b with
    consumer := consumer
    ready := (takes e).elim b.ready b.ready.erase ++
      (b.consumer.operations e).filterMap Operation.copy?
    replied := b.replied ++ (b.consumer.operations e).filterMap Operation.answer? }

def System.step (cfg : Settings) (repr : Json → PyStr) (b : System) : SystemEvent → Option System
  | .call priority organization routing_mode correlation_id reply_to =>
    let message :=
      call_message priority cfg.MODEL organization routing_mode correlation_id reply_to
    -- each call makes an id of its own, and publishes to a queue that is declared
    if routing_mode ∈ routing_modes ∧ correlation_id ∉ b.published ∧
        message.routing_key ∈ queue_names cfg then
      some { b with
        ready := b.ready ++ [message]
        published := b.published ++ [correlation_id] }
    else none
  | .consumer e =>
    if ∀ message ∈ takes e, message ∈ b.ready then
      (b.consumer.step cfg repr e).map (b.after e)
    else none
  | .expire i => b.ready[i]?.map fun message =>
    { b with ready := b.ready.eraseIdx i, expired := b.expired ++ [message.id] }
  | .stop =>
    -- the unsettled deliveries go back to their queues
    some { b with
      consumer := .create cfg
      ready := b.ready ++ b.consumer.unsettled.map (·.2) }

variable {cfg : Settings} {repr : Json → PyStr} {s s' : State} {b b' : System}

theorem consumer_step {e : Event} (h : b.step cfg repr (.consumer e) = some b') :
    ∃ s', b.consumer.step cfg repr e = some s' ∧ b.after e s' = b' := by
  obtain ⟨_, h⟩ := Option.ite_none_right_eq_some.mp h
  exact Option.map_eq_some_iff.mp h

/-! ## Who has a request -/

/-- The broker holds a delivery of the request. -/
def Unsettled (s : State) (id : String) : Prop := ∃ d ∈ s.unsettled, d.2.id = id

/-- A requeue task that has acked the request and not yet published the copy. -/
def Sleeping (s : State) (id : String) : Prop :=
  ∃ t ∈ s.requeues, t.acked = true ∧ t.call.message.id = id

/-- A task that ends leaves every sleeping task but itself. -/
theorem sleeping_finish {i : Nat} {t : RequeueTask} {id : String}
    (ht : s.requeues[i]? = some t) (h : Sleeping s id) :
    Sleeping (s.finishRequeue i) id ∨ (t.acked = true ∧ t.call.message.id = id) := by
  obtain ⟨u, hu, hacked, hid⟩ := h
  by_cases heq : u = t
  · subst heq
    exact .inr ⟨hacked, hid⟩
  · exact .inl ⟨u, mem_eraseIdx_of_ne ht hu heq, hacked, hid⟩

/-- What a step of the consumer does with a request that is unsettled or sleeping: it stays
so, or its copy is published, or it was answered before this ack, or the publish fails. -/
theorem holder_step {e : Event} {id : String} (h : s.step cfg repr e = some s')
    (hold : Unsettled s id ∨ Sleeping s id) :
    (Unsettled s' id ∨ Sleeping s' id) ∨
    (∃ message, .republish message ∈ s.operations e ∧ message.id = id) ∨
    (∃ c ∈ s.callbacks, c.phase = .confirming ∧ c.message.id = id) ∨
    ∃ i, e = .requeue_publish_raises i := by
  cases moves_of_step h with
  | deliver hq hfree =>
    left
    rcases hold with ⟨d, hd, hid⟩ | ⟨t, ht, hacked, hid⟩
    · exact .inl ⟨d, List.mem_append_left _ hd, hid⟩
    · exact .inr ⟨t, List.mem_append_left _ ht, hacked, hid⟩
  | ack hc hp =>
    rename_i i c
    rcases hold with ⟨d, hd, hid⟩ | hsleep
    · by_cases heq : d = (c.subscription, c.message)
      · subst heq
        exact .inr (.inr (.inl ⟨c, List.mem_of_getElem? hc, hp, hid⟩))
      · exact .inl (.inl ⟨d, (List.mem_erase_of_ne heq).mpr hd, hid⟩)
    · exact .inl (.inr hsleep)
  | requeue_ack ht hp =>
    rename_i i t
    obtain ⟨hlt, _⟩ := List.getElem?_eq_some_iff.mp ht
    rcases hold with ⟨d, hd, hid⟩ | ⟨u, hu, hacked, hid⟩
    · by_cases heq : d = (t.subscription, t.call.message)
      · subst heq
        exact .inl (.inr ⟨_, List.mem_set hlt _, rfl, hid⟩)
      · exact .inl (.inl ⟨d, (List.mem_erase_of_ne heq).mpr hd, hid⟩)
    · refine .inl (.inr ⟨u, mem_set_of_ne ht hu ?_, hacked, hid⟩)
      rintro rfl
      rw [hp] at hacked
      cases hacked
  | requeue_ack_raises ht hp =>
    rcases hold with hu | hsleep
    · exact .inl (.inl hu)
    · rcases sleeping_finish ht hsleep with hsleep | ⟨hacked, _⟩
      · exact .inl (.inr hsleep)
      · rw [hp] at hacked
        cases hacked
  | requeue_publish ht hp =>
    rename_i i t
    rcases hold with hu | hsleep
    · exact .inl (.inl hu)
    · rcases sleeping_finish ht hsleep with hsleep | ⟨_, hid⟩
      · exact .inl (.inr hsleep)
      · exact .inr (.inl ⟨t.call.new_msg, by simp [State.operations, ht], hid⟩)
  | requeue_publish_raises ht hp => exact .inr (.inr (.inr ⟨_, rfl⟩))
  | resume hc hp hs =>
    left
    rw [Unsettled, Sleeping, unsettled_add, requeues_add]
    exact hold
  | expire ht =>
    left
    rw [Unsettled, Sleeping, unsettled_expire, requeues_expire]
    exact hold
  | _ => exact .inl hold

/-! ## No request is lost -/

/-- A call without an answer, which has not expired. -/
def Pending (b : System) (id : String) : Prop :=
  id ∈ b.published ∧ id ∉ b.replied ∧ id ∉ b.expired

/-- The request is ready in a queue, or delivered and not acked. -/
def Held (b : System) (id : String) : Prop :=
  (∃ message ∈ b.ready, message.id = id) ∨ Unsettled b.consumer id

/-- A callback acks after its answer, and a request that is pending is held by the broker or
by a task that is to publish its copy. -/
structure Kept (b : System) : Prop where
  answered : ∀ c ∈ b.consumer.callbacks, c.phase ≠ .publishing → c.message.id ∈ b.replied
  kept : ∀ id, Pending b id → Held b id ∨ Sleeping b.consumer id

theorem kept_create (cfg : Settings) : Kept (.create cfg) := by
  refine ⟨?_, ?_⟩
  · intro c hc
    cases hc
  · rintro id ⟨hid, _⟩
    cases hid

/-- The callbacks that have published: those from before the step, and the one that it lets
publish. -/
theorem answered_step {e : Event} (h : s.step cfg repr e = some s') {d : Callback}
    (hd : d ∈ s'.callbacks) (hp : d.phase ≠ .publishing) :
    (∃ c ∈ s.callbacks, c.phase ≠ .publishing ∧ c.message = d.message) ∨
      d.message.id ∈ (s.operations e).filterMap Operation.answer? := by
  have herase : ∀ {i : Nat}, d ∈ s.callbacks.eraseIdx i →
      (∃ c ∈ s.callbacks, c.phase ≠ .publishing ∧ c.message = d.message) ∨
        d.message.id ∈ (s.operations e).filterMap Operation.answer? :=
    fun hd => .inl ⟨d, List.mem_of_mem_eraseIdx hd, hp, rfl⟩
  cases moves_of_step h with
  | deliver hq hfree =>
    rename_i subscription message random
    rcases List.mem_append.mp hd with hd | hd
    · exact .inl ⟨d, hd, hp, rfl⟩
    · -- the new callback has not published yet
      unfold suspended at hd
      split at hd
      · cases List.mem_singleton.mp hd
        exact absurd rfl hp
      · cases hd
  | publish hc hphase =>
    rcases List.mem_or_eq_of_mem_set hd with hd | rfl
    · exact .inl ⟨d, hd, hp, rfl⟩
    · exact .inr (by simp [State.operations, hc, Operation.answer?])
  | ack hc hphase =>
    rename_i i c
    rcases List.mem_or_eq_of_mem_set hd with hd | rfl
    · exact .inl ⟨d, hd, hp, rfl⟩
    · exact .inl ⟨c, List.mem_of_getElem? hc, by rw [hphase]; simp, rfl⟩
  | publish_raises hc hphase => exact herase hd
  | ack_raises hc hphase => exact herase hd
  | resume_none hc hphase hs => exact herase hd
  | resume hc hphase hs =>
    rw [callbacks_add] at hd
    exact herase hd
  | expire ht =>
    rw [callbacks_expire] at hd
    exact .inl ⟨d, hd, hp, rfl⟩
  | _ => exact .inl ⟨d, hd, hp, rfl⟩

/-- What is ready stays ready or is delivered. -/
theorem held_of_ready {e : Event} {id : String} (h : b.consumer.step cfg repr e = some s')
    (hr : ∃ message ∈ b.ready, message.id = id) :
    Held (b.after e s') id := by
  obtain ⟨message, hm, hid⟩ := hr
  cases htakes : takes e with
  | none =>
    refine .inl ⟨message, ?_, hid⟩
    simp only [System.after, htakes]
    exact List.mem_append_left _ hm
  | some taken =>
    by_cases heq : message = taken
    · subst heq
      cases moves_of_step h with
      | deliver hq hfree =>
        cases htakes
        exact .inr ⟨_, List.mem_append_right _ (List.mem_singleton.mpr rfl), hid⟩
      | _ => cases htakes
    · refine .inl ⟨message, ?_, hid⟩
      simp only [System.after, htakes]
      exact List.mem_append_left _ ((List.mem_erase_of_ne heq).mpr hm)

theorem kept_after {e : Event} (hk : Kept b) (h : b.consumer.step cfg repr e = some s')
    (hdrop : ∀ i, e ≠ .requeue_publish_raises i) : Kept (b.after e s') := by
  refine ⟨?_, ?_⟩
  · intro c hc hp
    rcases answered_step h hc hp with ⟨d, hd, hdp, heq⟩ | hmem
    · exact List.mem_append_left _ (heq ▸ hk.answered d hd hdp)
    · exact List.mem_append_right _ hmem
  · rintro id ⟨hpub, hrep, hexp⟩
    have hrep' : id ∉ b.replied := fun h => hrep (List.mem_append_left _ h)
    have hholder : Unsettled b.consumer id ∨ Sleeping b.consumer id →
        Held (b.after e s') id ∨ Sleeping s' id := by
      intro hold
      rcases holder_step h hold with (hu | hs) | ⟨message, hm, hid⟩ | ⟨c, hc, hphase, rfl⟩ | ⟨i, hi⟩
      · exact .inl (.inr hu)
      · exact .inr hs
      · refine .inl (.inl ⟨message, List.mem_append_right _ ?_, hid⟩)
        exact List.mem_filterMap.mpr ⟨_, hm, rfl⟩
      · exact absurd (hk.answered c hc (by simp [hphase])) hrep'
      · exact absurd hi (hdrop i)
    rcases hk.kept id ⟨hpub, hrep', hexp⟩ with (hr | hu) | hs
    · exact .inl (held_of_ready h hr)
    · exact hholder (.inl hu)
    · exact hholder (.inr hs)

/-- The process ends, or an operation of the broker raises. -/
def Failure : SystemEvent → Prop
  | .stop => True
  | .consumer (.publish_raises _) => True
  | .consumer (.ack_raises _) => True
  | .consumer (.requeue_ack_raises _) => True
  | .consumer (.requeue_publish_raises _) => True
  | _ => False

instance (e : SystemEvent) : Decidable (Failure e) := by
  unfold Failure
  split <;> infer_instance

/-- No requeue task is between its ack and its publish. -/
def NoneSleeps (b : System) : Prop := ∀ t ∈ b.consumer.requeues, t.acked = false

instance (b : System) : Decidable (NoneSleeps b) :=
  inferInstanceAs (Decidable (∀ t ∈ b.consumer.requeues, t.acked = false))

/-- The failures strike only then. -/
def StrikesWhenNoneSleeps (b : System) (e : SystemEvent) : Prop := Failure e → NoneSleeps b

instance (b : System) (e : SystemEvent) : Decidable (StrikesWhenNoneSleeps b e) :=
  inferInstanceAs (Decidable (Failure e → NoneSleeps b))

theorem kept_step {e : SystemEvent} (hk : Kept b) (hok : StrikesWhenNoneSleeps b e)
    (h : b.step cfg repr e = some b') : Kept b' := by
  cases e with
  | call priority organization mode id reply_to =>
    obtain ⟨_, h⟩ := Option.ite_none_right_eq_some.mp h
    cases h
    refine ⟨hk.answered, ?_⟩
    rintro id' ⟨hpub, hrep, hexp⟩
    rcases List.mem_append.mp hpub with hpub | hpub
    · rcases hk.kept id' ⟨hpub, hrep, hexp⟩ with (⟨message, hm, hid⟩ | hu) | hs
      · exact .inl (.inl ⟨message, List.mem_append_left _ hm, hid⟩)
      · exact .inl (.inr hu)
      · exact .inr hs
    · cases List.mem_singleton.mp hpub
      exact .inl (.inl ⟨_, List.mem_append_right _ (List.mem_singleton.mpr rfl), rfl⟩)
  | consumer e =>
    obtain ⟨s', hs, rfl⟩ := consumer_step h
    apply kept_after hk hs
    rintro i rfl
    -- the task whose publish raises is one that sleeps
    cases moves_of_step hs with
    | requeue_publish_raises ht hp =>
      have hawake := hok trivial _ (List.mem_of_getElem? ht)
      rw [hp] at hawake
      cases hawake
  | expire i =>
    obtain ⟨message, hm, rfl⟩ := Option.map_eq_some_iff.mp h
    refine ⟨hk.answered, ?_⟩
    rintro id ⟨hpub, hrep, hexp⟩
    have hexp' : id ∉ b.expired := fun h => hexp (List.mem_append_left _ h)
    rcases hk.kept id ⟨hpub, hrep, hexp'⟩ with (⟨m, hmem, hid⟩ | hu) | hs
    · refine .inl (.inl ⟨m, mem_eraseIdx_of_ne hm hmem ?_, hid⟩)
      rintro rfl
      exact hexp (List.mem_append_right _ (List.mem_singleton.mpr hid.symm))
    · exact .inl (.inr hu)
    · exact .inr hs
  | stop =>
    cases h
    refine ⟨fun c hc => (by cases hc), ?_⟩
    intro id hpend
    rcases hk.kept id hpend with (⟨m, hmem, hid⟩ | ⟨d, hd, hid⟩) | ⟨t, ht, hacked, _⟩
    · exact .inl (.inl ⟨m, List.mem_append_left _ hmem, hid⟩)
    · exact .inl (.inl ⟨d.2, List.mem_append_right _ (List.mem_map_of_mem hd), hid⟩)
    · have hawake := hok trivial t ht
      rw [hacked] at hawake
      cases hawake

/-- A failure sends no task to sleep. -/
theorem noneSleeps_failure {e : SystemEvent} (hf : Failure e) (hn : NoneSleeps b)
    (h : b.step cfg repr e = some b') : NoneSleeps b' := by
  cases e with
  | call => cases hf
  | expire i => cases hf
  | stop =>
    cases h
    intro t ht
    cases ht
  | consumer e =>
    obtain ⟨s', hs, rfl⟩ := consumer_step h
    cases moves_of_step hs with
    | publish_raises hc hp => exact hn
    | ack_raises hc hp => exact hn
    | requeue_ack_raises ht hp => exact fun t ht => hn t (List.mem_of_mem_eraseIdx ht)
    | requeue_publish_raises ht hp => exact fun t ht => hn t (List.mem_of_mem_eraseIdx ht)
    | _ => cases hf

/-- In every run whose failures strike when no requeue task is between its ack and its
publish, each pending request is held by the broker or by a task that is to publish its copy,
and after each failure the broker holds them all. -/
theorem no_request_is_lost_when_none_sleeps (cfg : Settings) (repr : Json → PyStr)
    {es : List SystemEvent} {b : System}
    (h : Run (System.step cfg repr) StrikesWhenNoneSleeps (.create cfg) es b) :
    (∀ id, Pending b id → Held b id ∨ Sleeping b.consumer id) ∧
    ∀ e b', Failure e → StrikesWhenNoneSleeps b e → b.step cfg repr e = some b' →
      ∀ id, Pending b' id → Held b' id := by
  have hk : Kept b := h.invariant (kept_create cfg) fun _ _ _ hi hok hs => kept_step hi hok hs
  refine ⟨hk.kept, ?_⟩
  intro e b' hf hok hs id hpend
  rcases (kept_step hk hok hs).kept id hpend with hheld | ⟨t, ht, hacked, _⟩
  · exact hheld
  · have hawake := noneSleeps_failure hf (hok hf) hs t ht
    rw [hacked] at hawake
    cases hawake

/-- Two calls to a server that takes one request, up to the ack of the deferral. -/
def deferred : List SystemEvent :=
  [.call 0 "org" "any" "1" "reply", .call 0 "org" "any" "2" "reply",
    .consumer (.deliver .main (anyCall "1") 0), .consumer (.publish 0), .consumer (.ack 0),
    .consumer (.resume 0), .consumer (.deliver .main (anyCall "2") 0),
    .consumer (.requeue_ack 0)]

/-- The copy of the deferred request is published. -/
theorem a_deferred_request_is_kept : ∃ b,
    Run (System.step roundRobinSettings noRepr) StrikesWhenNoneSleeps (.create roundRobinSettings)
      (deferred ++ [.consumer (.requeue_publish 0), .stop]) b ∧
    (∀ id, Pending b id → Held b id ∨ Sleeping b.consumer id) ∧
    ∀ e b', Failure e → StrikesWhenNoneSleeps b e →
      b.step roundRobinSettings noRepr e = some b' → ∀ id, Pending b' id → Held b' id := by
  have hsome : (exec (checked (System.step roundRobinSettings noRepr) StrikesWhenNoneSleeps)
      (.create roundRobinSettings)
      (deferred ++ [.consumer (.requeue_publish 0), .stop])).isSome = true := by decide +kernel
  obtain ⟨b, hb⟩ := Option.isSome_iff_exists.mp hsome
  exact ⟨b, run_of_checked hb,
    no_request_is_lost_when_none_sleeps roundRobinSettings noRepr (run_of_checked hb)⟩

/-- The process stops while the deferral sleeps: the broker does not have the request. -/
theorem a_stop_loses_a_deferred_request :
    ¬∀ (cfg : Settings) (repr : Json → PyStr) (es : List SystemEvent) (b b' : System)
      (e : SystemEvent), Run (System.step cfg repr) Any (.create cfg) es b →
      Failure e → b.step cfg repr e = some b' → ∀ id, Pending b' id → Held b' id := by
  intro hall
  have hexec : ((exec (System.step roundRobinSettings noRepr) (.create roundRobinSettings)
      deferred).bind fun b => (b.step roundRobinSettings noRepr .stop).map fun b' =>
        (b'.published, b'.replied, b'.expired, b'.ready.isEmpty, b'.consumer.unsettled.isEmpty)) =
      some (["1", "2"], ["1"], [], true, true) := by decide +kernel
  obtain ⟨b, hb, hstop⟩ := Option.bind_eq_some_iff.mp hexec
  obtain ⟨b', hb', hpair⟩ := Option.map_eq_some_iff.mp hstop
  simp only [Prod.mk.injEq] at hpair
  obtain ⟨hpub, hrep, hexp, hready, hunsettled⟩ := hpair
  have hpend : Pending b' "2" := ⟨by simp [hpub], by simp [hrep], by simp [hexp]⟩
  rcases hall roundRobinSettings noRepr _ b b' .stop (run_of_exec hb) trivial hb' "2" hpend with
    ⟨m, hm, _⟩ | ⟨d, hd, _⟩
  · rw [List.isEmpty_iff.mp hready] at hm
    cases hm
  · rw [List.isEmpty_iff.mp hunsettled] at hd
    cases hd

end aristote_dispatcher.broker
