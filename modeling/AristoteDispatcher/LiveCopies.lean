-- One live copy of each request through all its deferrals. In runs without
-- failures or expiry, what the broker and the requeue tasks hold of a request
-- adds up to one copy before its reply, and to none after it.
import AristoteDispatcher.Ownership
import AristoteDispatcher.PrivateRouting

open runs places
open json (Json PyStr)
open aristote_dispatcher.settings aristote_dispatcher.messages
open aristote_dispatcher.strategy

namespace aristote_dispatcher.broker

open aristote_dispatcher.rpc_server

variable {cfg : Settings} {repr : Json → PyStr} {l l' : Logged System Entry} {b b' : System}
  {s s' : State} {es : List SystemEvent} {m : Message} {id : String}

/-- The copies of a request that are ready, delivered and not handed over, or held by a
requeue task. -/
def live (b : System) (id : String) : List Message :=
  (b.ready ++ b.consumer.notHandedOver.map (·.2) ++
    b.consumer.requeues.map fun t => t.call.new_msg).filter fun m => m.id = id

/-- The reply that an entry is, if it is one to the id. -/
def Entry.reply? (id : String) : Entry → Option Reply
  | .replied reply => if reply.correlation_id = id then some reply else none
  | .deferred _ => none

/-- The replies to a request. -/
def repliesTo (log : List Entry) (id : String) : List Reply := log.filterMap (Entry.reply? id)

theorem mem_repliesTo {log : List Entry} {reply : Reply} :
    reply ∈ repliesTo log id ↔ .replied reply ∈ log ∧ reply.correlation_id = id := by
  unfold repliesTo
  rw [List.mem_filterMap]
  constructor
  · rintro ⟨entry, hentry, hreply⟩
    cases entry with
    | deferred call => cases hreply
    | replied other =>
      obtain ⟨hid, heq⟩ := Option.ite_none_right_eq_some.mp hreply
      cases heq
      exact ⟨hentry, hid⟩
  · rintro ⟨hlog, hid⟩
    exact ⟨.replied reply, hlog, if_pos hid⟩

/-- No operation raises, the process goes on, and no message expires. -/
def Undisturbed (e : SystemEvent) : Prop := ¬Failure e ∧ ∀ i, e ≠ .expire i

/-! ## Where a request is -/

def unsettledOf (s : State) (id : String) : Nat := s.unsettled.countP fun d => d.2.id = id

/-- The tasks that have acked the request and not yet published its copy. -/
def sleepingOf (s : State) (id : String) : Nat :=
  s.requeues.countP fun t => t.acked = true ∧ t.call.message.id = id

/-- The callbacks that have answered the request and not yet acked it. -/
def confirmingOf (s : State) (id : String) : Nat :=
  s.callbacks.countP fun c => c.phase = .confirming ∧ c.message.id = id

/-- Each call is one request: it is ready, unsettled, with a task that sleeps, or answered, and
an answered one is unsettled up to its ack. -/
structure Conserved (l : Logged System Entry) (id : String) : Prop where
  total : l.state.ready.countP (fun m => m.id = id) + unsettledOf l.state.consumer id +
    sleepingOf l.state.consumer id + (repliesTo l.log id).length =
      l.state.published.count id + confirmingOf l.state.consumer id
  confirming : confirmingOf l.state.consumer id ≤ (repliesTo l.log id).length

theorem conserved_create (cfg : Settings) (id : String) :
    Conserved (.start (.create cfg)) id :=
  ⟨rfl, le_rfl⟩

/-- The copies that go out in an event. -/
theorem copies_of_operations (s : State) (e : Event) :
    (s.operations e).filterMap Operation.copy? =
      match e with
      | .requeue_publish i => (s.requeues[i]?.map fun t => t.call.new_msg).toList
      | _ => [] := by
  cases e with
  | publish i => cases h : s.callbacks[i]? <;> simp [State.operations, h, Operation.copy?]
  | ack i => cases h : s.callbacks[i]? <;> simp [State.operations, h, Operation.copy?]
  | requeue_ack i => cases h : s.requeues[i]? <;> simp [State.operations, h, Operation.copy?]
  | requeue_publish i => cases h : s.requeues[i]? <;> simp [State.operations, h, Operation.copy?]
  | _ => rfl

theorem repliesTo_append (log entries : List Entry) (id : String) :
    repliesTo (log ++ entries) id = repliesTo log id ++ repliesTo entries id :=
  List.filterMap_append

/-- The replies to the id that go out in an event: only the publish of a callback is one. -/
def answersTo (s : State) (id : String) : Event → List Reply
  | .publish i => ((s.callbacks[i]?.map Callback.reply).toList).filter
      fun reply => reply.correlation_id = id
  | _ => []

theorem repliesTo_entries (b : System) (e : Event) (id : String) :
    repliesTo (b.entries cfg (.consumer e)) id = answersTo b.consumer id e := by
  cases e with
  | deliver subscription message random =>
    refine List.filterMap_eq_nil_iff.mpr fun entry hentry => ?_
    obtain ⟨call, _, rfl⟩ := List.mem_map.mp hentry
    rfl
  | publish i =>
    cases hc : b.consumer.callbacks[i]? with
    | none => simp [System.entries, answersTo, hc, repliesTo]
    | some c =>
      by_cases hid : c.reply.correlation_id = id <;>
        simp [System.entries, answersTo, hc, repliesTo, Entry.reply?, hid]
  | _ => rfl

/-- A callback that a delivery starts has not answered yet. -/
theorem confirming_suspended (subscription : Subscription) (message : Message) (stop : Stop) :
    (suspended subscription message stop).countP
      (fun c => c.phase = .confirming ∧ c.message.id = id) = 0 := by
  cases stop <;> simp [suspended]

/-- A task that a delivery starts has not acked yet. -/
theorem sleeping_started (subscription : Subscription) (calls : List RequeueCall) :
    (calls.map fun call => RequeueTask.mk subscription call false).countP
      (fun t => t.acked = true ∧ t.call.message.id = id) = 0 := by
  refine List.countP_eq_zero.mpr fun t ht => ?_
  obtain ⟨call, _, rfl⟩ := List.mem_map.mp ht
  simp

/-- What an event of the consumer does to a request: delivered, it goes from hand to hand and
leaves as a copy, or with its answer. -/
structure Flows (s : State) (e : Event) (s' : State) (id : String) : Prop where
  total : (takes e).toList.countP (fun m => m.id = id) + unsettledOf s id + sleepingOf s id +
      confirmingOf s' id =
    unsettledOf s' id + sleepingOf s' id + confirmingOf s id +
      ((s.operations e).filterMap Operation.copy?).countP (fun m => m.id = id) +
      (answersTo s id e).length
  confirming : confirmingOf s' id ≤ confirmingOf s id + (answersTo s id e).length

/-- Nothing is delivered and nothing leaves where no hand changes. -/
theorem Flows.quiet {e : Event} (htakes : takes e = none) (hoperations : s.operations e = [])
    (hanswers : answersTo s id e = []) (hunsettled : s'.unsettled = s.unsettled)
    (hrequeues : s'.requeues = s.requeues)
    (hcallbacks : confirmingOf s' id = confirmingOf s id) : Flows s e s' id := by
  constructor
  · rw [htakes, hoperations, hanswers, hcallbacks]
    simp [unsettledOf, sleepingOf, hunsettled, hrequeues]
  · exact hcallbacks.le.trans (Nat.le_add_right _ _)

theorem flows_step {e : Event} (ho : Owned s) (hok : ¬Failure (.consumer e))
    (hs : s.step cfg repr e = some s') : Flows s e s' id := by
  cases moves_of_step hs with
  | deliver hq hfree =>
    rename_i subscription message random
    have htakes : (takes (.deliver subscription message random)).toList = [message] := rfl
    constructor
    · rw [htakes, copies_of_operations]
      simp only [answersTo, unsettledOf, sleepingOf, confirmingOf, State.deliver,
        List.countP_append, List.countP_singleton, confirming_suspended, sleeping_started,
        List.countP_nil, List.length_nil]
      omega
    · simp only [confirmingOf, State.deliver, List.countP_append, confirming_suspended]
      omega
  | publish hc hp =>
    rename_i i c
    have hset := countP_set_add (y := { c with phase := .confirming })
      (fun c => c.phase = .confirming ∧ c.message.id = id) hc
    have hanswers : (answersTo s id (.publish i)).length =
        if c.message.id = id then 1 else 0 := by
      rw [answersTo, hc, Option.map_some, Option.toList_some, List.filter_singleton]
      by_cases hid : c.message.id = id <;> simp [Callback.reply, hid]
    simp only [hp, reduceCtorEq, false_and, decide_false, Bool.false_eq_true, if_false,
      true_and, decide_eq_true_eq] at hset
    rw [← hanswers] at hset
    constructor
    · rw [copies_of_operations]
      simp only [takes, unsettledOf, sleepingOf, confirmingOf, State.goOn, Option.toList_none,
        List.countP_nil]
      omega
    · simp only [confirmingOf, State.goOn]
      omega
  | ack hc hp =>
    rename_i i c
    have hset := countP_set_add (y := { c with phase := .acked })
      (fun c => c.phase = .confirming ∧ c.message.id = id) hc
    have herase := countP_erase (fun d => d.2.id = id)
      (ho.mem_of_callback (List.mem_of_getElem? hc) (by simp [hp]))
    simp only [hp, reduceCtorEq, false_and, decide_false, Bool.false_eq_true, if_false,
      true_and, decide_eq_true_eq] at hset herase
    constructor
    · rw [copies_of_operations]
      simp only [takes, answersTo, unsettledOf, sleepingOf, confirmingOf, State.goOn,
        State.settle, Option.toList_none, List.countP_nil, List.length_nil]
      omega
    · simp only [confirmingOf, State.goOn, State.settle]
      omega
  | resume hc hp hserver =>
    have herase := countP_eraseIdx (fun c => c.phase = .confirming ∧ c.message.id = id) hc
    simp only [hp, reduceCtorEq, false_and, decide_false, Bool.false_eq_true, if_false] at herase
    refine .quiet rfl rfl rfl ?_ ?_ ?_
    · rw [unsettled_add]; rfl
    · rw [requeues_add]; rfl
    · simp only [confirmingOf, callbacks_add, State.finish]
      omega
  | resume_none hc hp hserver =>
    have herase := countP_eraseIdx (fun c => c.phase = .confirming ∧ c.message.id = id) hc
    simp only [hp, reduceCtorEq, false_and, decide_false, Bool.false_eq_true, if_false] at herase
    refine .quiet rfl rfl rfl rfl rfl ?_
    simp only [confirmingOf, State.finish]
    omega
  | requeue_ack ht hp =>
    rename_i i t
    have hset := countP_set_add (y := { t with acked := true })
      (fun t => t.acked = true ∧ t.call.message.id = id) ht
    have herase := countP_erase (fun d => d.2.id = id)
      (ho.mem_of_requeue (List.mem_of_getElem? ht) hp)
    simp only [hp, Bool.false_eq_true, false_and, decide_false, if_false, true_and,
      decide_eq_true_eq] at hset herase
    constructor
    · rw [copies_of_operations]
      simp only [takes, answersTo, unsettledOf, sleepingOf, confirmingOf, State.settle,
        Option.toList_none, List.countP_nil, List.length_nil]
      omega
    · exact Nat.le_add_right _ _
  | requeue_publish ht hp =>
    rename_i i t
    have herase := countP_eraseIdx (fun t => t.acked = true ∧ t.call.message.id = id) ht
    have hid : t.call.new_msg.id = t.call.message.id := rfl
    simp only [hp, true_and, decide_eq_true_eq] at herase
    constructor
    · rw [copies_of_operations]
      simp only [takes, answersTo, unsettledOf, sleepingOf, confirmingOf,
        State.finishRequeue, Option.toList_none, List.countP_nil, List.length_nil, ht,
        Option.map_some, Option.toList_some, List.countP_singleton, hid, decide_eq_true_eq]
      omega
    · exact Nat.le_add_right _ _
  | completion hfree => exact .quiet rfl rfl rfl rfl rfl rfl
  | expire ht =>
    refine .quiet rfl rfl rfl ?_ ?_ ?_
    · rw [unsettled_expire]
    · rw [requeues_expire]
    · simp only [confirmingOf, callbacks_expire]
  | strategy hstrategy => exact .quiet rfl rfl rfl rfl rfl rfl
  | _ => exact absurd trivial hok

/-- What is ready after an event: less what it takes, and what it publishes. -/
theorem countP_ready_after {e : Event} (p : Message → Bool)
    (hs : b.step cfg repr (.consumer e) = some b') :
    b'.ready.countP p + (takes e).toList.countP p =
      b.ready.countP p + ((b.consumer.operations e).filterMap Operation.copy?).countP p := by
  obtain ⟨htakes, hs⟩ := Option.ite_none_right_eq_some.mp hs
  obtain ⟨s', _, rfl⟩ := Option.map_eq_some_iff.mp hs
  simp only [System.after, List.countP_append]
  cases hm : takes e with
  | none => simp
  | some message =>
    have herase := countP_erase p (htakes message hm)
    simp only [Option.elim, Option.toList_some, List.countP_singleton]
    omega

theorem conserved_consumer {e : Event} (h : Conserved l id) (ho : Owned l.state.consumer)
    (hok : ¬Failure (.consumer e)) (hs : System.logged cfg repr l (.consumer e) = some l') :
    Conserved l' id := by
  obtain ⟨hstep, hlog⟩ := logged_eq_some hs
  have hready := countP_ready_after (fun m => m.id = id) hstep
  obtain ⟨s', hs', heq⟩ := consumer_step hstep
  have hconsumer : l'.state.consumer = s' := by rw [← heq]; rfl
  have hpublished : l'.state.published = l.state.published := by rw [← heq]; rfl
  obtain ⟨htotal, hconfirming⟩ := h
  have hflows : Flows l.state.consumer e s' id := flows_step ho hok hs'
  obtain ⟨hflow, hconf⟩ := hflows
  constructor
  · rw [hlog, repliesTo_append, repliesTo_entries, List.length_append, hconsumer, hpublished]
    omega
  · rw [hlog, repliesTo_append, repliesTo_entries, List.length_append, hconsumer]
    omega

/-! ## The live copies -/

theorem length_live (ho : Owned b.consumer) (id : String) :
    (live b id).length = b.ready.countP (fun m => m.id = id) + unsettledOf b.consumer id +
      sleepingOf b.consumer id := by
  have hunsettled := ho.countP_notHandedOver fun d => d.2.id = id
  have htasks := List.countP_eq_countP_filter_add b.consumer.requeues
    (fun t => t.call.message.id = id) fun t => t.acked = false
  have hhanded : b.consumer.handedOver.countP (fun d => d.2.id = id) =
      (b.consumer.requeues.filter fun t => t.acked = false).countP
        fun t => t.call.message.id = id := List.countP_map
  have hsleeping : (b.consumer.requeues.filter fun t => !decide (t.acked = false)).countP
      (fun t => t.call.message.id = id) = sleepingOf b.consumer id := by
    simp only [sleepingOf, List.countP_filter]
    refine List.countP_congr fun t _ => ?_
    simp [and_comm]
  have hlive : (live b id).length = b.ready.countP (fun m => m.id = id) +
      b.consumer.notHandedOver.countP (fun d => d.2.id = id) +
      b.consumer.requeues.countP fun t => t.call.message.id = id := by
    simp only [live, ← List.countP_eq_length_filter, List.countP_append, List.countP_map]
    rfl
  rw [hlive, unsettledOf]
  omega

theorem mem_live : m ∈ live b id ↔
    (m ∈ b.ready ∨ (∃ d ∈ b.consumer.notHandedOver, d.2 = m) ∨
      ∃ t ∈ b.consumer.requeues, t.call.new_msg = m) ∧ m.id = id := by
  simp only [live, List.mem_filter, List.mem_append, List.mem_map, decide_eq_true_eq, or_assoc]

/-- A live copy was one before, or is that of a task that a delivery starts. -/
theorem live_step {e : Event} (ho : Owned b.consumer) (hok : ¬Failure (.consumer e))
    (h : b.step cfg repr (.consumer e) = some b') (hm : m ∈ live b' id) :
    m ∈ live b id ∨ ∃ subscription message random call,
      e = .deliver subscription message random ∧
      call ∈ (b.consumer.segment cfg subscription message random).1.tasks ∧
      call.new_msg = m := by
  obtain ⟨s', hs, rfl⟩ := consumer_step h
  obtain ⟨hm, hid⟩ := mem_live.mp hm
  rcases hm with hm | ⟨d, hd, rfl⟩ | ⟨t, ht, rfl⟩
  · rcases ready_of_after hm with hm | ht
    · exact .inl (mem_live.mpr ⟨.inl hm, hid⟩)
    · exact .inl (mem_live.mpr ⟨.inr (.inr ht), hid⟩)
  · obtain ⟨hd', hnot⟩ := List.mem_filter.mp hd
    rcases unsettled_of_step hs hd' with hd | ⟨random, rfl⟩
    · refine .inl (mem_live.mpr ⟨.inr (.inl ⟨d, List.mem_filter.mpr ⟨hd, ?_⟩, rfl⟩), hid⟩)
      have hraises : ∀ i, e ≠ .requeue_ack_raises i := by
        rintro i rfl
        exact hok trivial
      have hnot : d ∉ s'.handedOver := of_decide_eq_true hnot
      exact decide_eq_true fun hmem => hnot (handedOver_step ho hs hraises hmem hd')
    · exact .inl (mem_live.mpr ⟨.inl (mem_ready_of_deliver h), hid⟩)
  · rcases requeue_of_step hs ht with ⟨t', ht', heq⟩ |
      ⟨subscription, message, random, rfl, call, hcall, rfl⟩
    · refine .inl (mem_live.mpr ⟨.inr (.inr ⟨t', ht', ?_⟩), hid⟩)
      rw [heq]
    · exact .inr ⟨subscription, message, random, call, rfl, hcall, rfl⟩

/-- What a deferral starts: one task, for the message that was delivered. -/
theorem tasks_of_mem {subscription : Subscription} {random : Nat} {call : RequeueCall}
    (h : call ∈ (s.segment cfg subscription m random).1.tasks) :
    (s.segment cfg subscription m random).1.tasks = [call] ∧ call.message = m := by
  obtain ⟨queue, servers, hhandled⟩ := segment_handled cfg s subscription m random
  cases hseg : (s.segment cfg subscription m random).1 with | mk tasks stop
  rw [hseg] at hhandled h
  cases hhandled with
  | deferred delay =>
    cases List.mem_singleton.mp h
    exact ⟨rfl, rfl⟩
  | _ => cases h

/-! ## The invariant -/

/-- Each request has its places, whatever its copies count. -/
structure Placed (cfg : Settings) (es : List SystemEvent) (l : Logged System Entry) : Prop where
  traced : Traced cfg es l
  owned : Owned l.state.consumer
  conserved : ∀ id, Conserved l id

/-- The count of each live copy, and of each reply, is that of the deferrals in the log. -/
structure Whole (cfg : Settings) (es : List SystemEvent) (l : Logged System Entry) : Prop
    extends Placed cfg es l where
  counted : ∀ id, ∀ m ∈ live l.state id, m.requeue_count = deferrals l.log id
  uncalled : ∀ id, id ∉ l.state.published → deferrals l.log id = 0
  replied : ∀ id, ∀ reply ∈ repliesTo l.log id,
    reply.llm_params.requeue_count = deferrals l.log id

theorem Placed.published_le (h : Placed cfg es l) (id : String) :
    l.state.published.count id ≤ 1 := by
  rw [h.traced.ids]
  exact List.nodup_iff_count_le_one.mp h.traced.nodup id

theorem Placed.confirming_le (h : Placed cfg es l) (id : String) :
    confirmingOf l.state.consumer id ≤ unsettledOf l.state.consumer id := by
  have hle := h.owned.owned fun d => d.2.id = id
  have hsub : confirmingOf l.state.consumer id ≤
      l.state.consumer.callbacks.countP (Callback.owns fun d => d.2.id = id) := by
    refine List.countP_mono_left fun c _ hc => ?_
    obtain ⟨hp, hid⟩ := of_decide_eq_true hc
    simp [Callback.owns, hp, hid]
  unfold unsettledOf
  omega

theorem Placed.published_of_ready (h : Placed cfg es l) (hm : m ∈ l.state.ready) :
    m.id ∈ l.state.published := by
  obtain ⟨r, hr, n, _, hcopy⟩ := h.traced.ready m hm
  rw [h.traced.ids, hcopy.id]
  exact List.mem_map_of_mem hr

/-- There is one live copy at most. -/
theorem Placed.live_le (h : Placed cfg es l) (id : String) : (live l.state id).length ≤ 1 := by
  have hlen := length_live h.owned id
  have htotal := (h.conserved id).total
  have hconfirming := (h.conserved id).confirming
  have hone := h.published_le id
  omega

theorem Placed.copy_of_live (h : Placed cfg es l) (hm : m ∈ live l.state id) :
    Called es l.log fun r n => Copy cfg.MODEL r n m := by
  rcases (mem_live.mp hm).1 with hm | ⟨d, hd, rfl⟩ | ⟨t, ht, rfl⟩
  · exact h.traced.ready m hm
  · exact h.traced.unsettled d (List.mem_of_mem_filter hd)
  · exact h.traced.requeues t ht

/-- A request that is ready is not answered. -/
theorem Placed.not_replied_of_ready (h : Placed cfg es l) (hm : m ∈ l.state.ready) :
    repliesTo l.log m.id = [] := by
  have hpos : 0 < l.state.ready.countP fun m' => m'.id = m.id :=
    List.countP_pos_iff.mpr ⟨m, hm, by simp⟩
  have hlen := length_live h.owned m.id
  have htotal := (h.conserved m.id).total
  have hle := h.confirming_le m.id
  have hone := h.published_le m.id
  rw [← List.length_eq_zero_iff]
  omega

theorem owned_system {e : SystemEvent} (ho : Owned b.consumer)
    (h : b.step cfg repr e = some b') : Owned b'.consumer := by
  cases e with
  | call priority organization routing_mode correlation_id reply_to =>
    obtain ⟨_, h⟩ := Option.ite_none_right_eq_some.mp h
    cases h
    exact ho
  | consumer e =>
    obtain ⟨s', hs, rfl⟩ := consumer_step h
    exact owned_step ho hs
  | expire i =>
    obtain ⟨message, _, rfl⟩ := Option.map_eq_some_iff.mp h
    exact ho
  | stop =>
    cases h
    exact owned_create cfg

theorem conserved_step {e : SystemEvent} (h : Conserved l id) (ho : Owned l.state.consumer)
    (hok : Undisturbed e) (hs : System.logged cfg repr l e = some l') : Conserved l' id := by
  cases e with
  | consumer e => exact conserved_consumer h ho hok.1 hs
  | call priority organization routing_mode correlation_id reply_to =>
    obtain ⟨b', log'⟩ := l'
    obtain ⟨hstep, rfl⟩ := logged_eq_some hs
    obtain ⟨_, hstep⟩ := Option.ite_none_right_eq_some.mp hstep
    cases hstep
    have htotal := h.total
    have hid : (call_message priority cfg.MODEL organization routing_mode correlation_id
        reply_to).id = correlation_id := rfl
    refine ⟨?_, ?_⟩
    · simp only [System.entries, List.append_nil, List.countP_append, List.countP_singleton, hid,
        decide_eq_true_eq, List.count_append, List.count_singleton, beq_iff_eq]
      omega
    · simpa only [System.entries, List.append_nil] using h.confirming
  | expire i => exact absurd rfl (hok.2 i)
  | stop => exact absurd trivial hok.1

/-- The deferral of a request: its one live copy is then that of the task. -/
theorem whole_deferral {subscription : Subscription} {random : Nat} {call : RequeueCall}
    (h : Whole cfg es l)
    (hcall : call ∈ (l.state.consumer.segment cfg subscription m random).1.tasks)
    (hs : System.logged cfg repr l (.consumer (.deliver subscription m random)) = some l')
    (hlen : (live l'.state m.id).length ≤ 1) :
    ∀ m' ∈ live l'.state m.id, m'.requeue_count = deferrals l'.log m.id := by
  obtain ⟨b', log'⟩ := l'
  obtain ⟨hstep, rfl⟩ := logged_eq_some hs
  obtain ⟨htasks, hmessage⟩ := tasks_of_mem hcall
  have hready := mem_ready_of_deliver hstep
  obtain ⟨s', hs', rfl⟩ := consumer_step hstep
  have hnew : call.new_msg ∈ live (l.state.after (.deliver subscription m random) s') m.id := by
    refine mem_live.mpr ⟨.inr (.inr ⟨⟨subscription, call, false⟩, ?_, rfl⟩), ?_⟩
    · cases moves_of_step hs' with
      | deliver hq hfree => exact List.mem_append_right _ (List.mem_map_of_mem hcall)
    · rw [← hmessage]
      rfl
  intro m' hm'
  have heq : m' = call.new_msg := by
    obtain ⟨one, hone⟩ := List.length_eq_one_iff.mp
      (le_antisymm hlen (List.length_pos_of_mem hnew))
    simp only [hone, List.mem_singleton] at hm' hnew
    rw [hm', hnew]
  have hold := h.counted m.id m (mem_live.mpr ⟨.inl hready, rfl⟩)
  have hlog : deferrals (l.state.entries cfg (.consumer (.deliver subscription m random))) m.id =
      1 := by
    simp [System.entries, htasks, deferrals, Entry.isDeferral, hmessage]
  rw [heq, requeue_count_new_msg, hmessage, hold, deferrals_append, hlog]
  rfl

theorem placed_step {e : SystemEvent} (h : Placed cfg es l) (hok : Undisturbed e)
    (hs : System.logged cfg repr l e = some l') : Placed cfg (es ++ [e]) l' :=
  ⟨traced_step h.traced hs, owned_system h.owned (logged_eq_some hs).1,
    fun id => conserved_step (h.conserved id) h.owned hok hs⟩

/-- The event defers the request. -/
def DefersId (cfg : Settings) (b : System) (id : String) (e : SystemEvent) : Prop :=
  ∃ subscription message random call, e = .consumer (.deliver subscription message random) ∧
    call ∈ (b.consumer.segment cfg subscription message random).1.tasks ∧ message.id = id

theorem deferrals_entries {e : SystemEvent} (h : ¬DefersId cfg b id e) :
    deferrals (b.entries cfg e) id = 0 := by
  refine List.countP_eq_zero.mpr fun entry hentry hdeferral => h ?_
  unfold System.entries at hentry
  split at hentry
  · rename_i subscription message random
    obtain ⟨call, hcall, rfl⟩ := List.mem_map.mp hentry
    refine ⟨subscription, message, random, call, rfl, hcall, ?_⟩
    rw [← (tasks_of_mem hcall).2]
    exact of_decide_eq_true hdeferral
  · obtain ⟨c, _, rfl⟩ := Option.map_eq_some_iff.mp (Option.mem_toList.mp hentry)
    cases hdeferral
  · cases hentry

/-- The counts of the live copies after a step that defers another request, or none. -/
theorem counted_step {e : SystemEvent} (h : Whole cfg es l) (hok : Undisturbed e)
    (hs : System.logged cfg repr l e = some l') (hnot : ¬DefersId cfg l.state id e) :
    ∀ m ∈ live l'.state id, m.requeue_count = deferrals l'.log id := by
  obtain ⟨b', log'⟩ := l'
  obtain ⟨hstep, rfl⟩ := logged_eq_some hs
  intro m hm
  rw [deferrals_append, deferrals_entries hnot, Nat.add_zero]
  cases e with
  | consumer e =>
    rcases live_step h.owned hok.1 hstep hm with hm | ⟨_, _, _, call, rfl, hcall, rfl⟩
    · exact h.counted id m hm
    · refine absurd ⟨_, _, _, call, rfl, hcall, ?_⟩ hnot
      rw [← (mem_live.mp hm).2, ← (tasks_of_mem hcall).2]
      rfl
  | call priority organization routing_mode correlation_id reply_to =>
    obtain ⟨⟨_, hnew, _⟩, hstep⟩ := Option.ite_none_right_eq_some.mp hstep
    cases hstep
    obtain ⟨hm, hid⟩ := mem_live.mp hm
    rcases hm with hm | hm
    · rcases List.mem_append.mp hm with hm | hm
      · exact h.counted id m (mem_live.mpr ⟨.inl hm, hid⟩)
      · -- the first copy of a new request, which was never deferred
        cases List.mem_singleton.mp hm
        subst hid
        have hzero : deferrals l.log correlation_id = 0 := h.uncalled correlation_id hnew
        exact (congrArg Nat.cast hzero).symm
    · exact h.counted id m (mem_live.mpr ⟨.inr hm, hid⟩)
  | expire i => exact absurd rfl (hok.2 i)
  | stop => exact absurd trivial hok.1

/-- A reply that a step logs carries the count of its request, which the step does not defer. -/
theorem replied_entries {e : SystemEvent} {reply : Reply} (h : Whole cfg es l)
    (hs : l.state.step cfg repr e = some b')
    (hreply : reply ∈ repliesTo (l.state.entries cfg e) id) :
    reply.llm_params.requeue_count = deferrals l.log id ∧ ¬DefersId cfg l.state id e := by
  obtain ⟨hlog, hid⟩ := mem_repliesTo.mp hreply
  unfold System.entries at hlog
  split at hlog
  · obtain ⟨call, _, heq⟩ := List.mem_map.mp hlog
    cases heq
  · rename_i i
    obtain ⟨c, hc, heq⟩ := Option.map_eq_some_iff.mp (Option.mem_toList.mp hlog)
    cases heq
    refine ⟨?_, ?_⟩
    · obtain ⟨s', hs', rfl⟩ := consumer_step hs
      cases moves_of_step hs' with
      | publish hc' hp =>
        rw [hc] at hc'
        cases hc'
        have hmem := List.mem_of_getElem? hc
        obtain ⟨r, _, n, _, hans⟩ := h.traced.callbacks c hmem
        have hheld := h.owned.notHandedOver_of_callback hmem (by simp [hp])
        have hcount := h.counted id c.message
          (mem_live.mpr ⟨.inr (.inl ⟨_, hheld, rfl⟩), hid⟩)
        exact (hans.requeue_count.trans hans.copy.requeue_count.symm).trans hcount
    · rintro ⟨_, _, _, _, heq, _⟩
      cases heq
  · cases hlog

theorem whole_step {e : SystemEvent} (h : Whole cfg es l) (hok : Undisturbed e)
    (hs : System.logged cfg repr l e = some l') : Whole cfg (es ++ [e]) l' := by
  have hplaced := placed_step h.toPlaced hok hs
  obtain ⟨hstep, hlog⟩ := logged_eq_some hs
  refine ⟨hplaced, fun id => ?_, fun id hnew => ?_, fun id reply hreply => ?_⟩
  · by_cases hdefers : DefersId cfg l.state id e
    · obtain ⟨_, _, _, _, rfl, hcall, rfl⟩ := hdefers
      exact whole_deferral h hcall hs (hplaced.live_le _)
    · exact counted_step h hok hs hdefers
  · have hnew' : id ∉ l.state.published := fun hid =>
      hnew ((published_step hstep).1 ▸ List.mem_append_left _ hid)
    have hnot : ¬DefersId cfg l.state id e := by
      rintro ⟨_, m, _, _, rfl, _, rfl⟩
      exact hnew' (h.published_of_ready (mem_ready_of_deliver hstep))
    rw [hlog, deferrals_append, h.uncalled id hnew', deferrals_entries hnot]
  · rw [hlog, repliesTo_append] at hreply
    rw [hlog, deferrals_append]
    rcases List.mem_append.mp hreply with hold | hnew
    · have hnot : ¬DefersId cfg l.state id e := by
        rintro ⟨_, m, _, _, rfl, _, rfl⟩
        rw [h.not_replied_of_ready (mem_ready_of_deliver hstep)] at hold
        cases hold
      rw [deferrals_entries hnot, Nat.add_zero]
      exact h.replied id reply hold
    · obtain ⟨hcount, hnot⟩ := replied_entries h hstep hnew
      rw [deferrals_entries hnot, Nat.add_zero]
      exact hcount

theorem whole_create (cfg : Settings) : Whole cfg [] (.start (.create cfg)) where
  traced := traced_create cfg
  owned := owned_create cfg
  conserved := conserved_create cfg
  counted := fun _ _ h => (by cases h)
  uncalled := fun _ _ => rfl
  replied := fun _ _ h => (by cases h)

/-! ## The law -/

/-- In every run without failures or expiry, a request that has no reply yet has exactly one live
copy, with its body, its id, its queue for the reply and its priority, which counts the
deferrals so far; and it has one reply at most, to its queue, which counts them too. -/
theorem a_request_has_one_live_copy (cfg : Settings) (repr : Json → PyStr)
    {es : List SystemEvent} {l : Logged System Entry}
    (h : Run (System.logged cfg repr) (fun _ e => Undisturbed e) (.start (.create cfg)) es l)
    {priority : UInt8} {organization routing_mode correlation_id reply_to : String}
    (hcall : .call priority organization routing_mode correlation_id reply_to ∈ es) :
    (repliesTo l.log correlation_id = [] → ∃ message,
      live l.state correlation_id = [message] ∧
      message.body = (call_message priority cfg.MODEL organization routing_mode correlation_id
        reply_to).body ∧
      message.correlation_id = some correlation_id ∧ message.reply_to = some reply_to ∧
      message.priority = some priority ∧
      message.requeue_count = deferrals l.log correlation_id) ∧
    (repliesTo l.log correlation_id = [] ∨ ∃ reply, repliesTo l.log correlation_id = [reply] ∧
      reply.routing_key = some reply_to ∧
      reply.llm_params.requeue_count = deferrals l.log correlation_id) := by
  have hw : Whole cfg es l := h.invariant_of_events (whole_create cfg)
    fun _ _ _ _ hi hok hs => whole_step hi hok hs
  obtain ⟨r, hr, hrequest⟩ : ∃ r ∈ requests es,
      r = Request.mk priority organization routing_mode correlation_id reply_to :=
    ⟨_, List.mem_filterMap.mpr ⟨_, hcall, rfl⟩, rfl⟩
  have hpublished : l.state.published.count correlation_id = 1 := by
    refine le_antisymm (hw.published_le _) (List.count_pos_iff.mpr ?_)
    rw [hw.traced.ids]
    exact List.mem_map.mpr ⟨r, hr, by rw [hrequest]⟩
  have hlen := length_live hw.owned correlation_id
  have htotal := (hw.conserved correlation_id).total
  have hconfirming := (hw.conserved correlation_id).confirming
  have hunsettled := hw.confirming_le correlation_id
  refine ⟨?_, ?_⟩
  · intro hnone
    rw [hnone, List.length_nil] at htotal hconfirming
    obtain ⟨message, hlive⟩ := List.length_eq_one_iff.mp
      (show (live l.state correlation_id).length = 1 by omega)
    have hmem : message ∈ live l.state correlation_id := by simp [hlive]
    obtain ⟨r', hr', n, _, hcopy⟩ := hw.copy_of_live hmem
    have hid : r'.correlation_id = r.correlation_id := by
      rw [← hcopy.id, (mem_live.mp hmem).2, hrequest]
    obtain rfl := hw.traced.eq_of_id hr' hr hid
    subst hrequest
    exact ⟨message, hlive, hcopy.body, hcopy.correlation_id, hcopy.reply_to, hcopy.priority,
      hw.counted _ message hmem⟩
  · cases hreplies : repliesTo l.log correlation_id with
    | nil => exact .inl rfl
    | cons reply others =>
      rw [hreplies, List.length_cons] at htotal
      obtain rfl := List.length_eq_zero_iff.mp (show others.length = 0 by omega)
      have hmem : reply ∈ repliesTo l.log correlation_id := by simp [hreplies]
      obtain ⟨hlog, hreply⟩ := mem_repliesTo.mp hmem
      obtain ⟨r', hr', n, _, c, hans, rfl⟩ := hw.traced.replied reply hlog
      have hid : r'.correlation_id = r.correlation_id := by
        rw [← hans.copy.id, hrequest]
        exact hreply
      obtain rfl := hw.traced.eq_of_id hr' hr hid
      subst hrequest
      exact .inr ⟨c.reply, rfl, hans.copy.reply_to, hw.replied _ c.reply hmem⟩

/-- A private-first call that is deferred twice, from the private queue and on the queue of the
model, and answered there. -/
theorem a_deferred_request_has_one_live_copy : ∃ l,
    Run (System.logged twoOrganizations noRepr) (fun _ e => Undisturbed e)
      (.start (.create twoOrganizations)) leavesItsOrganization l ∧
    (repliesTo l.log "2" = [] → ∃ message, live l.state "2" = [message] ∧
      message.body = (call_message 0 "model" "org" "private-first" "2" "reply").body ∧
      message.correlation_id = some "2" ∧ message.reply_to = some "reply" ∧
      message.priority = some 0 ∧ message.requeue_count = deferrals l.log "2") ∧
    (repliesTo l.log "2" = [] ∨ ∃ reply, repliesTo l.log "2" = [reply] ∧
      reply.routing_key = some "reply" ∧
      reply.llm_params.requeue_count = deferrals l.log "2") := by
  have hsome : (exec (System.logged twoOrganizations noRepr) (.start (.create twoOrganizations))
      leavesItsOrganization).isSome = true := by decide +kernel
  obtain ⟨l, hl⟩ := Option.isSome_iff_exists.mp hsome
  have hrun : Run (System.logged twoOrganizations noRepr) (fun _ e => Undisturbed e)
      (.start (.create twoOrganizations)) leavesItsOrganization l :=
    (run_of_exec hl).of_events (by
      simp [leavesItsOrganization, Undisturbed, Failure])
  exact ⟨l, hrun, a_request_has_one_live_copy twoOrganizations noRepr hrun (.tail _ (.head _))⟩

end aristote_dispatcher.broker
