-- The limit of parallel requests. The policy reads the length of a set, and the
-- id joins the set two awaits later. So the limit holds while the callbacks that
-- are still on their way leave room too.
import AristoteDispatcher.DeclaredTypes

open pydict pyfloat json runs places
open aristote_dispatcher.settings aristote_dispatcher.messages aristote_dispatcher.histogram
open aristote_dispatcher.policies aristote_dispatcher.strategy

namespace aristote_dispatcher.rpc_server

variable {cfg : Settings} {repr : Json → PyStr} {s s' : State}

/-- The callbacks on their way to add an id to the set of the server. -/
def State.pending (s : State) (server : VLLMServer) : Nat :=
  s.callbacks.countP (·.vllm_server = some server)

/-! ## What an admission says -/

theorem letThrough_publishes {current : Requests} {server server' : VLLMServer}
    {indicator : Option PyFloat} {forwarded : Option Int} {call : RequeueCall} {segment : Segment}
    {llm_params : MessageData}
    (h : letThrough cfg current server indicator forwarded call = .ok segment)
    (hs : segment.stop = .publishes (some server') llm_params) :
    server' = server ∧ ∃ tasks, apply_policy cfg indicator (current.get server ∅).card
      server.max_parallel_requests call = .ok (true, tasks) := by
  unfold letThrough at h
  split at h
  · cases h
  · rename_i ids hids
    rw [get_of_lookup hids]
    split at h
    · cases h
    · cases h
      cases hs
    · rename_i tasks hp
      rw [message_data_declared] at h
      cases h
      cases hs
      exact ⟨rfl, tasks, hp⟩

/-- A delivery that is let through to a server was routed to it, and the policy agreed. -/
theorem segment_publishes {subscription : Subscription} {message : Message} {random : Nat}
    {server : VLLMServer} {llm_params : MessageData} (hp : Published cfg.MODEL message)
    (hq : subscription.queue cfg = some message.routing_key)
    (h : (s.segment cfg subscription message random).1.stop = .publishes (some server) llm_params) :
    ∃ (indicator : Option PyFloat) (call : RequeueCall) (tasks : List RequeueCall),
      chosen cfg s.strategy random subscription = .ok (server, indicator) ∧
      call.message = message ∧
      apply_policy cfg indicator (s.count server) server.max_parallel_requests call =
        .ok (true, tasks) := by
  cases subscription with
  | main =>
    simp only [State.segment, on_message_callback] at h
    cases hr : route cfg s.current_parallel_requests message
        (s.strategy.choose_server random).1 with
    | error e =>
      rw [hr] at h
      cases e <;> cases h
    | ok segment =>
      rw [hr] at h
      unfold route at hr
      split at hr
      · cases hr
      · rename_i target indicator hchosen
        split at hr
        · cases hr
        · obtain ⟨rfl, tasks, hpol⟩ := letThrough_publishes hr h
          exact ⟨indicator, _, tasks, hchosen, rfl, hpol⟩
  | server_queue i =>
    obtain ⟨own, hown, hkey⟩ := server_of_queue hq
    obtain ⟨data, queue, hread, hservers, hqueue⟩ := readMembers_of_private hp hkey.symm
    simp only [State.segment, server_specific_callback, routePrivate, hread, hservers, hqueue,
      bind, Except.bind] at h
    rw [chosen_private hown]
    split at h
    · rename_i segment hr
      split at hr
      · cases hr
      · split at hr
        · cases hr
        · rename_i pair hchosen
          obtain ⟨rfl, tasks, hpol⟩ := letThrough_publishes hr h
          exact ⟨pair.2, _, tasks, hchosen, rfl, hpol⟩
    · cases h

/-! ## The callbacks on their way -/

theorem pending_finish {i : Nat} {c : Callback} (h : s.callbacks[i]? = some c)
    (server : VLLMServer) : s.pending server =
      (s.finish i).pending server + if c.vllm_server = some server then 1 else 0 := by
  simpa [State.pending, State.finish] using countP_eraseIdx (fun c => c.vllm_server = some server) h

theorem pending_goOn {i : Nat} {c : Callback} (h : s.callbacks[i]? = some c) (phase : Phase)
    (server : VLLMServer) : (s.goOn i c phase).pending server = s.pending server := by
  unfold State.pending State.goOn
  exact countP_set_of_eq _ h rfl

theorem pending_deliver (cfg : Settings) (s : State) (subscription : Subscription)
    (message : Message) (random : Nat) (server : VLLMServer) :
    (s.deliver cfg subscription message random).pending server = s.pending server +
      (suspended subscription message (s.segment cfg subscription message random).1.stop).countP
        (·.vllm_server = some server) := by
  simp [State.pending, State.deliver, List.countP_append]

/-- Only a delivery that is let through to the server adds to what it holds or will hold. -/
theorem load_step {e : Event} (h : s.step cfg repr e = some s') (server : VLLMServer) :
    s'.count server + s'.pending server ≤ s.count server + s.pending server ∨
      ∃ subscription message random llm_params, e = .deliver subscription message random ∧
        subscription.queue cfg = some message.routing_key ∧
        (s.segment cfg subscription message random).1.stop =
          .publishes (some server) llm_params ∧
        s'.count server + s'.pending server = s.count server + s.pending server + 1 := by
  rcases ids_step h server with hsub | ⟨i, c, hc, hserver, rfl, hcallbacks, hids⟩
  · have hcount : s'.count server ≤ s.count server := Finset.card_le_card hsub
    cases moves_of_step h with
    | deliver hq hfree =>
      rename_i subscription message random
      rw [pending_deliver]
      cases hstop : (s.segment cfg subscription message random).1.stop with
      | publishes target llm_params =>
        by_cases ht : target = some server
        · subst ht
          refine .inr ⟨_, _, _, llm_params, rfl, hq, hstop, ?_⟩
          simp only [suspended, List.countP_singleton, decide_true, if_true]
          rfl
        · left
          simp only [suspended, List.countP_singleton, decide_eq_true_eq, if_neg ht]
          omega
      | _ =>
        left
        simp only [suspended, List.countP_nil]
        omega
    | publish hc hp =>
      have := pending_goOn hc .confirming server
      omega
    | ack hc hp =>
      rename_i i c
      have := pending_goOn (s := s.settle c.subscription c.message) (i := i) hc .acked server
      left
      exact Nat.add_le_add hcount this.le
    | publish_raises hc hp =>
      have := pending_finish hc server
      omega
    | ack_raises hc hp =>
      have := pending_finish hc server
      omega
    | resume_none hc hp hs =>
      have := pending_finish hc server
      omega
    | resume hc hp hs =>
      have := pending_finish hc server
      rename_i i c added
      have hadd : ((s.finish i).add added c.message.id).pending server =
          (s.finish i).pending server := by simp [State.pending]
      omega
    | expire ht =>
      rename_i i k id
      have hexp : (({ s with timers := s.timers.eraseIdx i } : State).expire k id).pending
          server = s.pending server := by simp [State.pending]
      omega
    | _ => exact .inl (Nat.add_le_add hcount le_rfl)
  · have hcard : s'.count server ≤ s.count server + 1 := by
      unfold State.count
      rw [hids]
      exact Finset.card_insert_le _ _
    have hpend := pending_finish hc server
    rw [if_pos hserver] at hpend
    have hsame : s'.pending server = (s.finish i).pending server := by
      simp only [State.pending, hcallbacks, State.finish]
    omega

/-! ## The law -/

/-- The messages that are delivered are those of calls with a priority that earns no place
beyond the limit. -/
def Ordinary (cfg : Settings) : Event → Prop
  | .deliver _ message _ => Published cfg.MODEL message ∧
      ∀ p, message.priority = some p → (p.toNat : Int) < cfg.BEST_PRIORITY - 1
  | _ => True

/-- When the set of the chosen server has a free place, the callbacks on their way to that
set leave one too. -/
def LeavesRoom (cfg : Settings) (s : State) : Event → Prop
  | .deliver subscription _ random => ∀ server indicator,
      chosen cfg s.strategy random subscription = .ok (server, indicator) →
      (s.count server : Int) < server.max_parallel_requests →
      ((s.count server + s.pending server : Nat) : Int) < server.max_parallel_requests
  | _ => True

/-- No server holds more requests than it may, nor will when the callbacks end. -/
def WithinLimit (cfg : Settings) (s : State) : Prop :=
  ∀ server ∈ cfg.VLLM_SERVERS,
    ((s.count server + s.pending server : Nat) : Int) ≤ server.max_parallel_requests

theorem withinLimit_create (cfg : Settings)
    (hmax : ∀ server ∈ cfg.VLLM_SERVERS, 0 ≤ server.max_parallel_requests) :
    WithinLimit cfg (.create cfg) := by
  intro server hs
  have hcount : (State.create cfg).count server = 0 := by simp [State.count, ids_create]
  have hpending : (State.create cfg).pending server = 0 := rfl
  rw [hcount, hpending]
  exact hmax server hs

theorem withinLimit_step {e : Event}
    (hpol : cfg.QUALITY_OF_SERVICE_POLICY = .parallel_requests_threshold_requeue)
    (h : WithinLimit cfg s) (hord : Ordinary cfg e) (hroom : LeavesRoom cfg s e)
    (hs : s.step cfg repr e = some s') : WithinLimit cfg s' := by
  intro server hserver
  rcases load_step hs server with hle | ⟨subscription, message, random, params, rfl, hq, hseg, heq⟩
  · have := h server hserver
    omega
  · obtain ⟨indicator, call, tasks, hchosen, rfl, happly⟩ := segment_publishes hord.1 hq hseg
    have hfree := free_place_of_threshold hpol hord.2 happly
    have := hroom server indicator hchosen hfree
    omega

/-- With the threshold policy, no server ever counts more requests than it takes, in every run
in which no delivery slips in before the ids of the earlier ones are added. -/
theorem the_limit_holds_while_deliveries_leave_room (cfg : Settings) (repr : Json → PyStr)
    (hpol : cfg.QUALITY_OF_SERVICE_POLICY = .parallel_requests_threshold_requeue)
    (hmax : ∀ server ∈ cfg.VLLM_SERVERS, 0 ≤ server.max_parallel_requests)
    {es : List Event} {s : State}
    (h : Run (State.step cfg repr) (fun s e => Ordinary cfg e ∧ LeavesRoom cfg s e)
      (State.create cfg) es s) :
    ∀ server ∈ cfg.VLLM_SERVERS, (s.count server : Int) ≤ server.max_parallel_requests := by
  have hinv : WithinLimit cfg s := h.invariant (withinLimit_create cfg hmax)
    fun _ _ _ hi hok hs => withinLimit_step hpol hi hok.1 hok.2 hs
  intro server hs
  have := hinv server hs
  omega

/-- Round robin, with the threshold policy. -/
def roundRobinSettings : Settings :=
  oneServerSettings .round_robin .parallel_requests_threshold_requeue

theorem ordinary_anyCall (subscription : Subscription) (id : String) (random : Nat) :
    Ordinary roundRobinSettings (.deliver subscription (anyCall id) random) := by
  refine ⟨published_anyCall id, ?_⟩
  intro p hp
  cases hp
  decide

theorem ordinary_privateCall (subscription : Subscription) (id : String) (random : Nat) :
    Ordinary roundRobinSettings (.deliver subscription (privateCall id) random) := by
  refine ⟨published_privateCall id, ?_⟩
  intro p hp
  cases hp
  decide

theorem leavesRoom_of_nobody {e : Event} (h : s.callbacks = []) : LeavesRoom cfg s e := by
  cases e with
  | deliver subscription message random =>
    intro server indicator _ hfree
    simpa [State.pending, h] using hfree
  | _ => trivial

/-- A request is served, a second one finds its server full and is deferred, and a third one comes
when the timer of the first has fired. -/
def aroundADeferral : List Event :=
  [.deliver .main (anyCall "1") 0, .publish 0, .ack 0, .resume 0,
    .deliver .main (anyCall "2") 0, .requeue_ack 0, .requeue_publish 0, .expire 0,
    .deliver (.server_queue 0) (privateCall "3") 0, .publish 0, .ack 0, .resume 0]

/-- The events that come with no callback on its way. -/
def isDelivery : Event → Bool
  | .deliver .. => true
  | _ => false

theorem the_limit_holds_around_a_deferral : ∃ s,
    Run (State.step roundRobinSettings noRepr)
      (fun s e => Ordinary roundRobinSettings e ∧ LeavesRoom roundRobinSettings s e)
      (State.create roundRobinSettings) aroundADeferral s ∧
    s.count ⟨"http://a", none, "org", 1⟩ = 1 ∧
    ∀ server ∈ roundRobinSettings.VLLM_SERVERS,
      (s.count server : Int) ≤ server.max_parallel_requests := by
  have hexec : ((exec (checked (State.step roundRobinSettings noRepr)
      fun s e => isDelivery e = true → s.callbacks = []) (State.create roundRobinSettings)
      aroundADeferral).map fun s => s.count ⟨"http://a", none, "org", 1⟩) = some 1 := by
    decide +kernel
  obtain ⟨s, hs, hcount⟩ := Option.map_eq_some_iff.mp hexec
  have hordinary : ∀ e ∈ aroundADeferral, Ordinary roundRobinSettings e := by
    simp only [aroundADeferral, List.forall_mem_cons]
    exact ⟨ordinary_anyCall _ _ _, trivial, trivial, trivial, ordinary_anyCall _ _ _, trivial,
      trivial, trivial, ordinary_privateCall _ _ _, trivial, trivial, trivial, by simp⟩
  have hrun : Run (State.step roundRobinSettings noRepr)
      (fun s e => Ordinary roundRobinSettings e ∧ LeavesRoom roundRobinSettings s e)
      (State.create roundRobinSettings) aroundADeferral s := by
    refine ((run_of_checked hs).and_events hordinary).weaken fun s e h => ⟨h.2, ?_⟩
    cases e with
    | deliver subscription message random => exact leavesRoom_of_nobody (h.1 rfl)
    | _ => trivial
  exact ⟨s, hrun, hcount,
    the_limit_holds_while_deliveries_leave_room roundRobinSettings noRepr rfl (by decide) hrun⟩

/-- A request on the queue of the model and one on the private queue, which comes before the
id of the first is added: a server that takes one request has two. -/
theorem two_deliveries_exceed_the_limit :
    ¬∀ (cfg : Settings) (repr : Json → PyStr) (es : List Event) (s : State),
      cfg.QUALITY_OF_SERVICE_POLICY = .parallel_requests_threshold_requeue →
      (∀ server ∈ cfg.VLLM_SERVERS, 0 ≤ server.max_parallel_requests) →
      Run (State.step cfg repr) (fun _ e => Ordinary cfg e) (State.create cfg) es s →
      ∀ server ∈ cfg.VLLM_SERVERS, (s.count server : Int) ≤ server.max_parallel_requests := by
  intro hall
  have hexec : ((exec (State.step roundRobinSettings noRepr) (State.create roundRobinSettings)
      [.deliver .main (anyCall "1") 0, .deliver (.server_queue 0) (privateCall "2") 0,
        .publish 0, .ack 0, .resume 0, .publish 0, .ack 0, .resume 0]).map fun s =>
          s.count ⟨"http://a", none, "org", 1⟩) = some 2 := by decide +kernel
  obtain ⟨s, hs, hcount⟩ := Option.map_eq_some_iff.mp hexec
  have hrun : Run (State.step roundRobinSettings noRepr)
      (fun _ e => Ordinary roundRobinSettings e) (State.create roundRobinSettings) _ s :=
    (run_of_exec hs).of_events (by
    simp only [List.forall_mem_cons]
    exact ⟨fun _ => ordinary_anyCall _ _ _, fun _ => ordinary_privateCall _ _ _,
      fun _ => trivial, fun _ => trivial, fun _ => trivial, fun _ => trivial, fun _ => trivial,
      fun _ => trivial, by simp⟩)
  have hle := hall roundRobinSettings noRepr _ s rfl (by decide) hrun
    ⟨"http://a", none, "org", 1⟩ List.mem_cons_self
  rw [hcount] at hle
  exact absurd hle (by decide)

end aristote_dispatcher.rpc_server
