-- What the first segment of a callback does with a delivery, whatever the
-- message is: it raises, starts one requeue task, or answers with a server
-- among those that it chooses from, or without one.
import AristoteDispatcher.DeclaredTypes

open pydict pyfloat json
open aristote_dispatcher.settings aristote_dispatcher.messages
open aristote_dispatcher.policies aristote_dispatcher.strategy

namespace aristote_dispatcher.rpc_server

variable {cfg : Settings} {s : State}

/-! ## The policy -/

/-- A policy that does not let the request through starts one task for it, and one that does
starts none. -/
theorem apply_policy_tasks {indicator : Option PyFloat} {current : Nat}
    {max_parallel_requests : Int} {call : RequeueCall} {through : Bool} {tasks : List RequeueCall}
    (h : apply_policy cfg indicator current max_parallel_requests call = .ok (through, tasks)) :
    tasks = if through then [] else [call] := by
  unfold apply_policy at h
  cases hpol : cfg.QUALITY_OF_SERVICE_POLICY with
  | warning_log =>
    simp only [hpol, WarningLogPolicy.apply_policy] at h
    split at h
    · cases h
      rfl
    · unfold exceeds at h
      split at h <;> cases h
      rfl
  | performance_based_requeue =>
    simp only [hpol, PerformanceBasedRequeuePolicy.apply_policy, getattr_MAX_PARALLEL_REQUESTS] at h
    split at h
    · cases h
      rfl
    · unfold exceeds at h
      split at h
      · rename_i threshold _
        simp only [at_limit_int, bind, Except.bind] at h
        split at h
        · cases h
        · split at h <;> cases h
          rfl
      · cases h
  | parallel_requests_threshold_requeue =>
    simp only [hpol, ParallelRequestsThresholdRequeuePolicy.apply_policy, at_limit_int, bind,
      Except.bind] at h
    split at h
    · cases h
      rfl
    · split at h <;> cases h <;> rfl

/-! ## The choice -/

/-- What holds of the loop at its end, at a server without requests and, from the next server
on, at any other, holds of the whole loop. -/
theorem scoreDuplicates_induction {strategy : Strategy}
    {P : List VLLMServer → Dict VLLMServer (Option PyFloat) →
      VLLMServer ⊕ Dict VLLMServer (Option PyFloat) → Prop}
    (nil : ∀ scores, P [] scores (.inr scores))
    (idle : ∀ server duplicates scores, strategy.get_server_score server.url =
      .ok (some (.fin (-1))) → P (server :: duplicates) scores (.inl server))
    (busy : ∀ server duplicates scores score r, strategy.get_server_score server.url = .ok score →
      score ≠ some (.fin (-1)) → P duplicates (scores.insert server score) r →
      P (server :: duplicates) scores r)
    {duplicates : List VLLMServer} {scores : Dict VLLMServer (Option PyFloat)}
    {r : VLLMServer ⊕ Dict VLLMServer (Option PyFloat)}
    (h : scoreDuplicates strategy duplicates scores = .ok r) : P duplicates scores r := by
  induction duplicates generalizing scores with
  | nil =>
    cases h
    exact nil scores
  | cons server duplicates ih =>
    unfold scoreDuplicates at h
    split at h
    · cases h
    · rename_i score hscore
      split at h
      · rename_i hidle
        cases h
        cases score with
        | none => cases hidle
        | some v =>
          have heq : v ≠ .nan ∧ v = .fin (-1) := by simpa [PyFloat.eq] using hidle
          exact idle server duplicates scores (heq.2 ▸ hscore)
      · rename_i hbusy
        refine busy server duplicates scores score r hscore ?_ (ih h)
        rintro rfl
        exact hbusy rfl

/-- The loop ended with servers among the given ones. -/
def Within (servers : List VLLMServer) : VLLMServer ⊕ Dict VLLMServer (Option PyFloat) → Prop
  | .inl server => server ∈ servers
  | .inr scores => ∀ server ∈ scores, server ∈ servers

/-- The loop keeps to the servers that it is given. -/
theorem within_of_scoreDuplicates {strategy : Strategy} {duplicates servers : List VLLMServer}
    {scores : Dict VLLMServer (Option PyFloat)} {r : VLLMServer ⊕ Dict VLLMServer (Option PyFloat)}
    (hsub : ∀ server ∈ duplicates, server ∈ servers) (hscores : ∀ server ∈ scores, server ∈ servers)
    (h : scoreDuplicates strategy duplicates scores = .ok r) : Within servers r := by
  revert hsub hscores
  refine scoreDuplicates_induction (P := fun duplicates scores r =>
    (∀ server ∈ duplicates, server ∈ servers) → (∀ server ∈ scores, server ∈ servers) →
      Within servers r) (fun scores _ hscores => hscores) ?_ ?_ h
  · intro server duplicates scores _ hsub _
    exact hsub server List.mem_cons_self
  · intro server duplicates scores score r _ _ ih hsub hscores
    refine ih (fun x hx => hsub x (List.mem_cons_of_mem _ hx)) fun x hx => ?_
    rcases (AList.mem_insert _).mp hx with rfl | hx
    · exact hsub x List.mem_cons_self
    · exact hscores x hx

theorem mem_of_choice {α : Type*} {xs : List α} {random : Nat} {x : α}
    (h : choice xs random = .ok x) : x ∈ xs := by
  unfold choice at h
  split at h
  · rename_i hx
    cases h
    exact List.mem_of_getElem? hx
  · cases h

theorem mem_of_chooseScored {scores : Dict VLLMServer (Option PyFloat)} {random : Nat}
    {server : VLLMServer} {score : Option PyFloat}
    (h : chooseScored scores random = .ok (server, score)) : server ∈ scores := by
  have hmem : ∀ {items : List (VLLMServer × Option PyFloat)}, (∀ e ∈ items, e ∈ scores.items) →
      choice (items.map (·.1)) random = .ok server → server ∈ scores := by
    intro items hitems hc
    obtain ⟨e, he, rfl⟩ := List.mem_map.mp (mem_of_choice hc)
    exact Dict.mem_of_lookup (Dict.mem_items_iff_lookup.mp (hitems e he))
  unfold chooseScored at h
  split at h
  · split at h
    · cases h
    · rename_i hc
      cases h
      exact hmem (fun _ he => he) hc
  · split at h
    · cases h
    · split at h
      · cases h
      · rename_i hc
        cases h
        exact hmem (fun _ he => List.mem_of_mem_filter he) hc

theorem mem_of_choose_among_duplicates {strategy : Strategy} {duplicates : List VLLMServer}
    {random : Nat} {server : VLLMServer} {score : Option PyFloat}
    (h : choose_among_duplicates strategy duplicates random = .ok (server, score)) :
    server ∈ duplicates := by
  unfold choose_among_duplicates at h
  split at h
  · cases h
  · rename_i hr
    cases h
    exact within_of_scoreDuplicates (fun _ hs => hs) (fun _ hs => by cases hs) hr
  · rename_i hr
    exact within_of_scoreDuplicates (fun _ hs => hs) (fun _ hs => by cases hs) hr server
      (mem_of_chooseScored h)

/-- The servers that a strategy chooses from: those of the last `update_servers`. -/
def servers : Strategy → List VLLMServer
  | .round_robin self => self.servers
  | .least_busy self => self.servers

theorem mem_of_choose_server {strategy : Strategy} {random : Nat} {server : VLLMServer}
    {indicator : Option PyFloat}
    (h : (strategy.choose_server random).1 = .ok (server, indicator)) :
    server ∈ servers strategy := by
  cases strategy with
  | round_robin self =>
    simp only [Strategy.choose_server, RoundRobin.choose_server] at h
    split at h
    · rename_i hchosen
      cases h
      split at hchosen
      · cases hchosen
      · split at hchosen
        · cases hchosen
        · rename_i hget
          cases hchosen
          exact List.mem_of_getElem? hget
    · cases h
  | least_busy self =>
    simp only [Strategy.choose_server, LeastBusy.choose_server, bind, Except.bind] at h
    split at h
    · cases h
    · split at h
      · cases h
      · split at h
        · rename_i hfind
          cases h
          exact List.mem_of_find?_eq_some hfind
        · cases h

/-! ## The segment -/

/-- What a callback makes of a delivery, when it chooses among the servers and a deferral goes
to the queue. Only one of the two callbacks answers without a server. -/
inductive Handled (message : Message) (queue : Option String) (servers : List VLLMServer)
    (refuses : Prop) : Segment → Prop
  | raises (e : Exn) : Handled message queue servers refuses ⟨[], .raises e⟩
  | deferred (delay : Option Nat) :
      Handled message queue servers refuses ⟨[⟨message, queue, delay⟩], .returns⟩
  | answered {server : VLLMServer} {llm_params : MessageData} (hs : server ∈ servers)
      (hurl : llm_params.llm_url = some server.url)
      (horg : llm_params.llm_organization = some server.organization)
      (hcount : llm_params.requeue_count = message.requeue_count) :
      Handled message queue servers refuses ⟨[], .publishes (some server) llm_params⟩
  | refused {llm_params : MessageData} (hrefuses : refuses) (hurl : llm_params.llm_url = none)
      (horg : llm_params.llm_organization = none)
      (hcount : llm_params.requeue_count = message.requeue_count) :
      Handled message queue servers refuses ⟨[], .publishes none llm_params⟩

theorem Handled.mono {message : Message} {queue : Option String} {servers : List VLLMServer}
    {refuses refuses' : Prop} {segment : Segment}
    (h : Handled message queue servers refuses segment) (himp : refuses → refuses') :
    Handled message queue servers refuses' segment := by
  cases h with
  | raises e => exact .raises e
  | deferred delay => exact .deferred delay
  | answered hs hurl horg hcount => exact .answered hs hurl horg hcount
  | refused hrefuses hurl horg hcount => exact .refused (himp hrefuses) hurl horg hcount

theorem letThrough_handled {current : Requests} {server : VLLMServer}
    {indicator : Option PyFloat} {forwarded : Option Int} {message : Message}
    {queue : Option String} {delay : Option Nat} {servers : List VLLMServer} {refuses : Prop}
    {segment : Segment}
    (hs : server ∈ servers)
    (h : letThrough cfg current server indicator forwarded ⟨message, queue, delay⟩ = .ok segment) :
    Handled message queue servers refuses segment := by
  unfold letThrough at h
  split at h
  · cases h
  · split at h
    · cases h
    · rename_i tasks hp
      cases h
      rw [apply_policy_tasks hp]
      exact .deferred delay
    · rename_i tasks hp
      rw [message_data_declared] at h
      cases h
      rw [apply_policy_tasks hp]
      exact .answered hs rfl rfl rfl

/-- On the queue of the model, the servers are those of the strategy, and a deferral goes back
to its queue. -/
theorem main_handled (cfg : Settings) (s : State) (message : Message) (random : Nat) :
    Handled message none (servers s.strategy) True (s.segment cfg .main message random).1 := by
  simp only [State.segment, on_message_callback]
  cases hr : route cfg s.current_parallel_requests message (s.strategy.choose_server random).1 with
  | error e =>
    cases e with
    | ServerNotFound => exact .refused trivial rfl rfl rfl
    | _ => exact .raises _
  | ok segment =>
    unfold route at hr
    split at hr
    · cases hr
    · rename_i hchosen
      split at hr
      · cases hr
      · exact letThrough_handled (mem_of_choose_server hchosen) hr

/-- On a private queue, the body names the organization of the servers and the queue of a
deferral. -/
theorem private_handled {message : Message} {data : List (PyStr × Json)} {queue : Option String}
    (hread : readMembers message.body = .ok data)
    (hqueue : target_requeue cfg (getMember data "routing_mode") = .ok queue) (s : State) (i : Nat)
    (random : Nat) :
    Handled message queue (matching_servers cfg (getMember data "organization")) False
      (s.segment cfg (.server_queue i) message random).1 := by
  simp only [State.segment, server_specific_callback]
  split
  · rename_i hr
    simp only [routePrivate, hread, hqueue, bind, Except.bind] at hr
    split at hr
    · cases hr
    · split at hr
      · cases hr
      · rename_i pair hchosen
        exact letThrough_handled (mem_of_choose_among_duplicates hchosen) hr
  · exact .raises _

/-- Whatever the message is. -/
theorem segment_handled (cfg : Settings) (s : State) (subscription : Subscription)
    (message : Message) (random : Nat) : ∃ queue servers,
      Handled message queue servers (subscription = .main)
        (s.segment cfg subscription message random).1 := by
  cases subscription with
  | main => exact ⟨none, _, (main_handled cfg s message random).mono fun _ => rfl⟩
  | server_queue i =>
    have hraises : ∀ e, routePrivate cfg s.strategy s.current_parallel_requests message random =
        .error e → ∃ queue servers, Handled message queue servers
          (Subscription.server_queue i = .main)
          (s.segment cfg (.server_queue i) message random).1 := by
      intro e he
      refine ⟨none, [], ?_⟩
      simp only [State.segment, server_specific_callback, he]
      exact .raises e
    cases hread : readMembers message.body with
    | error e => exact hraises e (by simp only [routePrivate, hread, bind, Except.bind])
    | ok data =>
      cases hqueue : target_requeue cfg (getMember data "routing_mode") with
      | ok queue => exact ⟨queue, _, (private_handled hread hqueue s i random).mono False.elim⟩
      | error e =>
        cases hr : routePrivate cfg s.strategy s.current_parallel_requests message random with
        | error e' => exact hraises e' hr
        | ok segment =>
          simp only [routePrivate, hread, hqueue, bind, Except.bind] at hr
          split at hr
          · cases hr
          · split at hr <;> cases hr

/-! ## Where a delivery and its tasks come from -/

variable {repr : Json → PyStr} {s' : State}

theorem unsettled_of_step {e : Event} (h : s.step cfg repr e = some s')
    {d : Subscription × Message} (hd : d ∈ s'.unsettled) :
    d ∈ s.unsettled ∨ ∃ random, e = .deliver d.1 d.2 random := by
  cases moves_of_step h with
  | deliver hq hfree =>
    rcases List.mem_append.mp hd with hd | hd
    · exact .inl hd
    · cases List.mem_singleton.mp hd
      exact .inr ⟨_, rfl⟩
  | ack hc hp => exact .inl (List.mem_of_mem_erase hd)
  | requeue_ack ht hp => exact .inl (List.mem_of_mem_erase hd)
  | resume hc hp hs =>
    rw [unsettled_add] at hd
    exact .inl hd
  | expire ht =>
    rw [unsettled_expire] at hd
    exact .inl hd
  | _ => exact .inl hd

/-- A callback stood at a phase before the step, or a delivery starts it. -/
theorem callback_of_step {e : Event} (h : s.step cfg repr e = some s') {c : Callback}
    (hc : c ∈ s'.callbacks) :
    (∃ c' ∈ s.callbacks, c = { c' with phase := c.phase }) ∨
    ∃ subscription message random, e = .deliver subscription message random ∧
      c ∈ suspended subscription message (s.segment cfg subscription message random).1.stop := by
  have herase : ∀ {i : Nat}, c ∈ s.callbacks.eraseIdx i →
      ∃ c' ∈ s.callbacks, c = { c' with phase := c.phase } :=
    fun hc => ⟨c, List.mem_of_mem_eraseIdx hc, rfl⟩
  have hset : ∀ {i : Nat} {d : Callback} {phase : Phase}, s.callbacks[i]? = some d →
      c ∈ s.callbacks.set i { d with phase := phase } →
      ∃ c' ∈ s.callbacks, c = { c' with phase := c.phase } := by
    intro i d phase hd hc
    rcases List.mem_or_eq_of_mem_set hc with hc | rfl
    · exact ⟨c, hc, rfl⟩
    · exact ⟨d, List.mem_of_getElem? hd, rfl⟩
  cases moves_of_step h with
  | deliver hq hfree =>
    rcases List.mem_append.mp hc with hc | hc
    · exact .inl ⟨c, hc, rfl⟩
    · exact .inr ⟨_, _, _, rfl, hc⟩
  | publish hd hp => exact .inl (hset hd hc)
  | ack hd hp => exact .inl (hset hd hc)
  | publish_raises hd hp => exact .inl (herase hc)
  | ack_raises hd hp => exact .inl (herase hc)
  | resume_none hd hp hs => exact .inl (herase hc)
  | resume hd hp hs =>
    rw [callbacks_add] at hc
    exact .inl (herase hc)
  | expire ht =>
    rw [callbacks_expire] at hc
    exact .inl ⟨c, hc, rfl⟩
  | _ => exact .inl ⟨c, hc, rfl⟩

/-- A requeue task was there before the step, or a delivery starts it. -/
theorem requeue_of_step {e : Event} (h : s.step cfg repr e = some s') {t : RequeueTask}
    (ht : t ∈ s'.requeues) :
    (∃ t' ∈ s.requeues, t = { t' with acked := t.acked }) ∨
    ∃ subscription message random, e = .deliver subscription message random ∧
      ∃ call ∈ (s.segment cfg subscription message random).1.tasks,
        t = ⟨subscription, call, false⟩ := by
  cases moves_of_step h with
  | deliver hq hfree =>
    rcases List.mem_append.mp ht with ht | ht
    · exact .inl ⟨t, ht, rfl⟩
    · obtain ⟨call, hcall, rfl⟩ := List.mem_map.mp ht
      exact .inr ⟨_, _, _, rfl, call, hcall, rfl⟩
  | requeue_ack hu hp =>
    rcases List.mem_or_eq_of_mem_set ht with ht | rfl
    · exact .inl ⟨t, ht, rfl⟩
    · exact .inl ⟨_, List.mem_of_getElem? hu, rfl⟩
  | requeue_ack_raises hu hp => exact .inl ⟨t, List.mem_of_mem_eraseIdx ht, rfl⟩
  | requeue_publish hu hp => exact .inl ⟨t, List.mem_of_mem_eraseIdx ht, rfl⟩
  | requeue_publish_raises hu hp => exact .inl ⟨t, List.mem_of_mem_eraseIdx ht, rfl⟩
  | resume hc hp hs =>
    rw [requeues_add] at ht
    exact .inl ⟨t, ht, rfl⟩
  | expire hx =>
    rw [requeues_expire] at ht
    exact .inl ⟨t, ht, rfl⟩
  | _ => exact .inl ⟨t, ht, rfl⟩

end aristote_dispatcher.rpc_server
