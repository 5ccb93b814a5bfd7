-- What one step of a consumer can do, said once, and what all its states keep:
-- a set of ids for each configured server, and a sound strategy. Here the types of a
-- server's fields do not matter.
import AristoteDispatcher.Lib.Places
import AristoteDispatcher.Lib.Runs
import AristoteDispatcher.RpcServer
import AristoteDispatcher.StrategyInvariant

open pydict json runs places
open aristote_dispatcher.settings aristote_dispatcher.messages
open aristote_dispatcher.policies aristote_dispatcher.strategy

namespace aristote_dispatcher.rpc_server

variable {T O L U : Type} [DecidableEq T] [DecidableEq O] [DecidableEq L] [DecidableEq U]
  {cfg : Settings T O L U} {repr : Json → PyStr} {s s' : State T O L U}

/-! ## The sets of ids -/

/-- The ids that count for a server. -/
def State.ids (s : State T O L U) (server : VLLMServer T O L U) : Finset String :=
  s.current_parallel_requests.get server ∅

/-- How many requests a server has. -/
def State.count (s : State T O L U) (server : VLLMServer T O L U) : Nat := (s.ids server).card

/-- What a step that writes one set does to all of them. -/
theorem get_insert (current : Requests T O L U) (server k : VLLMServer T O L U)
    (ids : Finset String) :
    Dict.get (current.insert server ids) k ∅ = if k = server then ids else current.get k ∅ := by
  unfold Dict.get
  rw [Dict.lookup_insert_eq]
  split <;> rfl

theorem get_of_lookup {current : Requests T O L U} {server : VLLMServer T O L U}
    {ids : Finset String} (h : current.lookup server = some ids) : current.get server ∅ = ids := by
  simp [Dict.get, h]

theorem ids_create (cfg : Settings T O L U) (server : VLLMServer T O L U) :
    (State.create cfg).ids server = ∅ := by
  unfold State.ids State.create Dict.get
  rw [Dict.lookup_ofKeys]
  split <;> rfl

/-- A callback adds its own id at most. -/
theorem ids_add (server k : VLLMServer T O L U) (id : String) : (s.add server id).ids k = s.ids k ∨
    (k = server ∧ (s.add server id).ids k = insert id (s.ids k)) := by
  unfold State.add
  split
  · exact .inl rfl
  · rename_i ids hids
    simp only [State.ids, get_insert]
    split
    · rename_i hk
      subst hk
      exact .inr ⟨rfl, by rw [get_of_lookup hids]⟩
    · exact .inl rfl

/-- A timer takes its own id out at most. -/
theorem ids_expire_subset (server k : VLLMServer T O L U) (id : String) :
    (s.expire server id).ids k ⊆ s.ids k := by
  unfold State.expire
  split
  · exact subset_rfl
  · rename_i ids hids
    simp only [State.ids, get_insert]
    split
    · rename_i hk
      subst hk
      rw [get_of_lookup hids]
      exact Finset.erase_subset _ _
    · exact subset_rfl

theorem discard_subset (ids : Finset String) (id : PyStr) : discard ids id ⊆ ids := by
  unfold discard
  split
  · exact Finset.erase_subset _ _
  · exact subset_rfl

/-- A completion only takes ids out. -/
theorem ids_completion_subset [UrlField U] (current : Requests T O L U) (body : ByteArray)
    (k : VLLMServer T O L U) :
    (on_completion_callback cfg repr current body).1.get k ∅ ⊆ current.get k ∅ := by
  unfold on_completion_callback
  split
  · exact subset_rfl
  · split
    · exact subset_rfl
    · split
      · exact subset_rfl
      · rename_i ids hids
        simp only [get_insert]
        split
        · rename_i hk
          subst hk
          rw [get_of_lookup hids]
          exact discard_subset _ _
        · exact subset_rfl

/-! ## The invariant -/

structure Sound (cfg : Settings T O L U) (s : State T O L U) : Prop where
  keys : ∀ server ∈ cfg.VLLM_SERVERS, server ∈ s.current_parallel_requests
  strategy : StrategySound cfg s.strategy

/-- The ids of a configured server. -/
theorem Sound.ids (h : Sound cfg s) {server : VLLMServer T O L U} (hs : server ∈ cfg.VLLM_SERVERS) :
    ∃ ids, s.current_parallel_requests.lookup server = some ids :=
  Dict.exists_of_mem (h.keys server hs)

theorem sound_create (cfg : Settings T O L U) : Sound cfg (.create cfg) := by
  refine ⟨?_, strategySound_create cfg⟩
  intro server hs
  exact Dict.mem_ofKeys.mpr hs

omit [DecidableEq T] [DecidableEq O] [DecidableEq L] in
theorem Sound.congr (h : Sound cfg s)
    (hk : ∀ server, server ∈ s.current_parallel_requests → server ∈ s'.current_parallel_requests)
    (hs : s'.strategy = s.strategy) : Sound cfg s' :=
  ⟨fun server hserver => hk server (h.keys server hserver), hs ▸ h.strategy⟩

theorem mem_insert_of_mem {current : Requests T O L U} {server server' : VLLMServer T O L U}
    {ids : Finset String} (h : server ∈ current) : server ∈ current.insert server' ids :=
  (AList.mem_insert _).mpr (.inr h)

theorem mem_add {server server' : VLLMServer T O L U} {id : String}
    (h : server ∈ s.current_parallel_requests) :
    server ∈ (s.add server' id).current_parallel_requests := by
  unfold State.add
  split
  · exact h
  · exact mem_insert_of_mem h

theorem mem_expire {server server' : VLLMServer T O L U} {id : String}
    (h : server ∈ s.current_parallel_requests) :
    server ∈ (s.expire server' id).current_parallel_requests := by
  unfold State.expire
  split
  · exact h
  · exact mem_insert_of_mem h

theorem mem_on_completion [UrlField U] {current : Requests T O L U} {server : VLLMServer T O L U}
    {body : ByteArray} (h : server ∈ current) :
    server ∈ (on_completion_callback cfg repr current body).1 := by
  unfold on_completion_callback
  split
  · exact h
  · split
    · exact h
    · split
      · exact h
      · exact mem_insert_of_mem h

@[simp] theorem add_strategy (server : VLLMServer T O L U) (id : String) :
    (s.add server id).strategy = s.strategy := by
  unfold State.add
  split <;> rfl

@[simp] theorem callbacks_add (server : VLLMServer T O L U) (id : String) :
    (s.add server id).callbacks = s.callbacks := by
  unfold State.add
  split <;> rfl

@[simp] theorem requeues_add (server : VLLMServer T O L U) (id : String) :
    (s.add server id).requeues = s.requeues := by
  unfold State.add
  split <;> rfl

@[simp] theorem requeues_expire (server : VLLMServer T O L U) (id : String) :
    (s.expire server id).requeues = s.requeues := by
  unfold State.expire
  split <;> rfl

@[simp] theorem unsettled_expire (server : VLLMServer T O L U) (id : String) :
    (s.expire server id).unsettled = s.unsettled := by
  unfold State.expire
  split <;> rfl

@[simp] theorem unsettled_completion_add (server : VLLMServer T O L U) (id : String) :
    (s.add server id).unsettled_completion = s.unsettled_completion := by
  unfold State.add
  split <;> rfl

@[simp] theorem unsettled_completion_expire (server : VLLMServer T O L U) (id : String) :
    (s.expire server id).unsettled_completion = s.unsettled_completion := by
  unfold State.expire
  split <;> rfl

@[simp] theorem unsettled_add (server : VLLMServer T O L U) (id : String) :
    (s.add server id).unsettled = s.unsettled := by
  unfold State.add
  split <;> rfl

@[simp] theorem callbacks_expire (server : VLLMServer T O L U) (id : String) :
    (s.expire server id).callbacks = s.callbacks := by
  unfold State.expire
  split <;> rfl

@[simp] theorem expire_strategy (server : VLLMServer T O L U) (id : String) :
    (s.expire server id).strategy = s.strategy := by
  unfold State.expire
  split <;> rfl

/-! ## The steps -/

variable [TokenField T] [OrganizationField O] [LimitField L] [UrlField U]

/-- The steps of a consumer, with what each one asks of the state before it. -/
inductive Moves (cfg : Settings T O L U) (repr : Json → PyStr) (s : State T O L U) :
    Event U → State T O L U → Prop
  | deliver {subscription : Subscription} {message : Message} {random : Nat}
      (hq : subscription.queue cfg = some message.routing_key)
      (hfree : ∀ d ∈ s.unsettled, d.1 ≠ subscription) :
      Moves cfg repr s (.deliver subscription message random)
        (s.deliver cfg subscription message random)
  | publish {i : Nat} {c : Callback T O L U} (hc : s.callbacks[i]? = some c)
      (hp : c.phase = .publishing) : Moves cfg repr s (.publish i) (s.goOn i c .confirming)
  | publish_raises {i : Nat} {c : Callback T O L U} (hc : s.callbacks[i]? = some c)
      (hp : c.phase ≠ .acked) : Moves cfg repr s (.publish_raises i) (s.finish i)
  | ack {i : Nat} {c : Callback T O L U} (hc : s.callbacks[i]? = some c)
      (hp : c.phase = .confirming) :
      Moves cfg repr s (.ack i) ((s.settle c.subscription c.message).goOn i c .acked)
  | ack_raises {i : Nat} {c : Callback T O L U} (hc : s.callbacks[i]? = some c)
      (hp : c.phase ≠ .publishing) : Moves cfg repr s (.ack_raises i) (s.finish i)
  | resume {i : Nat} {c : Callback T O L U} {server : VLLMServer T O L U}
      (hc : s.callbacks[i]? = some c) (hp : c.phase = .acked) (hs : c.vllm_server = some server) :
      Moves cfg repr s (.resume i) ((s.finish i).add server c.message.id)
  | resume_none {i : Nat} {c : Callback T O L U} (hc : s.callbacks[i]? = some c)
      (hp : c.phase = .acked) (hs : c.vllm_server = none) :
      Moves cfg repr s (.resume i) (s.finish i)
  | requeue_ack {i : Nat} {t : RequeueTask} (ht : s.requeues[i]? = some t)
      (hp : t.acked = false) : Moves cfg repr s (.requeue_ack i)
        { s.settle t.subscription t.call.message with
          requeues := s.requeues.set i { t with acked := true } }
  | requeue_ack_raises {i : Nat} {t : RequeueTask} (ht : s.requeues[i]? = some t)
      (hp : t.acked = false) : Moves cfg repr s (.requeue_ack_raises i) (s.finishRequeue i)
  | requeue_publish {i : Nat} {t : RequeueTask} (ht : s.requeues[i]? = some t)
      (hp : t.acked = true) : Moves cfg repr s (.requeue_publish i) (s.finishRequeue i)
  | requeue_publish_raises {i : Nat} {t : RequeueTask} (ht : s.requeues[i]? = some t)
      (hp : t.acked = true) : Moves cfg repr s (.requeue_publish_raises i) (s.finishRequeue i)
  | completion {body : ByteArray} (hfree : s.unsettled_completion = none) :
      Moves cfg repr s (.completion body) (s.complete cfg repr body)
  | expire {i : Nat} {server : VLLMServer T O L U} {id : String}
      (ht : s.timers[i]? = some (server, id)) : Moves cfg repr s (.expire i)
        ({ s with timers := s.timers.eraseIdx i }.expire server id)
  | strategy {e : StrategyEvent U} {strategy : Strategy T O L U}
      (hs : s.strategy.step cfg.VLLM_SERVERS e = some strategy) :
      Moves cfg repr s (.strategy e) { s with strategy := strategy }

theorem moves_of_step {e : Event U} (h : s.step cfg repr e = some s') : Moves cfg repr s e s' := by
  cases e with
  | deliver subscription message random =>
    obtain ⟨⟨hq, hfree⟩, hs⟩ := Option.ite_none_right_eq_some.mp h
    cases hs
    exact .deliver hq hfree
  | publish i =>
    obtain ⟨c, hc, hp, rfl⟩ := guarded_eq_some h
    exact .publish hc hp
  | publish_raises i =>
    obtain ⟨c, hc, hp, rfl⟩ := guarded_eq_some h
    exact .publish_raises hc hp
  | ack i =>
    obtain ⟨c, hc, hp, rfl⟩ := guarded_eq_some h
    exact .ack hc hp
  | ack_raises i =>
    obtain ⟨c, hc, hp, rfl⟩ := guarded_eq_some h
    exact .ack_raises hc hp
  | resume i =>
    obtain ⟨c, hc, h⟩ := Option.bind_eq_some_iff.mp h
    obtain ⟨hp, hs⟩ := Option.ite_none_right_eq_some.mp h
    cases hsrv : c.vllm_server with
    | none =>
      rw [hsrv] at hs
      cases hs
      exact .resume_none hc hp hsrv
    | some server =>
      rw [hsrv] at hs
      cases hs
      exact .resume hc hp hsrv
  | requeue_ack i =>
    obtain ⟨t, ht, hp, rfl⟩ := guarded_eq_some h
    exact .requeue_ack ht hp
  | requeue_ack_raises i =>
    obtain ⟨t, ht, hp, rfl⟩ := guarded_eq_some h
    exact .requeue_ack_raises ht hp
  | requeue_publish i =>
    obtain ⟨t, ht, hp, rfl⟩ := guarded_eq_some h
    exact .requeue_publish ht hp
  | requeue_publish_raises i =>
    obtain ⟨t, ht, hp, rfl⟩ := guarded_eq_some h
    exact .requeue_publish_raises ht hp
  | completion body =>
    obtain ⟨hfree, hs⟩ := Option.ite_none_right_eq_some.mp h
    cases hs
    exact .completion hfree
  | expire i =>
    obtain ⟨⟨server, id⟩, ht, rfl⟩ := Option.map_eq_some_iff.mp h
    exact .expire ht
  | strategy e =>
    obtain ⟨strategy, hs, rfl⟩ := Option.map_eq_some_iff.mp h
    exact .strategy hs

theorem segment_strategy (h : StrategySound cfg s.strategy) (subscription : Subscription)
    (message : Message) (random : Nat) :
    StrategySound cfg (s.segment cfg subscription message random).2 := by
  cases subscription with
  | main => exact strategySound_choose h random
  | server_queue i => exact h

theorem sound_step {e : Event U} (h : Sound cfg s) (hs : s.step cfg repr e = some s') :
    Sound cfg s' := by
  cases moves_of_step hs with
  | deliver hq hfree => exact ⟨h.keys, segment_strategy h.strategy _ _ _⟩
  | resume hc hp hserver => exact h.congr (fun _ hk => mem_add hk) (add_strategy _ _)
  | completion hfree => exact h.congr (fun _ hk => mem_on_completion hk) rfl
  | expire ht => exact h.congr (fun _ hk => mem_expire hk) (expire_strategy _ _)
  | strategy hst => exact ⟨h.keys, strategySound_step h.strategy hst⟩
  | _ => exact h.congr (fun _ hk => hk) rfl

theorem sound_run {ok : State T O L U → Event U → Prop} {es : List (Event U)}
    (h : Run (State.step cfg repr) ok (State.create cfg) es s) : Sound cfg s :=
  h.invariant (sound_create cfg) fun _ _ _ hi _ hs => sound_step hi hs

/-- `repr` of the values that no test reads. -/
def noRepr : Json → PyStr := fun _ => .ofString ""

/-- A step adds an id to a set only where a callback with that server ends. -/
theorem ids_step {e : Event U} (h : s.step cfg repr e = some s') (server : VLLMServer T O L U) :
    s'.ids server ⊆ s.ids server ∨
      ∃ i c, s.callbacks[i]? = some c ∧ c.vllm_server = some server ∧ e = .resume i ∧
        s'.callbacks = s.callbacks.eraseIdx i ∧
        s'.ids server = insert c.message.id (s.ids server) := by
  cases moves_of_step h with
  | resume hc hp hs =>
    rename_i i c added
    rcases ids_add (s := s.finish i) added server c.message.id with heq | ⟨rfl, heq⟩
    · left
      rw [heq]
      exact subset_rfl
    · exact .inr ⟨i, c, hc, hs, rfl, callbacks_add _ _, heq⟩
  | completion hfree => exact .inl (ids_completion_subset _ _ _)
  | expire ht =>
    rename_i i k id
    exact .inl (ids_expire_subset (s := { s with timers := s.timers.eraseIdx i }) k server id)
  | _ => exact .inl subset_rfl

end aristote_dispatcher.rpc_server
