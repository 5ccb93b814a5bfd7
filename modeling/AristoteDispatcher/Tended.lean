-- Who looks after a delivery and a counted id. With round robin no callback raises, so each
-- unsettled delivery has a callback or a task that is to settle it; each counted id has a timer;
-- and a request that comes when no server is full is answered.
import AristoteDispatcher.Ownership
import AristoteDispatcher.PolicyContract
import AristoteDispatcher.Timers

open pydict pyfloat runs places
open json (Json PyStr)
open aristote_dispatcher.settings aristote_dispatcher.messages
open aristote_dispatcher.policies aristote_dispatcher.strategy

namespace aristote_dispatcher.rpc_server

variable {cfg : Settings} {repr : Json → PyStr} {s s' : State}

/-! ## Round robin -/

/-- Round robin gives no score. -/
theorem none_of_round_robin (hround : cfg.ROUTING_STRATEGY = .round_robin)
    {indicator : Option PyFloat} (h : Indicator cfg.ROUTING_STRATEGY indicator) :
    indicator = none := by
  rw [hround] at h
  cases h
  rfl

/-- With round robin no score raises and no policy does. -/
theorem settledWhen_of_round_robin (hround : cfg.ROUTING_STRATEGY = .round_robin)
    (h : StrategySound cfg s.strategy) (subscription : Subscription) (message : Message)
    (random : Nat) : SettledWhen cfg s subscription message random := by
  have hsettles : ∀ (server : VLLMServer) (indicator : Option PyFloat), indicator = none →
      Settles cfg indicator (s.count server) server message.priority := by
    rintro server indicator rfl
    rw [settles_iff_not_defers fun hne => absurd rfl hne]
    rintro ⟨_, p, hp, _⟩
    cases hp
  have hstrategy : ∃ r, s.strategy = .round_robin r := by
    cases hs : s.strategy with
    | round_robin r => exact ⟨r, rfl⟩
    | least_busy b =>
      rw [hs] at h
      exact absurd (hround.symm.trans h.1) (by simp)
  obtain ⟨r, hr⟩ := hstrategy
  refine ⟨?_, hasCandidates_declared cfg subscription, fun server indicator hc =>
    hsettles server _ ?_⟩
  · cases subscription with
    | main =>
      rw [ScoresRaise, hr]
      exact id
    | server_queue i =>
      rintro ⟨organization, _, hraise⟩
      rw [hr] at hraise
      exact hraise
  · cases subscription with
    | main => exact none_of_round_robin hround (indicator_of_choose_server h hc)
    | server_queue i =>
      simp only [chosen] at hc
      split at hc
      · cases hc
      · exact none_of_round_robin hround (indicator_of_choose_among_duplicates h
          (fun _ hs => List.mem_of_mem_filter hs) hc)

/-- A policy that defers without a score finds the server full. -/
theorem full_of_deferred {current : Nat} {max_parallel_requests : Int} {call : RequeueCall}
    {tasks : List RequeueCall}
    (h : apply_policy cfg none current max_parallel_requests call = .ok (false, tasks)) :
    max_parallel_requests ≤ current := by
  rcases apply_policy_decides cfg none current max_parallel_requests call
      (fun hne => absurd rfl hne) with ⟨_, hok⟩ | ⟨⟨_, _, hfull⟩, _⟩ | ⟨_, _, e, _, he⟩
  · cases hok.symm.trans h
  · simpa [LimitField.reached] using hfull
  · cases he.symm.trans h

/-- Behind the deferral of a request, the server that was chosen for it is full. -/
theorem letThrough_defers {current : Requests} {server : VLLMServer} {forwarded : Option Int}
    {call call' : RequeueCall}
    (h : letThrough cfg current server none forwarded call = .ok ⟨[call'], .returns⟩) :
    server.max_parallel_requests ≤ ((current.get server ∅).card : Int) := by
  unfold letThrough at h
  split at h
  · cases h
  · rename_i ids hids
    rw [get_of_lookup hids]
    split at h
    · cases h
    · rename_i tasks hp
      exact full_of_deferred hp
    · rw [message_data_declared] at h
      cases h

theorem full_of_segment (hround : cfg.ROUTING_STRATEGY = .round_robin) (h : Sound cfg s)
    {subscription : Subscription} {message : Message} {random : Nat} {call : RequeueCall}
    (hp : Published cfg.MODEL message) (hq : subscription.queue cfg = some message.routing_key)
    (hseg : (s.segment cfg subscription message random).1 = ⟨[call], .returns⟩) :
    ∃ server ∈ cfg.VLLM_SERVERS, server.max_parallel_requests ≤ s.count server := by
  cases subscription with
  | main =>
    simp only [State.segment, on_message_callback] at hseg
    split at hseg
    · rename_i hr
      rw [hseg] at hr
      unfold route at hr
      split at hr
      · cases hr
      · rename_i server indicator hchosen
        split at hr
        · cases hr
        · cases none_of_round_robin hround (indicator_of_choose_server h.strategy hchosen)
          refine ⟨server, ?_, letThrough_defers hr⟩
          rcases choose_server_cases h.strategy random with
            ⟨_, he⟩ | ⟨_, ⟨other, hmem, _, he, _⟩ | he⟩
          · cases he.symm.trans hchosen
          · cases he.symm.trans hchosen
            exact hmem
          · cases he.symm.trans hchosen
    · cases hseg
    · cases hseg
  | server_queue i =>
    obtain ⟨own, hown, hkey⟩ := server_of_queue hq
    obtain ⟨data, queue, hread, hservers, hqueue⟩ := readMembers_of_private hp hkey.symm
    have hconf : ∀ server ∈ organization_servers cfg own.organization,
        server ∈ cfg.VLLM_SERVERS := fun _ hs => List.mem_of_mem_filter hs
    simp only [State.segment, server_specific_callback, routePrivate, hread, hservers, hqueue,
      bind, Except.bind] at hseg
    split at hseg
    · rename_i hr
      rw [hseg] at hr
      split at hr
      · cases hr
      · split at hr
        · cases hr
        · rename_i pair hchosen
          obtain ⟨server, score⟩ := pair
          cases none_of_round_robin hround
            (indicator_of_choose_among_duplicates h.strategy hconf hchosen)
          exact ⟨server, hconf _ (mem_of_choose_among_duplicates hchosen), letThrough_defers hr⟩
    · cases hseg

/-- A request that comes when no server is full is answered. -/
theorem answers_when_free (hround : cfg.ROUTING_STRATEGY = .round_robin) (h : Sound cfg s)
    (hfree : ∀ server ∈ cfg.VLLM_SERVERS, (s.count server : Int) < server.max_parallel_requests)
    {subscription : Subscription} {message : Message} (random : Nat)
    (hp : Published cfg.MODEL message) (hq : subscription.queue cfg = some message.routing_key) :
    ∃ server llm_params, (s.segment cfg subscription message random).1 =
      ⟨[], .publishes server llm_params⟩ := by
  rcases handles h hp hq random with ⟨_, hanswers | ⟨call, _, hseg⟩⟩ | ⟨hnot, _⟩
  · exact hanswers
  · obtain ⟨server, hs, hfull⟩ := full_of_segment hround h hp hq hseg
    have := hfree server hs
    omega
  · exact absurd (settledWhen_of_round_robin hround h.strategy subscription message random) hnot

/-! ## Who is to settle, and what is to fire -/

/-- A callback or a task is to settle the delivery. -/
def HasOwner (s : State) (d : Subscription × Message) : Prop :=
  (∃ c ∈ s.callbacks, c.phase ≠ .acked ∧ (c.subscription, c.message) = d) ∨
    ∃ t ∈ s.requeues, t.acked = false ∧ (t.subscription, t.call.message) = d

/-- No operation raises, and no callback up to its first await. -/
def Calm (cfg : Settings) (s : State) : Event → Prop
  | .deliver subscription message random =>
    Hands message (s.segment cfg subscription message random).1
  | .publish_raises _ | .ack_raises _ | .requeue_ack_raises _ | .requeue_publish_raises _ => False
  | _ => True

theorem HasOwner.mono {d : Subscription × Message} (h : HasOwner s d)
    (hc : ∀ c ∈ s.callbacks, c.phase ≠ .acked → (c.subscription, c.message) = d →
      ∃ c' ∈ s'.callbacks, c'.phase ≠ .acked ∧ (c'.subscription, c'.message) = d)
    (ht : ∀ t ∈ s.requeues, t.acked = false → (t.subscription, t.call.message) = d →
      t ∈ s'.requeues) : HasOwner s' d := by
  rcases h with ⟨c, hmem, hp, hd⟩ | ⟨t, hmem, hp, hd⟩
  · exact .inl (hc c hmem hp hd)
  · exact .inr ⟨t, ht t hmem hp hd, hp, hd⟩

/-- The owner of a delivery settles it, and no other delivery is equal to it. -/
theorem ne_of_settled (ho : Owned s) {d d' : Subscription × Message} (hd : d ∈ s.unsettled)
    (hd' : d' ∈ s.unsettled.erase d) : d' ≠ d := by
  rintro rfl
  have hpos := List.count_pos_iff.mpr hd'
  have hone := (ho.count_handedOver d').2
  rw [List.count_erase_self] at hpos
  omega

theorem hasOwner_step {e : Event} (ho : Owned s) (h : ∀ d ∈ s.unsettled, HasOwner s d)
    (hok : Calm cfg s e) (hs : s.step cfg repr e = some s') :
    ∀ d ∈ s'.unsettled, HasOwner s' d := by
  have hsame : ∀ {d}, HasOwner s d → s'.callbacks = s.callbacks → s'.requeues = s.requeues →
      HasOwner s' d := fun hown hc ht => hown.mono (fun c hmem hp hd => ⟨c, hc ▸ hmem, hp, hd⟩)
    fun t hmem _ _ => ht ▸ hmem
  cases moves_of_step hs with
  | @deliver subscription message random hq hfree =>
    intro d hd
    rcases List.mem_append.mp hd with hd | hd
    · exact (h d hd).mono (fun c hmem hp hd => ⟨c, List.mem_append_left _ hmem, hp, hd⟩)
        fun t hmem _ _ => List.mem_append_left _ hmem
    · cases List.mem_singleton.mp hd
      rcases hok with ⟨server, llm_params, hseg⟩ | ⟨call, hcall, hseg⟩
      · refine .inl ⟨⟨subscription, message, server, llm_params, .publishing⟩, ?_, by simp, rfl⟩
        simp [State.deliver, hseg, suspended]
      · refine .inr ⟨⟨subscription, call, false⟩, ?_, rfl, by rw [hcall]⟩
        simp [State.deliver, hseg]
  | @publish i c hc hp =>
    intro d hd
    refine (h d hd).mono (fun c' hmem hp' hd' => ?_) fun t hmem _ _ => hmem
    by_cases heq : c' = c
    · subst heq
      exact ⟨_, List.mem_set (List.getElem?_eq_some_iff.mp hc).1 _, by simp, hd'⟩
    · exact ⟨c', mem_set_of_ne hc hmem heq, hp', hd'⟩
  | @ack i c hc hp =>
    intro d hd
    have hmem := ho.mem_of_callback (List.mem_of_getElem? hc) (by simp [hp])
    have hne : d ≠ (c.subscription, c.message) := ne_of_settled ho hmem hd
    refine (h d (List.mem_of_mem_erase hd)).mono (fun c' hmem' hp' hd' => ?_)
      fun t hmem' _ _ => hmem'
    refine ⟨c', mem_set_of_ne hc hmem' ?_, hp', hd'⟩
    rintro rfl
    exact hne hd'.symm
  | @requeue_ack i t ht hp =>
    intro d hd
    have hmem := ho.mem_of_requeue (List.mem_of_getElem? ht) hp
    have hne : d ≠ (t.subscription, t.call.message) := ne_of_settled ho hmem hd
    refine (h d (List.mem_of_mem_erase hd)).mono (fun c hmem' hp' hd' => ⟨c, hmem', hp', hd'⟩)
      fun t' hmem' _ hd' => mem_set_of_ne ht hmem' ?_
    rintro rfl
    exact hne hd'.symm
  | resume_none hc hp hserver =>
    intro d hd
    refine (h d hd).mono (fun c' hmem hp' hd' => ⟨c', mem_eraseIdx_of_ne hc hmem ?_, hp', hd'⟩)
      fun t hmem _ _ => hmem
    rintro rfl
    exact hp' hp
  | resume hc hp hserver =>
    intro d hd
    rw [unsettled_add] at hd
    refine (h d hd).mono (fun c' hmem hp' hd' => ⟨c', ?_, hp', hd'⟩) fun t hmem _ _ => ?_
    · rw [callbacks_add]
      refine mem_eraseIdx_of_ne hc hmem ?_
      rintro rfl
      exact hp' hp
    · rw [requeues_add]
      exact hmem
  | requeue_publish ht hp =>
    intro d hd
    refine (h d hd).mono (fun c hmem hp' hd' => ⟨c, hmem, hp', hd'⟩) fun t hmem hp' _ => ?_
    refine mem_eraseIdx_of_ne ht hmem ?_
    rintro rfl
    exact Bool.noConfusion (hp'.symm.trans hp)
  | expire ht =>
    intro d hd
    rw [unsettled_expire] at hd
    exact hsame (h d hd) (callbacks_expire _ _) (requeues_expire _ _)
  | completion hfree => exact fun d hd => hsame (h d hd) rfl rfl
  | strategy hstrategy => exact fun d hd => hsame (h d hd) rfl rfl
  | publish_raises hc hp => exact hok.elim
  | ack_raises hc hp => exact hok.elim
  | requeue_ack_raises ht hp => exact hok.elim
  | requeue_publish_raises ht hp => exact hok.elim

/-- Each counted id has a timer. -/
def HasTimers (s : State) : Prop := ∀ server id, id ∈ s.ids server → (server, id) ∈ s.timers

theorem hasTimers_step {e : Event} (h : HasTimers s) (hs : s.step cfg repr e = some s') :
    HasTimers s' := by
  intro server id hid
  by_cases hexpire : ∃ i, e = .expire i
  · obtain ⟨i, rfl⟩ := hexpire
    cases moves_of_step hs with
    | @expire _ target fired ht =>
      have hids : id ∈ if server = target then (s.ids server).erase fired else s.ids server := by
        rw [ids_expire] at hid
        exact hid
      rw [timers_expire]
      split at hids
      · obtain ⟨hne, hids⟩ := Finset.mem_erase.mp hids
        exact mem_eraseIdx_of_ne ht (h server id hids) fun heq => hne (Prod.mk.inj heq).2
      · rename_i hne
        exact mem_eraseIdx_of_ne ht (h server id hids) fun heq => hne (Prod.mk.inj heq).1
  · have hnot : ∀ i, e ≠ .expire i := fun i heq => hexpire ⟨i, heq⟩
    cases ha : addition s e with
    | none =>
      obtain ⟨htimers, hids⟩ := keeps_of_no_addition hs ha hnot
      exact htimers ▸ h server id (hids server hid)
    | some slot =>
      obtain ⟨counted, added⟩ := slot
      obtain ⟨htimers, hids⟩ := counts_of_addition hs ha
      rw [htimers, List.mem_append]
      rw [hids] at hid
      split at hid
      · rename_i heq
        rcases Finset.mem_insert.mp hid with heq' | hid
        · exact .inr (by simp [heq, heq'])
        · exact .inl (h server id hid)
      · exact .inl (h server id hid)

/-- Who is to settle each delivery, and what is to fire for each counted id. -/
structure Tended (cfg : Settings) (s : State) : Prop where
  sound : Sound cfg s
  owned : Owned s
  owners : ∀ d ∈ s.unsettled, HasOwner s d
  timers : HasTimers s

theorem tended_create (cfg : Settings) : Tended cfg (.create cfg) where
  sound := sound_create cfg
  owned := owned_create cfg
  owners := fun _ h => (by cases h)
  timers := by
    intro server id hid
    rw [ids_create] at hid
    cases hid

theorem tended_step {e : Event} (h : Tended cfg s) (hok : Calm cfg s e)
    (hs : s.step cfg repr e = some s') : Tended cfg s' where
  sound := sound_step h.sound hs
  owned := owned_step h.owned hs
  owners := hasOwner_step h.owned h.owners hok hs
  timers := hasTimers_step h.timers hs

end aristote_dispatcher.rpc_server
