-- The queues of several models at one broker. A name is a model, or a model with a
-- suffix, so the queues of two models can have one name; where they do not, each
-- request and each completion comes to a consumer of its model.
import AristoteDispatcher.Copies
import AristoteDispatcher.Queues

open runs
open json (Json PyStr)
open aristote_dispatcher.settings aristote_dispatcher.messages
open aristote_dispatcher.strategy aristote_dispatcher.broker

namespace aristote_dispatcher.queues

open aristote_dispatcher.rpc_server

/-! ## Private queues with one name -/

/-- Of two private queues with one name, the name of one model goes on in that of the other. -/
theorem private_queue_eq {model model' organization organization' : String}
    (h : private_queue model organization = private_queue model' organization')
    (hne : model ≠ model') :
    (∃ p, model' = model ++ ("_" ++ p) ∧ organization = p ++ ("_" ++ organization')) ∨
    ∃ p, model = model' ++ ("_" ++ p) ∧ organization' = p ++ ("_" ++ organization) := by
  have hlist : model.toList ++ '_' :: organization.toList =
      model'.toList ++ '_' :: organization'.toList := by
    have hassoc : ∀ m o : String, private_queue m o = (m ++ ("_" ++ o)) ++ "_private" := by
      intro m o
      simp [private_queue, String.append_assoc]
    rw [hassoc, hassoc, String.append_left_inj] at h
    simpa using congrArg String.toList h
  have hgoes : ∀ {m m' o o' : String} {rest : List Char}, m ≠ m' →
      m'.toList = m.toList ++ rest → '_' :: o.toList = rest ++ '_' :: o'.toList →
      ∃ p, m' = m ++ ("_" ++ p) ∧ o = p ++ ("_" ++ o') := by
    intro m m' o o' rest hne hm ho
    cases rest with
    | nil => exact absurd (String.toList_inj.mp (by simpa using hm)).symm hne
    | cons c p =>
      obtain ⟨rfl, hp⟩ := List.cons.inj ho
      exact ⟨String.ofList p, String.toList_inj.mp (by simp [hm]),
        String.toList_inj.mp (by simp [hp])⟩
  rcases List.append_eq_append_iff.mp hlist with ⟨rest, hm, ho⟩ | ⟨rest, hm, ho⟩
  · exact .inl (hgoes hne hm ho)
  · exact .inr (hgoes hne.symm hm ho)

theorem private_queue_split (model p organization : String) :
    private_queue model (p ++ ("_" ++ organization)) =
      private_queue (model ++ ("_" ++ p)) organization := by
  simp [private_queue, String.append_assoc]

/-! ## A deployment -/

/-- The consumers at a broker, and the organizations that the sender has for each model. -/
structure Deployment where
  consumers : List Settings
  MODEL_HOST_MAPPING : String → List String

/-- `get_models` takes the name for that of a model. -/
def listed (model : String) : Bool :=
  !"amq".toList.isPrefixOf model.toList && !"completed".toList.isSuffixOf model.toList &&
    !"private".toList.isSuffixOf model.toList

/-- A request that the sender lets through: its model is found, and one for the servers of an
organization names an organization of the model. -/
structure Asked (d : Deployment) (model : String) (r : Request) : Prop where
  found : ∃ c ∈ d.consumers, c.MODEL = model
  listed : listed model = true
  mode : r.routing_mode ∈ routing_modes
  organization : r.routing_mode = "any" ∨ r.organization ∈ d.MODEL_HOST_MAPPING model

/-- The consumer can come to the state. -/
def Reachable (cfg : Settings) (s : State) : Prop :=
  ∃ repr es, Run (State.step cfg repr) Any (.create cfg) es s

/-- The messages of a request: that of the call, and the copies of those that any consumer of
the deployment takes and defers. -/
inductive Travels (d : Deployment) (model : String) (r : Request) : Message → Prop
  | call (h : Asked d model r) : Travels d model r (r.message model)
  | deferred {m : Message} {cfg : Settings} {s : State} {subscription : Subscription}
      {random : Nat} {call : RequeueCall} (h : Travels d model r m) (hc : cfg ∈ d.consumers)
      (hs : Reachable cfg s) (hq : subscription.queue cfg = some m.routing_key)
      (hcall : call ∈ (s.segment cfg subscription m random).1.tasks) :
      Travels d model r call.new_msg

/-- The organizations of the servers of a consumer. -/
def serverOrganizations (c : Settings) : List String := c.VLLM_SERVERS.map (·.organization)

/-- The organizations that a private queue of the model can be named after. -/
def organizations (d : Deployment) (c : Settings) : List String :=
  serverOrganizations c ++ if listed c.MODEL then d.MODEL_HOST_MAPPING c.MODEL else []

/-- Queue names separate the models of a deployment: no two consumers of different models share
a queue, and the requests, completions and replies of a model stay with its consumers. -/
structure Separated (d : Deployment) : Prop where
  disjoint : ∀ c ∈ d.consumers, ∀ c' ∈ d.consumers, c.MODEL ≠ c'.MODEL →
    ∀ name ∈ queue_names c, name ∉ queue_names c'
  requests : ∀ model r m, Travels d model r m → ∀ c ∈ d.consumers,
    m.routing_key ∈ queue_names c → c.MODEL = model
  completions : ∀ c ∈ d.consumers, ∀ c' ∈ d.consumers,
    completed_queue c.MODEL ∈ queue_names c' → c'.MODEL = c.MODEL
  replies : ∀ model r m, Travels d model r m → ∀ cfg ∈ d.consumers, ∀ s, Reachable cfg s →
    ∀ subscription random server llm_params,
      Subscription.queue cfg subscription = some m.routing_key →
      (s.segment cfg subscription m random).1.stop = .publishes (some server) llm_params →
      cfg.MODEL = model ∧ server ∈ cfg.VLLM_SERVERS ∧ llm_params.llm_url = some server.url

/-- The name of the second model is not that of the first one's completions or of a private
queue of it, and does not go on from that of the first where an organization of the first does
so to one of the second, one of the two having a server. -/
structure Apart (d : Deployment) (c c' : Settings) : Prop where
  completed : c'.MODEL ≠ c.MODEL ++ "_completed"
  private_name : ∀ o ∈ organizations d c, c'.MODEL ≠ c.MODEL ++ ("_" ++ (o ++ "_private"))
  goes_on : ∀ p, c'.MODEL = c.MODEL ++ ("_" ++ p) → ∀ o ∈ organizations d c,
    ∀ o' ∈ organizations d c', o ∈ serverOrganizations c ∨ o' ∈ serverOrganizations c' →
      o ≠ p ++ ("_" ++ o')

variable {d : Deployment} {model : String} {r : Request} {m : Message} {c cfg : Settings}

theorem mem_organizations_of_server {o : String} (h : o ∈ serverOrganizations c) :
    o ∈ organizations d c :=
  List.mem_append_left _ h

/-! ## Apart models share no name -/

/-- A queue that the sender or the consumer of a model names after it. -/
def NamedAfter (d : Deployment) (c : Settings) (name : String) : Prop :=
  name = c.MODEL ∨ name = completed_queue c.MODEL ∨
    ∃ o ∈ organizations d c, name = private_queue c.MODEL o

theorem namedAfter_of_mem {name : String} (h : name ∈ queue_names c) : NamedAfter d c name := by
  rcases mem_queue_names.mp h with rfl | rfl | ⟨server, hs, rfl⟩
  · exact .inl rfl
  · exact .inr (.inl rfl)
  · exact .inr (.inr ⟨_, mem_organizations_of_server (List.mem_map_of_mem hs), rfl⟩)

/-- A consumer that has a queue named after another model has that model. -/
theorem model_of_shared (hapart : ∀ c ∈ d.consumers, ∀ c' ∈ d.consumers, c.MODEL ≠ c'.MODEL →
      Apart d c c') (hc : c ∈ d.consumers) (hcfg : cfg ∈ d.consumers) {name : String}
    (hname : NamedAfter d c name) (hmem : name ∈ queue_names cfg) : cfg.MODEL = c.MODEL := by
  by_contra hne
  have hto := hapart c hc cfg hcfg (Ne.symm hne)
  have hfrom := hapart cfg hcfg c hc hne
  rcases mem_queue_names.mp hmem with rfl | rfl | ⟨server, hs, rfl⟩
  · rcases hname with heq | heq | ⟨o, ho, heq⟩
    · exact hne heq
    · exact hto.completed heq
    · exact hto.private_name o ho heq
  · rcases hname with heq | heq | ⟨o, _, heq⟩
    · exact hfrom.completed heq.symm
    · exact hne (completed_queue_inj heq)
    · exact completed_queue_ne_private _ _ _ heq
  · have hserver : server.organization ∈ serverOrganizations cfg := List.mem_map_of_mem hs
    rcases hname with heq | heq | ⟨o, ho, heq⟩
    · exact hfrom.private_name _ (mem_organizations_of_server hserver) heq.symm
    · exact completed_queue_ne_private _ _ _ heq.symm
    · rcases private_queue_eq heq hne with ⟨p, hp, ho'⟩ | ⟨p, hp, ho'⟩
      · exact hfrom.goes_on p hp _ (mem_organizations_of_server hserver) o ho (.inl hserver) ho'
      · exact hto.goes_on p hp o ho _ (mem_organizations_of_server hserver) (.inr hserver) ho'

theorem queue_mem_names {subscription : Subscription} {name : String}
    (h : subscription.queue cfg = some name) : name ∈ queue_names cfg := by
  cases subscription with
  | main =>
    cases h
    exact mem_queue_names.mpr (.inl rfl)
  | server_queue i =>
    obtain ⟨server, hs, rfl⟩ := server_of_queue h
    exact mem_queue_names.mpr (.inr (.inr ⟨server, List.mem_of_getElem? hs, rfl⟩))

/-- The queue of a copy is named after the model of its request. -/
theorem namedAfter_of_copy {n : Nat} (hasked : Asked d c.MODEL r) (h : Copy c.MODEL r n m) :
    NamedAfter d c m.routing_key := by
  rcases h.routing_key with heq | ⟨_, heq, _⟩
  · rcases hasked.organization with hany | horg
    · exact .inl (heq.trans (if_pos hany))
    · by_cases hany : r.routing_mode = "any"
      · exact .inl (heq.trans (if_pos hany))
      · refine .inr (.inr ⟨r.organization, List.mem_append_right _ ?_, ?_⟩)
        · rwa [if_pos hasked.listed]
        · exact heq.trans (Request.routing_key_of_private hany)
  · exact .inl heq

/-- Where models are apart, what travels is a copy of the request, for its model. -/
theorem copy_of_travels (hapart : ∀ c ∈ d.consumers, ∀ c' ∈ d.consumers, c.MODEL ≠ c'.MODEL →
      Apart d c c') (h : Travels d model r m) :
    Asked d model r ∧ ∃ n, Copy model r n m := by
  induction h with
  | call h => exact ⟨h, 0, .call⟩
  | deferred h hc hs hq hcall ih =>
    obtain ⟨hasked, n, hcopy⟩ := ih
    obtain ⟨own, hown, rfl⟩ := hasked.found
    have hmodel := model_of_shared hapart hown hc (namedAfter_of_copy hasked hcopy)
      (queue_mem_names hq)
    rw [← hmodel] at hcopy ⊢
    exact ⟨hmodel ▸ hasked, n + 1,
      ((delivered_copy hcopy hasked.mode hq _ _).1 _ hcall).new_msg⟩

/-- A server that a reply names is one of the consumer. -/
theorem server_of_publishes {subscription : Subscription} {random : Nat} {server : VLLMServer}
    {llm_params : MessageData} {s : State} (hs : Reachable cfg s) (hp : Published cfg.MODEL m)
    (hq : subscription.queue cfg = some m.routing_key)
    (h : (s.segment cfg subscription m random).1.stop = .publishes (some server) llm_params) :
    server ∈ cfg.VLLM_SERVERS ∧ llm_params.llm_url = some server.url := by
  obtain ⟨repr, es, hrun⟩ := hs
  constructor
  · obtain ⟨indicator, _, _, hchosen, _⟩ := segment_publishes hp hq h
    cases subscription with
    | main =>
      rcases choose_server_cases (sound_run hrun).strategy random with
        ⟨_, heq⟩ | ⟨_, ⟨chosen, hmem, _, heq, _⟩ | heq⟩
      · cases hchosen.symm.trans heq
      · cases hchosen.symm.trans heq
        exact hmem
      · cases hchosen.symm.trans heq
    | server_queue i =>
      obtain ⟨own, hown, _⟩ := Option.map_eq_some_iff.mp hq
      simp only [chosen, hown] at hchosen
      exact (List.mem_filter.mp (mem_of_choose_among_duplicates hchosen)).1
  · obtain ⟨_, _, hhandled⟩ := segment_handled cfg s subscription m random
    cases hseg : (s.segment cfg subscription m random).1 with | mk tasks stop
    rw [hseg] at hhandled h
    cases hhandled with
    | answered hmem hurl horg hcount =>
      cases h
      exact hurl
    | _ => cases h

theorem separated_of_apart (hapart : ∀ c ∈ d.consumers, ∀ c' ∈ d.consumers, c.MODEL ≠ c'.MODEL →
      Apart d c c') : Separated d where
  disjoint c hc c' hc' hne name hname hmem :=
    hne (model_of_shared hapart hc hc' (namedAfter_of_mem hname) hmem).symm
  requests model r m htravels c hc hmem := by
    obtain ⟨hasked, n, hcopy⟩ := copy_of_travels hapart htravels
    obtain ⟨own, hown, rfl⟩ := hasked.found
    exact model_of_shared hapart hown hc (namedAfter_of_copy hasked hcopy) hmem
  completions c hc c' hc' hmem := model_of_shared hapart hc hc' (.inr (.inl rfl)) hmem
  replies model r m htravels cfg hcfg s hs subscription random server llm_params hq hstop := by
    obtain ⟨hasked, n, hcopy⟩ := copy_of_travels hapart htravels
    obtain ⟨own, hown, rfl⟩ := hasked.found
    have hmodel := model_of_shared hapart hown hcfg (namedAfter_of_copy hasked hcopy)
      (queue_mem_names hq)
    have hp : Published cfg.MODEL m := hmodel ▸ hcopy.published hasked.mode
    exact ⟨hmodel, server_of_publishes hs hp hq hstop⟩

/-! ## Separated models are apart -/

/-- A request of an organization of the sender goes to its private queue. -/
theorem travels_of_mapping (hc : c ∈ d.consumers) (hlisted : listed c.MODEL = true) {o : String}
    (ho : o ∈ d.MODEL_HOST_MAPPING c.MODEL) :
    ∃ r m, Travels d c.MODEL r m ∧ m.routing_key = private_queue c.MODEL o := by
  refine ⟨⟨0, o, "private-only", "1", "reply"⟩, _, .call ⟨⟨c, hc, rfl⟩, hlisted, ?_, .inr ho⟩, ?_⟩
  · simp [routing_modes]
  · exact Request.routing_key_of_private (by simp)

/-- A private queue of a model is no queue of another. -/
theorem Separated.private_not_mem (h : Separated d) (hc : c ∈ d.consumers)
    (hcfg : cfg ∈ d.consumers) (hne : c.MODEL ≠ cfg.MODEL) {o : String}
    (ho : o ∈ organizations d c) : private_queue c.MODEL o ∉ queue_names cfg := by
  intro hmem
  rcases List.mem_append.mp ho with hserver | hmapping
  · obtain ⟨server, hs, rfl⟩ := List.mem_map.mp hserver
    exact h.disjoint c hc cfg hcfg hne _ (mem_queue_names.mpr (.inr (.inr ⟨server, hs, rfl⟩))) hmem
  · split at hmapping
    · rename_i hlisted
      obtain ⟨r, m, htravels, hkey⟩ := travels_of_mapping hc hlisted hmapping
      exact hne (h.requests _ r m htravels cfg hcfg (hkey ▸ hmem)).symm
    · cases hmapping

theorem Separated.apart (h : Separated d) (hc : c ∈ d.consumers) (hcfg : cfg ∈ d.consumers)
    (hne : c.MODEL ≠ cfg.MODEL) : Apart d c cfg where
  completed heq := by
    refine h.disjoint c hc cfg hcfg hne cfg.MODEL ?_ (mem_queue_names.mpr (.inl rfl))
    exact mem_queue_names.mpr (.inr (.inl heq))
  private_name o ho heq := by
    refine h.private_not_mem hc hcfg hne ho (mem_queue_names.mpr (.inl ?_))
    rw [heq]
    simp [private_queue]
  goes_on p hp o ho o' ho' hserver heq := by
    have hsame : private_queue c.MODEL o = private_queue cfg.MODEL o' := by
      rw [heq, hp, private_queue_split]
    rcases hserver with hs | hs
    · obtain ⟨server, hmem, rfl⟩ := List.mem_map.mp hs
      refine h.private_not_mem hcfg hc (Ne.symm hne) ho' ?_
      exact mem_queue_names.mpr (.inr (.inr ⟨server, hmem, hsame⟩))
    · obtain ⟨server, hmem, rfl⟩ := List.mem_map.mp hs
      refine h.private_not_mem hc hcfg hne ho ?_
      exact mem_queue_names.mpr (.inr (.inr ⟨server, hmem, hsame.symm⟩))

/-- Queue names separate the models of a deployment exactly when its models are apart. -/
theorem queue_names_separate_models_iff (d : Deployment) :
    Separated d ↔ ∀ c ∈ d.consumers, ∀ c' ∈ d.consumers, c.MODEL ≠ c'.MODEL → Apart d c c' :=
  ⟨fun h _ hc _ hcfg hne => h.apart hc hcfg hne, separated_of_apart⟩

/-- Two models with one server each. -/
def oneServerEach (model organization model' organization' : String) : Deployment where
  consumers :=
    [{ roundRobinSettings with
        MODEL := model
        VLLM_SERVERS := [⟨"http://a", none, organization, 1⟩]
        urls_nodup := by simp },
      { roundRobinSettings with
        MODEL := model'
        VLLM_SERVERS := [⟨"http://b", none, organization', 1⟩]
        urls_nodup := by simp }]
  MODEL_HOST_MAPPING := fun _ => []

/-- The models have different names, and their private queues have one. -/
theorem two_models_share_a_private_queue :
    ¬∀ d : Deployment, (d.consumers.map (·.MODEL)).Nodup → Separated d := by
  intro hall
  have hsep := hall (oneServerEach "m" "x_y" "m_x" "y") (by decide)
  refine hsep.disjoint _ (List.mem_cons_self ..) _ (List.mem_cons_of_mem _ (List.mem_cons_self ..))
    (by decide) (private_queue "m" "x_y") (by decide +kernel) (by decide +kernel)

end aristote_dispatcher.queues
