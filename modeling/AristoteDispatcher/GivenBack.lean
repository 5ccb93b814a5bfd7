-- The slots that replies grant, and the completions that give them back. Each
-- grant is given back once, unless something fails between the reply and the
-- completion message.
import AristoteDispatcher.SenderInvariant

open runs
open json (Json PyStr getMember)
open aristote_dispatcher.messages aristote_dispatcher.rpc_client

namespace aristote_dispatcher.proxy

variable {validate : List (PyStr × Json) → Option MessageData} {s s' : Sender} {p : Proxy}
  {call : Call}

/-! ## The purpose -/

/-- A member that is a string. -/
def memberText (members : List (PyStr × Json)) (k : String) : Option String :=
  match getMember members k with
  | .str text => text.toString?
  | _ => none

/-- The url that a reply names. The consumer counts its id on that server. -/
def named (message : Response) : Option String :=
  (llm_params_dict message.body).bind fun members => memberText members "llm_url"

/-- `MessageData` keeps the string of the member. -/
def KeepsUrl (validate : List (PyStr × Json) → Option MessageData) : Prop :=
  ∀ members data, validate members = some data →
    ∀ url, memberText members "llm_url" = some url → data.llm_url = some url

/-- The completions under an id. -/
def Sender.completionsOf (s : Sender) (id : String) : List Completion :=
  s.completions.filter (·.message_id = id)

/-- One completion under the id is published, for the server, to the queue of the model. -/
def GivenBack (s : Sender) (id model url : String) : Prop :=
  ∃ c, s.completionsOf id = [c] ∧ c.server = url ∧ c.routing_key = completed_queue model

/-- The handler waits for its call, or still owes a slot. -/
def Proxy.UnderWay (p : Proxy) : Prop := p.stage = .calling ∨ p.owes ≠ []

/-! ## When nothing fails -/

/-- The call waits for the response, and its request is one that could be published. -/
def Awaits (call : Call) (message : Response) : Prop :=
  call.correlation_id = message.correlation_id ∧ call.future = .pending ∧
    (call.stage = .wait_for ∨
      (call.stage = .publish ∧ (octet call.arguments.priority).isSome = true))

/-- The call has a reply with this id that names the url. -/
def HasTaken (call : Call) (message : Response) (url : String) : Prop :=
  call.correlation_id = message.correlation_id ∧
    ∃ first, call.future = .done first ∧ named first = some url

/-- A reply that names a url is valid and its call waits for it, or it is one more of the same;
once the call has it, neither its timer nor an error nor a cancellation comes before; and
nothing raises while the handler owes the slot. -/
def NothingFails (validate : List (PyStr × Json) → Option MessageData) (s : Sender) :
    SenderEvent → Prop
  | .client (.on_response message) => ∀ url, named message = some url →
      message.correlation_id ≠ none ∧
      ((∃ call ∈ s.client.calls, Awaits call message) ∧
          ((llm_params_dict message.body).bind validate).isSome = true ∨
        ∃ call ∈ s.client.calls, HasTaken call message url)
  | .client (.timer k) | .client (.cancel k) | .client (.publish_raises k) =>
      ∀ call message, s.client.calls[k]? = some call → call.future = .done message →
        named message = none
  | .handler k .raises => ∀ p, s.proxies[k]? = some p → p.owes = []
  | _ => True

/-! ## The ledger of an id -/

/-- The slots that completions under the id gave back. -/
def Sender.paid (s : Sender) (id : String) : List Grant :=
  (s.completionsOf id).map Completion.grant

theorem paid_append (s : Sender) (client : RPCClient) (proxies : List Proxy)
    (new : List Completion) (id : String) :
    Sender.paid ⟨client, proxies, s.completions ++ new⟩ id =
      s.paid id ++ (new.filter (·.message_id = id)).map Completion.grant := by
  simp [Sender.paid, Sender.completionsOf]

theorem givenBack_of_paid {id model url : String} (h : s.paid id = [⟨id, model, url⟩]) :
    GivenBack s id model url := by
  obtain ⟨c, hc, hgrant⟩ := List.map_eq_singleton_iff.mp h
  refine ⟨c, hc, congrArg Grant.server hgrant, ?_⟩
  exact congrArg (fun g => completed_queue g.model) hgrant

/-- Where a call with a reply that names the url stands, and its handler: on their way to the
request of the server with nothing published, or with one slot that is owed or given back. -/
structure Stands (validate : List (PyStr × Json) → Option MessageData) (s : Sender) (p : Proxy)
    (call : Call) (message : Response) (id url : String) : Prop where
  valid : ((llm_params_dict message.body).bind validate).isSome = true
  calling : p.stage = .calling → s.paid id = [] ∧
    (call.stage = .wait_for ∨
      (call.stage = .publish ∧ (octet call.arguments.priority).isSome = true) ∨
      call.stage = .ended (.response message))
  ledger : p.stage ≠ .calling → s.paid id ++ p.owes = [⟨id, p.request.model, url⟩]

/-- What every sender keeps while nothing fails. -/
structure Paid (validate : List (PyStr × Json) → Option MessageData) (es : List SenderEvent)
    (s : Sender) : Prop where
  sound : Sound s
  received : ∀ message url, .client (.on_response message) ∈ es → named message = some url →
    message.correlation_id ≠ none ∧ ∃ call ∈ s.client.calls, HasTaken call message url
  stands : ∀ k p call message id url, Pair s k p call → call.future = .done message →
    named message = some url → call.correlation_id = some id →
    Stands validate s p call message id url

theorem paid_create (validate : List (PyStr × Json) → Option MessageData)
    (callback_queue : String) : Paid validate [] (.create callback_queue) :=
  ⟨sound_create callback_queue, fun _ _ h => (by cases h),
    fun _ _ _ _ _ _ h => (by cases h.handler)⟩

/-- The only handler beside a call with the id. -/
theorem Sound.pair_inj (h : Sound s) {j k : Nat} {p q : Proxy} {call other : Call} {id : String}
    (hp : Pair s k p call) (hq : Pair s j q other) (hid : call.correlation_id = some id)
    (hid' : other.correlation_id = some id) : j = k ∧ q = p ∧ other = call := by
  obtain rfl := h.client.distinct j k other call hq.call hp.call id hid' hid
  cases hq.call.symm.trans hp.call
  cases hq.handler.symm.trans hp.handler
  exact ⟨rfl, rfl, rfl⟩

/-- Nothing is published under the id of a call whose handler waits for it. -/
theorem Sound.paid_nil (h : Sound s) {k : Nat} {id : String} (hpair : Pair s k p call)
    (hid : call.correlation_id = some id) (hcalling : p.stage = .calling) : s.paid id = [] := by
  unfold Sender.paid Sender.completionsOf
  rw [List.map_eq_nil_iff, List.filter_eq_nil_iff]
  intro c hc heq
  obtain ⟨j, q, other, hq, hother, hne⟩ := h.published c hc
  have hcid : c.message_id = id := by simpa using heq
  obtain ⟨_, rfl, _⟩ := h.pair_inj hpair hq hid (hcid ▸ hother)
  exact hne hcalling

/-- A handler that is beside a call. -/
theorem Sound.exists_pair (h : Sound s) {k : Nat} (hcall : s.client.calls[k]? = some call) :
    ∃ p, Pair s k p call := by
  have hlt : k < s.proxies.length := by
    rw [h.length]
    exact (List.getElem?_eq_some_iff.mp hcall).1
  exact ⟨_, List.getElem?_eq_getElem hlt, hcall⟩

/-! ## What one step does with the ledger -/

theorem HasTaken.step {c c' : RPCClient} {e : Event} {message : Response} {url : String}
    (h : rpc_client.Sound c) (hs : c.step e = some c') (hid : message.correlation_id ≠ none)
    (htaken : ∃ call ∈ c.calls, HasTaken call message url) :
    ∃ call ∈ c'.calls, HasTaken call message url := by
  obtain ⟨call, hmem, hcid, first, hdone, hurl⟩ := htaken
  obtain ⟨k, hk⟩ := List.mem_iff_getElem?.mp hmem
  obtain ⟨id, hmid⟩ := Option.ne_none_iff_exists'.mp hid
  obtain ⟨call', hk', rfl | hturn⟩ := turn_to_step h hs hk
  · exact ⟨call', List.mem_of_getElem? hk', hcid, first, hdone, hurl⟩
  · refine ⟨call', List.mem_of_getElem? hk', ?_, first, ?_, hurl⟩
    · rw [hmid]
      exact hturn.sameCall.id id (hcid.trans hmid)
    · exact hturn.keeps_done (hcid.trans hmid) hdone

/-- A reply that names a url is there after the event that brings it. -/
theorem hasTaken_of_response {client : RPCClient} {message : Response} {url : String}
    (h : rpc_client.Sound s.client)
    (hs : s.client.step (.on_response message) = some client)
    (hok : NothingFails validate s (.client (.on_response message)))
    (hurl : named message = some url) :
    message.correlation_id ≠ none ∧ ∃ call ∈ client.calls, HasTaken call message url := by
  obtain ⟨hid, ⟨⟨call, hmem, hcid, hp, _⟩, _⟩ | htaken⟩ := hok url hurl
  · refine ⟨hid, ?_⟩
    obtain ⟨k, hk⟩ := List.mem_iff_getElem?.mp hmem
    obtain ⟨id, hmid⟩ := Option.ne_none_iff_exists'.mp hid
    cases hs
    have hafter := on_response_answers h hk (hcid.trans hmid) hmid hp
    exact ⟨_, List.mem_of_getElem? hafter, hcid, message, rfl, hurl⟩
  · exact ⟨hid, HasTaken.step h hs hid htaken⟩

/-- The call and its handler after a step of the client. -/
theorem stands_client {e : Event} {client : RPCClient} (h : Sound s)
    (hstands : ∀ k p call message id url, Pair s k p call → call.future = .done message →
      named message = some url → call.correlation_id = some id →
      Stands validate s p call message id url)
    (he : isStart e = false) (hs : s.client.step e = some client)
    (hok : NothingFails validate s (.client e)) {k : Nat} {call' : Call} {message : Response}
    {id url : String} (hp : s.proxies[k]? = some p) (hcall' : client.calls[k]? = some call')
    (hdone' : call'.future = .done message) (hurl : named message = some url)
    (hid' : call'.correlation_id = some id) :
    Stands validate { s with client := client } p call' message id url := by
  rcases turn_of_step h.client hs hcall' with hsame | ⟨_, arguments, rfl, _⟩ |
    ⟨call, hcall, hturn⟩
  · obtain ⟨hvalid, hcalling, hledger⟩ := hstands k p call' message id url
      ⟨hp, hsame⟩ hdone' hurl hid'
    exact ⟨hvalid, hcalling, hledger⟩
  · cases he
  · have hpair : Pair s k p call := ⟨hp, hcall⟩
    have hfails : (∀ call message, s.client.calls[k]? = some call → call.future = .done message →
        named message = none) → call.future ≠ .done message := by
      intro hnone hdone
      rw [hnone call message hcall hdone] at hurl
      cases hurl
    rcases hturn.done hdone' with hdone | ⟨rfl, hpending, id₀, hid, hmid⟩
    · obtain ⟨id₀, hid⟩ := h.named call (List.mem_of_getElem? hcall) message hdone
      cases (hturn.sameCall.id id₀ hid).symm.trans hid'
      obtain ⟨hvalid, hcalling, hledger⟩ := hstands k p call message id url hpair hdone hurl hid
      refine ⟨hvalid, fun hc => ?_, hledger⟩
      obtain ⟨hpaid, hstage⟩ := hcalling hc
      refine ⟨hpaid, ?_⟩
      cases hturn with
      | published hpublish => exact .inl rfl
      | resume hwait hfirst =>
        cases hdone.symm.trans hfirst
        exact .inr (.inr rfl)
      | answered _ _ hpending =>
        rw [hdone] at hpending
        cases hpending
      | publish_raises _ => exact absurd hdone (hfails hok)
      | timer _ => exact absurd hdone (hfails hok)
      | cancel_wait _ => exact absurd hdone (hfails hok)
      | cancel _ => exact absurd hdone (hfails hok)
      | registers _ hnone =>
        rw [hnone] at hid
        cases hid
      | overloaded hget => simp [hget] at hstage
      | queue_raises hget => simp [hget] at hstage
      | timeout hexpired => simp [hexpired] at hstage
    · cases (hturn.sameCall.id id₀ hid).symm.trans hid'
      obtain ⟨_, ⟨⟨other, hmem, hcid, _, hstage⟩, hvalid⟩ |
        ⟨other, hmem, hcid, first, hfirst, _⟩⟩ := hok url hurl
      · obtain ⟨j, hj⟩ := List.mem_iff_getElem?.mp hmem
        obtain rfl := h.client.distinct j k other call hj hcall id (hcid.trans hmid) hid
        cases hj.symm.trans hcall
        have hcalling : p.stage = .calling := by
          by_contra hne
          obtain ⟨ending, hended⟩ := (h.linked j p call hpair).ended hne
          simp [hended] at hstage
        have hsame : call'.stage = call.stage ∧ call'.arguments = call.arguments := by
          cases hturn with
          | answered _ _ _ => exact ⟨rfl, rfl⟩
        refine ⟨hvalid, fun _ => ⟨h.paid_nil hpair hid hcalling, ?_⟩,
          fun hne => absurd hcalling hne⟩
        rw [hsame.1, hsame.2]
        exact hstage.imp_right .inl
      · obtain ⟨j, hj⟩ := List.mem_iff_getElem?.mp hmem
        obtain rfl := h.client.distinct j k other call hj hcall id (hcid.trans hmid) hid
        cases hj.symm.trans hcall
        rw [hpending] at hfirst
        cases hfirst

/-- After a valid reply that names the url, the handler sends the request there. -/
theorem answered_of_named (hkeeps : KeepsUrl validate) {message : Response} {id url : String}
    (hurl : named message = some url)
    (hvalid : ((llm_params_dict message.body).bind validate).isSome = true)
    (hid : message.correlation_id = some id) :
    ∃ req, p.answered validate message = .sending id url req := by
  obtain ⟨members, hmembers, htext⟩ := Option.bind_eq_some_iff.mp hurl
  rw [hmembers, Option.bind_some] at hvalid
  obtain ⟨llm_params, hparams⟩ := Option.isSome_iff_exists.mp hvalid
  refine ⟨build_request p.request llm_params url, ?_⟩
  simp only [Proxy.answered, hmembers, hparams, hkeeps members llm_params hparams url htext, hid,
    Option.getD_some]

/-- What one handler publishes is under the id of its call. -/
theorem paid_publish (h : Sound s) {k : Nat} (hpair : Pair s k p call) {e : ProxyEvent}
    {stage : Stage} {new : List Completion} (hgo : p.step validate call e = some (stage, new))
    (client : RPCClient) (proxies : List Proxy) {id : String}
    (hid : call.correlation_id = some id) :
    Sender.paid ⟨client, proxies, s.completions ++ new⟩ id =
      s.paid id ++ new.map Completion.grant := by
  rw [paid_append, List.filter_eq_self.mpr]
  intro c hc
  have howed := (h.linked k p call hpair).owed _ (owed_of_published hgo hc).1
  cases hid.symm.trans howed
  simp [Completion.grant]

theorem paid_publish_of_ne (h : Sound s) {j k : Nat} {q : Proxy} {other : Call}
    (hpair : Pair s k p call) (hother : Pair s j q other) (hjk : j ≠ k) {e : ProxyEvent}
    {stage : Stage} {new : List Completion} (hgo : q.step validate other e = some (stage, new))
    (client : RPCClient) (proxies : List Proxy) {id : String}
    (hid : call.correlation_id = some id) :
    Sender.paid ⟨client, proxies, s.completions ++ new⟩ id = s.paid id := by
  rw [paid_append, List.filter_eq_nil_iff.mpr, List.map_nil, List.append_nil]
  intro c hc heq
  have howed := (h.linked j q other hother).owed _ (owed_of_published hgo hc).1
  have hcid : c.message_id = id := by simpa using heq
  exact hjk (h.pair_inj hpair hother hid (howed.trans (congrArg some hcid))).1

/-- The handler whose turn it is. -/
theorem stands_handler (hkeeps : KeepsUrl validate) (h : Sound s) {k : Nat}
    (hpair : Pair s k p call) {e : ProxyEvent} {stage : Stage} {new : List Completion}
    (hgo : p.step validate call e = some (stage, new)) (hok : e = .raises → p.owes = [])
    {message : Response} {id url : String} (hdone : call.future = .done message)
    (hurl : named message = some url) (hid : call.correlation_id = some id)
    (hstands : Stands validate s p call message id url) (client : RPCClient)
    (proxies : List Proxy) :
    Stands validate ⟨client, proxies, s.completions ++ new⟩ { p with stage := stage } call message
      id url := by
  obtain ⟨hvalid, hcalling, hledger⟩ := hstands
  have hpublish := paid_publish h hpair hgo client proxies hid
  refine ⟨hvalid, fun hc => absurd hc (stage_ne_calling_of_step hgo), fun _ => ?_⟩
  rw [hpublish, List.append_assoc]
  by_cases hp : p.stage = .calling
  · obtain ⟨hpaid, hstage⟩ := hcalling hp
    cases goes_of_step hgo with
    | returned _ hended =>
      have hresponse : call.stage = .ended (.response message) := by
        rcases hstage with heq | ⟨heq, _⟩ | heq
        · cases hended.symm.trans heq
        · cases hended.symm.trans heq
        · exact heq
      cases hended.symm.trans hresponse
      have hsound := h.client.calls call (List.mem_of_getElem? hpair.call)
      obtain ⟨req, hreq⟩ := answered_of_named (p := p) hkeeps hurl hvalid
        ((hsound.answered message hdone).trans hid)
      simp only [Proxy.returned, hreq, Proxy.owes, hpaid, List.map_nil, List.nil_append]
    | _ => simp_all only [reduceCtorEq]
  · rw [owes_step hgo hp hok]
    exact hledger hp

theorem paid_step (hkeeps : KeepsUrl validate) {es : List SenderEvent} {e : SenderEvent}
    (h : Paid validate es s) (hok : NothingFails validate s e) (hs : s.step validate e = some s') :
    Paid validate (es ++ [e]) s' := by
  have hsound := sound_step h.sound hs
  refine ⟨hsound, ?_, ?_⟩
  · intro message url hmem hurl
    have hold : .client (.on_response message) ∈ es → ∀ {e' : Event} {client : RPCClient},
        s.client.step e' = some client →
        message.correlation_id ≠ none ∧ ∃ call ∈ client.calls, HasTaken call message url := by
      intro hes _ _ hstep
      obtain ⟨hid, htaken⟩ := h.received message url hes hurl
      exact ⟨hid, HasTaken.step h.sound.client hstep hid htaken⟩
    cases moves_of_step hs with
    | request hstart =>
      refine hold ?_ hstart
      simpa using hmem
    | client he hstep =>
      rcases List.mem_append.mp hmem with hmem | hmem
      · exact hold hmem hstep
      · cases List.mem_singleton.mp hmem
        exact hasTaken_of_response h.sound.client hstep hok hurl
    | handler hp hcall hgo => exact h.received message url (by simpa using hmem) hurl
  · intro k p' call' message id url hpair hdone hurl hid
    cases moves_of_step hs with
    | request hstart =>
      rename_i user request client
      have hlength := h.sound.length
      have hstands := h.stands
      cases hstart
      rcases hpair.of_requested hlength with hpair | ⟨rfl, rfl⟩
      · obtain ⟨hvalid, hcalling, hledger⟩ := hstands k p' call' message id url hpair hdone hurl hid
        exact ⟨hvalid, hcalling, hledger⟩
      · cases hdone
    | client he hstep =>
      exact stands_client h.sound h.stands he hstep hok hpair.handler hpair.call hdone hurl hid
    | handler hp hcall hgo =>
      rename_i j e p call stage new
      rcases Pair.of_gone ⟨hp, hcall⟩ hpair with ⟨rfl, rfl, rfl⟩ | ⟨hjk, hpair⟩
      · refine stands_handler hkeeps h.sound ⟨hp, hcall⟩ hgo ?_ hdone hurl hid
          (h.stands j p _ message id url ⟨hp, hcall⟩ hdone hurl hid) _ _
        rintro rfl
        exact hok p hp
      · obtain ⟨hvalid, hcalling, hledger⟩ :=
          h.stands k p' call' message id url hpair hdone hurl hid
        have hpaid := paid_publish_of_ne h.sound hpair ⟨hp, hcall⟩ hjk hgo s.client
          (s.proxies.set j { p with stage := stage }) hid
        exact ⟨hvalid, fun hc => ⟨hpaid.trans (hcalling hc).1, (hcalling hc).2⟩,
          fun hne => hpaid.symm ▸ hledger hne⟩

/-! ## Every handler can come to its end -/

/-- Some run in which nothing fails takes the handler to where it owes nothing. -/
def CanEnd (validate : List (PyStr × Json) → Option MessageData) (s : Sender) (k : Nat) : Prop :=
  CanCome validate (NothingFails validate) (fun p => ¬p.UnderWay) s k

theorem nothingFails_handler (s : Sender) {k : Nat} {e : ProxyEvent} (he : e ≠ .raises) :
    NothingFails validate s (.handler k e) := by
  cases e with
  | raises => exact absurd rfl he
  | _ => trivial

theorem canEnd_background {k : Nat} {outcome : Outcome} {tasks : List BackgroundTask}
    (hpair : Pair s k p call) (hp : p.stage = .background outcome tasks) : CanEnd validate s k := by
  induction tasks generalizing s p with
  | nil =>
    refine canCome_here hpair.handler ?_
    simp [Proxy.UnderWay, Proxy.owes, hp, owedBy]
  | cons task tasks ih =>
    have hgo : ∃ new, p.step validate call .task_done = some (.background outcome tasks, new) := by
      cases task <;> exact ⟨_, by simp only [Proxy.step, hp]; rfl⟩
    obtain ⟨new, hgo⟩ := hgo
    exact canCome_of_handler hpair hgo (nothingFails_handler s (by simp))
      fun _ hpair' => ih hpair' rfl

theorem canEnd_streaming {k : Nat} {response : StreamingResponse} {left : List ByteArray}
    {tasks : List BackgroundTask} (hpair : Pair s k p call)
    (hp : p.stage = .streaming response left tasks) : CanEnd validate s k :=
  canCome_of_streaming hpair hp (fun s _ he => nothingFails_handler s he)
    fun _ _ _ _ hpair' hp' => canEnd_background hpair' hp'

/-- A handler that is past its call. -/
theorem canEnd_of_stage {k : Nat} (hpair : Pair s k p call) (hp : p.stage ≠ .calling) :
    CanEnd validate s k := by
  cases hstage : p.stage with
  | calling => exact absurd hstage hp
  | sending id llm_url req =>
    refine canCome_of_handler hpair (e := .sent "" ⟨200, ∅, []⟩)
      (by simp only [Proxy.step, hstage]; rfl) (nothingFails_handler s (by simp)) ?_
    exact fun _ hpair' => canEnd_streaming hpair' rfl
  | streaming response left tasks => exact canEnd_streaming hpair hstage
  | background outcome tasks => exact canEnd_background hpair hstage
  | ended outcome =>
    refine canCome_here hpair.handler ?_
    simp [Proxy.UnderWay, Proxy.owes, hstage]

theorem canEnd_of_stands {k : Nat} (hpair : Pair s k p call) {message : Response} {id url : String}
    (hdone : call.future = .done message) (hid : call.correlation_id = some id)
    (h : Stands validate s p call message id url) : CanEnd validate s k := by
  by_cases hp : p.stage = .calling
  · have hended : ∀ {s : Sender} {other : Call}, Pair s k p other →
        other.stage = .ended (.response message) → CanEnd validate s k := by
      intro s other hpair' hstage
      have hgo : p.step validate other (.returned false) =
          some (p.returned validate false (.response message), []) := by
        simp only [Proxy.step, hp, hstage]
      exact canCome_of_handler hpair' hgo (nothingFails_handler s (by simp))
        fun _ hpair'' => canEnd_of_stage hpair'' (stage_ne_calling_of_step hgo)
    have hwaits : ∀ {s : Sender} {other : Call}, Pair s k p other → other.stage = .wait_for →
        other.future = .done message → CanEnd validate s k := by
      intro s other hpair' hstage hfirst
      have hresume : s.client.step (.resume k) =
          some (s.client.update k { other with stage := .ended (.response message) }) := by
        simp only [RPCClient.step, hpair'.call, Option.bind_some, hstage, hfirst]
      refine canCome_of_client hpair'.handler hresume rfl trivial fun s' hclient hp' => ?_
      have hcall' : s'.client.calls[k]? =
          some { other with stage := .ended (.response message) } := by
        rw [hclient]
        exact getElem?_update_self hpair'.call
      exact hended ⟨hp', hcall'⟩ rfl
    rcases (h.calling hp).2 with hstage | ⟨hstage, hoctet⟩ | hstage
    · exact hwaits hpair hstage hdone
    · obtain ⟨priority, hpriority⟩ := Option.isSome_iff_exists.mp hoctet
      obtain ⟨sent, hsent⟩ : ∃ sent, call.message? s.client.callback_queue = some sent :=
        ⟨_, by simp [Call.message?, hpriority, hid]; rfl⟩
      have hpublished : s.client.step (.published k) =
          some { s.client.update k { call with stage := .wait_for } with
            sent := s.client.sent ++ [sent] } := by
        simp [RPCClient.step, hpair.call, hstage, hsent]
      refine canCome_of_client hpair.handler hpublished rfl trivial fun s' hclient hp' => ?_
      have hcall' : s'.client.calls[k]? = some { call with stage := .wait_for } := by
        rw [hclient]
        exact getElem?_update_self hpair.call
      exact hwaits ⟨hp', hcall'⟩ rfl hdone
    · exact hended hpair hstage
  · exact canEnd_of_stage hpair hp

/-! ## The law -/

theorem paid_run (hkeeps : KeepsUrl validate) {callback_queue : String} {es : List SenderEvent}
    (h : Run (Sender.step validate) (NothingFails validate) (.create callback_queue) es s) :
    Paid validate es s :=
  h.invariant_of_events (paid_create validate callback_queue) fun _ _ _ _ hi hok hs =>
    paid_step hkeeps hi hok hs

theorem Stands.cases {message : Response} {id url : String}
    (h : Stands validate s p call message id url) :
    GivenBack s id p.request.model url ∨ (s.completionsOf id = [] ∧ p.UnderWay) := by
  by_cases hp : p.stage = .calling
  · exact .inr ⟨List.map_eq_nil_iff.mp (h.calling hp).1, .inl hp⟩
  · have hledger := h.ledger hp
    rcases List.append_eq_singleton_iff.mp hledger with ⟨hpaid, howes⟩ | ⟨hpaid, _⟩
    · exact .inr ⟨List.map_eq_nil_iff.mp hpaid, .inr (by simp [howes])⟩
    · exact .inl (givenBack_of_paid hpaid)

/-- While nothing fails, the slot that a reply grants is given back once: it is, or the handler
is still on its way to it, and can come there. -/
theorem granted_slots_are_given_back_when_nothing_fails (hkeeps : KeepsUrl validate)
    {callback_queue : String} {es : List SenderEvent}
    (h : Run (Sender.step validate) (NothingFails validate) (.create callback_queue) es s)
    {message : Response} {url : String} (hreply : .client (.on_response message) ∈ es)
    (hurl : named message = some url) :
    ∃ id k p call, message.correlation_id = some id ∧ Pair s k p call ∧
      call.correlation_id = some id ∧
      (GivenBack s id call.arguments.model url ∨ (s.completionsOf id = [] ∧ p.UnderWay)) ∧
      ∃ es' s', Run (Sender.step validate) (NothingFails validate) s es' s' ∧
        GivenBack s' id call.arguments.model url := by
  have hpaid := paid_run hkeeps h
  obtain ⟨hne, call, hmem, hcid, first, hdone, hfirst⟩ := hpaid.received message url hreply hurl
  obtain ⟨id, hmid⟩ := Option.ne_none_iff_exists'.mp hne
  obtain ⟨k, hk⟩ := List.mem_iff_getElem?.mp hmem
  obtain ⟨p, hpair⟩ := hpaid.sound.exists_pair hk
  have hid := hcid.trans hmid
  have hstands := hpaid.stands k p call first id url hpair hdone hfirst hid
  have hmodel := (hpaid.sound.linked k p call hpair).model
  refine ⟨id, k, p, call, hmid, hpair, hid, hmodel ▸ hstands.cases, ?_⟩
  obtain ⟨es', s', q, hrun, hq, hend⟩ := canEnd_of_stands hpair hdone hid hstands
  refine ⟨es', s', hrun, ?_⟩
  -- the reply is also one of the longer run, and its call is the same one there
  have hpaid' := paid_run hkeeps (h.append hrun)
  obtain ⟨call', hcall', hsame⟩ := sameCall_run hpaid.sound hrun hk
  obtain ⟨_, other, hother, hoid, first', hdone', hfirst'⟩ :=
    hpaid'.received message url (List.mem_append_left _ hreply) hurl
  obtain ⟨j, hj⟩ := List.mem_iff_getElem?.mp hother
  have hid' := hsame.id id hid
  obtain rfl := hpaid'.sound.client.distinct j k other call' hj hcall' id (hoid.trans hmid) hid'
  cases hj.symm.trans hcall'
  have hpair' : Pair s' j q call' := ⟨hq, hj⟩
  have hstands' := hpaid'.stands j q call' first' id url hpair' hdone' hfirst' hid'
  have hgiven := hstands'.cases.resolve_right fun hunder => hend hunder.2
  rw [← hsame.arguments, (hpaid'.sound.linked j q call' hpair').model]
  exact hgiven

/-- The two required members, and the url. -/
def requiredParams (members : List (PyStr × Json)) : Option MessageData :=
  match memberText members "strategy", getMember members "max_parallel_requests" with
  | some strategy, .int max_parallel_requests =>
    some { llm_url := memberText members "llm_url", strategy, max_parallel_requests }
  | _, _ => none

theorem requiredParams_keepsUrl : KeepsUrl requiredParams := by
  intro members data h url hurl
  unfold requiredParams at h
  split at h
  · cases h
    exact hurl
  · cases h

/-- A reply that names a server. -/
def grantedReply : Response where
  correlation_id := some "1"
  body := ("\x7b\"llm_url\": \"http://a\", \"strategy\": \"round-robin\", " ++
    "\"max_parallel_requests\": 1\x7d").toUTF8

/-- A request for any server. -/
def anyRequest : Request :=
  ⟨"POST", "/v1/completions", none, ByteArray.empty, [], "model", "any", 0, true⟩

def someUser : User := ⟨"user", none, none, none⟩

/-- A call that waits. -/
def called : List SenderEvent :=
  [.request someUser anyRequest, .client (.queue_found 0 0 "1"), .client (.published 0)]

/-- Its request is proxied, and the completion goes out. -/
def proxied : List SenderEvent :=
  [.client (.resume 0), .handler 0 (.returned false), .handler 0 (.sent "now" ⟨200, ∅, []⟩),
    .handler 0 .stream_ends, .handler 0 .task_done, .handler 0 .task_done, .handler 0 .task_done,
    .handler 0 .task_done]

theorem a_granted_slot_is_given_back : ∃ s,
    Run (Sender.step requiredParams) (NothingFails requiredParams) (.create "reply")
      (called ++ [.client (.on_response grantedReply)] ++ proxied) s ∧
    named grantedReply = some "http://a" ∧
    ∃ id k p call, grantedReply.correlation_id = some id ∧ Pair s k p call ∧
      call.correlation_id = some id ∧
      (GivenBack s id call.arguments.model "http://a" ∨ (s.completionsOf id = [] ∧ p.UnderWay)) ∧
      ∃ es' s', Run (Sender.step requiredParams) (NothingFails requiredParams) s es' s' ∧
        GivenBack s' id call.arguments.model "http://a" := by
  have hexec : ((exec (Sender.step requiredParams) (.create "reply") called).bind fun s =>
      (s.step requiredParams (.client (.on_response grantedReply))).bind fun s' =>
        (exec (Sender.step requiredParams) s' proxied).map fun _ => s.client.calls) =
      some [⟨⟨0, 0, "model", "None", "any"⟩, some "1", .pending, .wait_for⟩] := by decide +kernel
  obtain ⟨s, hs, hexec⟩ := Option.bind_eq_some_iff.mp hexec
  obtain ⟨s', hs', hexec⟩ := Option.bind_eq_some_iff.mp hexec
  obtain ⟨t, ht, hcalls⟩ := Option.map_eq_some_iff.mp hexec
  have hreply : NothingFails requiredParams s (.client (.on_response grantedReply)) := by
    refine fun url _ => ⟨by decide, .inl ⟨⟨_, hcalls ▸ List.mem_singleton_self _, ?_⟩, ?_⟩⟩
    · exact ⟨rfl, rfl, .inl rfl⟩
    · decide +kernel
  have hrun : Run (Sender.step requiredParams) (NothingFails requiredParams) (.create "reply")
      (called ++ [.client (.on_response grantedReply)] ++ proxied) t := by
    refine (Run.append ?_ (Run.single hreply hs')).append ?_
    · refine (run_of_exec hs).of_events fun e he s => ?_
      simp only [called, List.mem_cons, List.not_mem_nil, or_false] at he
      rcases he with rfl | rfl | rfl <;> trivial
    · refine (run_of_exec ht).of_events fun e he s => ?_
      simp only [proxied, List.mem_cons, List.not_mem_nil, or_false] at he
      rcases he with rfl | rfl | rfl | rfl | rfl | rfl | rfl | rfl <;> trivial
  have hurl : named grantedReply = some "http://a" := by decide +kernel
  exact ⟨t, hrun, hurl, granted_slots_are_given_back_when_nothing_fails requiredParams_keepsUrl hrun
    (by simp) hurl⟩

/-- The handler has ended by an exception. -/
def Proxy.hasRaised (p : Proxy) : Bool :=
  match p.stage with
  | .ended .raised => true
  | _ => false

/-- The request to the server raises, and the slot that the reply granted is not given back. -/
theorem a_granted_slot_is_not_given_back :
    ¬∀ (validate : List (PyStr × Json) → Option MessageData) (callback_queue : String)
      (es : List SenderEvent) (s : Sender), KeepsUrl validate →
      Run (Sender.step validate) Any (.create callback_queue) es s →
      ∀ (message : Response) (url id : String), .client (.on_response message) ∈ es →
        named message = some url → message.correlation_id = some id →
        ∀ k p call, Pair s k p call → call.correlation_id = some id → ¬p.UnderWay →
          GivenBack s id call.arguments.model url := by
  intro hall
  have hexec : ((exec (Sender.step requiredParams) (.create "reply")
      (called ++ [.client (.on_response grantedReply), .client (.resume 0),
        .handler 0 (.returned false), .handler 0 .raises])).map fun s =>
          (s.client.calls[0]?.map (·.correlation_id), s.proxies[0]?.map Proxy.hasRaised,
            s.completions)) = some (some (some "1"), some true, []) := by decide +kernel
  obtain ⟨s, hs, hstate⟩ := Option.map_eq_some_iff.mp hexec
  simp only [Prod.mk.injEq] at hstate
  obtain ⟨hcall, hp, hnone⟩ := hstate
  obtain ⟨call, hcall, hid⟩ := Option.map_eq_some_iff.mp hcall
  obtain ⟨p, hp, hraised⟩ := Option.map_eq_some_iff.mp hp
  have hend : ¬p.UnderWay := by
    have hstage : p.stage = .ended .raised := by
      unfold Proxy.hasRaised at hraised
      split at hraised
      · assumption
      · cases hraised
    simp [Proxy.UnderWay, Proxy.owes, hstage]
  obtain ⟨c, hc, _⟩ := hall requiredParams "reply" _ s requiredParams_keepsUrl (run_of_exec hs)
    grantedReply "http://a" "1" (by simp) (by decide +kernel) rfl 0 p call ⟨hp, hcall⟩ hid hend
  rw [Sender.completionsOf, hnone] at hc
  cases hc

end aristote_dispatcher.proxy
