-- The consumer of a model with its clock, all senders, and what they exchange: replies and
-- completions, which the broker brings late, again or not at all. What the handlers of the
-- senders have running on a server, the consumer counts there, or is about to. The consumer does
-- not restart here: one that does starts with empty sets while requests still run.
import AristoteDispatcher.Completions
import AristoteDispatcher.GivenBack
import AristoteDispatcher.Grants
import AristoteDispatcher.Replies
import AristoteDispatcher.SlotLeases

open runs places
open pyfloat (PyFloat)
open json (Json PyStr Prints)
open aristote_dispatcher.settings aristote_dispatcher.messages
open aristote_dispatcher.rpc_server (State Callback Reply Leased LeasedEvent addition discarded
  roundRobinSettings noRepr)
open aristote_dispatcher.proxy (Proxy Sender SenderEvent Pair Grant called llm_params_dict)
open aristote_dispatcher.rpc_client (Response)
open aristote_dispatcher.message_data aristote_dispatcher.grants

namespace aristote_dispatcher.deployment

/-! ## The machine -/

/-- The grants and the completions of the slots of a consumer. -/
abbrev Entry := leases.Entry (VLLMServer × String)

structure Deployment (ι : Type*) where
  consumer : Logged Leased Entry
  /-- The replies that went out. -/
  replies : List Reply
  senders : ι → Sender
  /-- The ids of all calls so far. -/
  ids : List String

variable {ι : Type*}

def Deployment.create (cfg : Settings) (callback_queue : ι → String) : Deployment ι :=
  ⟨.start (.create cfg), [], fun i => .create (callback_queue i), []⟩

/-- The consumer at its last step. -/
def Deployment.state (d : Deployment ι) : State := d.consumer.state.state

/-- A step of the consumer or of a sender, or a completion or a reply comes. The numbers are
places in the lists of those that went out. -/
inductive DeploymentEvent (ι : Type*)
  | consumer (e : LeasedEvent)
  | completion (i : ι) (k : Nat)
  | sender (i : ι) (e : SenderEvent)
  | reply (k : Nat) (i : ι)

/-- Completions come from the senders only. -/
def isCompletion : LeasedEvent → Bool
  | .consumer (.completion _) => true
  | _ => false

/-- The reply that a step of the consumer publishes. -/
def published (s : State) : LeasedEvent → Option Reply
  | .consumer (.publish i) => s.callbacks[i]?.map Callback.reply
  | _ => none

/-- And replies from the consumer only. -/
def isResponse : SenderEvent → Bool
  | .client e => network.isResponse e
  | _ => false

def newId : SenderEvent → Option String
  | .client e => network.newId e
  | _ => none

/-- The message of a reply. -/
def response (float_repr : PyFloat → List Char) (reply : Reply) : Response :=
  ⟨some reply.correlation_id, body float_repr reply.llm_params⟩

section

variable [DecidableEq ι] (cfg : Settings) (repr : Json → PyStr) (float_repr : PyFloat → List Char)
  (v : Validators) (VLLM_TREATMENT_TIMEOUT_SECONDS lag : Nat)

def Deployment.step (d : Deployment ι) : DeploymentEvent ι → Option (Deployment ι)
  | .consumer e =>
    if isCompletion e = false then
      (Leased.logged cfg repr VLLM_TREATMENT_TIMEOUT_SECONDS lag d.consumer e).map fun consumer =>
        { d with
          consumer := consumer
          replies := d.replies ++ (published d.state e).toList }
    else none
  | .completion i k => (d.senders i).completions[k]?.bind fun c =>
    (Leased.logged cfg repr VLLM_TREATMENT_TIMEOUT_SECONDS lag d.consumer
      (.consumer (.completion c.body))).map fun consumer => { d with consumer := consumer }
  | .sender i e =>
    -- the ids of `uuid4` are new
    if isResponse e = false ∧ ∀ id ∈ newId e, id ∉ d.ids then
      ((d.senders i).step v.validate e).map fun sender =>
        { d with
          senders := Function.update d.senders i sender
          ids := d.ids ++ (newId e).toList }
    else none
  | .reply k i => d.replies[k]?.bind fun reply =>
    if reply.routing_key = some (d.senders i).client.callback_queue then
      ((d.senders i).step v.validate (.client (.on_response (response float_repr reply)))).map
        fun sender => { d with senders := Function.update d.senders i sender }
    else none

end

/-- Behind a reply that is out, neither its confirm nor the ack raises. -/
def Settles (s : State) : rpc_server.Event → Prop
  | .publish_raises i => ∀ c, s.callbacks[i]? = some c → c.phase = .publishing
  | .ack_raises _ => False
  | _ => True

def Confirmed (d : Deployment ι) : DeploymentEvent ι → Prop
  | .consumer (.consumer e) => Settles d.state e
  | _ => True

/-! ## What runs, and what is counted -/

/-- A handler of a sender has the request running on the server, or is to send its completion. -/
def Deployment.Running (d : Deployment ι) (server : VLLMServer) (id : String) : Prop :=
  ∃ i, ∃ p ∈ (d.senders i).proxies, ∃ g ∈ p.owes, g.server = server.url ∧ g.message_id = id

/-- The timeout of no grant of the slot is over. -/
def Deployment.Recent (VLLM_TREATMENT_TIMEOUT_SECONDS : Nat) (d : Deployment ι)
    (slot : VLLMServer × String) : Prop :=
  ∀ t, .granted slot t ∈ d.consumer.log → d.consumer.state.now < t + VLLM_TREATMENT_TIMEOUT_SECONDS

/-- The reply of the callback is out, and it is to count the id on the server. -/
def OnItsWay (server : VLLMServer) (c : Callback) : Prop :=
  c.vllm_server = some server ∧ c.phase ≠ .publishing

instance (server : VLLMServer) (c : Callback) : Decidable (OnItsWay server c) :=
  inferInstanceAs (Decidable (_ ∧ _))

variable {cfg : Settings} {repr : Json → PyStr} {s s' : State} {server : VLLMServer} {id : String}

/-! ## The consumer -/

/-- A callback whose reply is out counts its id where it ends, or goes on. -/
theorem onItsWay_step {e : rpc_server.Event} (hsound : rpc_server.Sound cfg s)
    (hserver : server ∈ cfg.VLLM_SERVERS)
    (h : ∃ c ∈ s.callbacks, c.message.id = id ∧ OnItsWay server c) (hok : Settles s e)
    (hs : s.step cfg repr e = some s') :
    (∃ c ∈ s'.callbacks, c.message.id = id ∧ OnItsWay server c) ∨
      addition s e = some (server, id) := by
  obtain ⟨c, hc, hid, hway⟩ := h
  cases rpc_server.moves_of_step hs with
  | deliver hq hfree => exact .inl ⟨c, List.mem_append_left _ hc, hid, hway⟩
  | @publish i other hother hp =>
    refine .inl ⟨c, mem_set_of_ne hother hc ?_, hid, hway⟩
    rintro rfl
    exact hway.2 hp
  | @publish_raises i other hother hp =>
    refine .inl ⟨c, mem_eraseIdx_of_ne hother hc ?_, hid, hway⟩
    rintro rfl
    exact hway.2 (hok c hother)
  | @ack i other hother hp =>
    by_cases heq : c = other
    · subst heq
      exact .inl ⟨_, List.mem_set (List.getElem?_eq_some_iff.mp hother).1 _, hid, hway.1, by simp⟩
    · exact .inl ⟨c, mem_set_of_ne hother hc heq, hid, hway⟩
  | ack_raises hother hp => exact hok.elim
  | @resume i other added hother hp hadded =>
    by_cases heq : c = other
    · subst heq
      obtain ⟨ids, hids⟩ := hsound.ids hserver
      right
      simp [addition, hother, hway.1, hids, hid]
    · refine .inl ⟨c, ?_, hid, hway⟩
      rw [rpc_server.callbacks_add]
      exact mem_eraseIdx_of_ne hother hc heq
  | @resume_none i other hother hp hnone =>
    refine .inl ⟨c, mem_eraseIdx_of_ne hother hc ?_, hid, hway⟩
    rintro rfl
    cases hway.1.symm.trans hnone
  | expire ht => exact .inl ⟨c, by rwa [rpc_server.callbacks_expire], hid, hway⟩
  | _ => exact .inl ⟨c, hc, hid, hway⟩

/-- The slot is granted, or a callback is to grant it. -/
def Deployment.Granting (d : Deployment ι) (server : VLLMServer) (id : String) : Prop :=
  (∃ c ∈ d.state.callbacks, c.message.id = id ∧ OnItsWay server c) ∨
    ∃ t, .granted (server, id) t ∈ d.consumer.log

variable {term lag : Nat} {l l' : Logged Leased Entry} {d d' : Deployment ι}

/-- Time passes, or the consumer goes on. -/
theorem consumer_step {e : LeasedEvent} (h : Leased.logged cfg repr term lag l e = some l') :
    (l'.state.state = l.state.state ∧ l'.log = l.log ∧ ∃ n, e = .tick n) ∨
      ∃ e', e = .consumer e' ∧ l.state.state.step cfg repr e' = some l'.state.state ∧
        l'.log = l.log ++ Leased.entries cfg repr l.state (.consumer e') := by
  obtain ⟨hs, hlog⟩ := logged_eq_some h
  cases e with
  | tick n =>
    obtain ⟨_, hs⟩ := Option.ite_none_right_eq_some.mp hs
    rw [← Option.some.inj hs]
    exact .inl ⟨rfl, by simpa [Leased.entries] using hlog, n, rfl⟩
  | consumer e =>
    obtain ⟨_, hs⟩ := Option.ite_none_right_eq_some.mp hs
    obtain ⟨state, hstep, heq⟩ := Option.map_eq_some_iff.mp hs
    rw [← heq]
    exact .inr ⟨e, rfl, hstep, hlog⟩

theorem mem_log_of_step {e : LeasedEvent} (h : Leased.logged cfg repr term lag l e = some l')
    {entry : Entry} (hentry : entry ∈ l.log) : entry ∈ l'.log := by
  rw [(logged_eq_some h).2]
  exact List.mem_append_left _ hentry

/-- A grant that stands or is to come still does. -/
theorem granting_step {e : LeasedEvent} (hsound : rpc_server.Sound cfg d.state)
    (hserver : server ∈ cfg.VLLM_SERVERS) (h : d.Granting server id)
    (hok : ∀ e', e = .consumer e' → Settles d.state e')
    (hs : Leased.logged cfg repr term lag d.consumer e = some l') (replies : List Reply) :
    Deployment.Granting { d with consumer := l', replies := replies } server id := by
  rcases h with hway | ⟨t, ht⟩
  · rcases consumer_step hs with ⟨hstate, _⟩ | ⟨e', rfl, hstep, hlog⟩
    · left
      rw [Deployment.state, hstate]
      exact hway
    · refine (onItsWay_step hsound hserver hway (hok e' rfl) hstep).imp_right fun hadds => ?_
      refine ⟨d.consumer.state.now, ?_⟩
      have hentry : Leased.entries cfg repr d.consumer.state (.consumer e') =
          [.granted (server, id) d.consumer.state.now] := by
        have hsome : addition d.consumer.state.state e' = some (server, id) := hadds
        rw [Leased.entries, hsome]
      dsimp only
      rw [hlog, hentry]
      exact List.mem_append_right _ (List.mem_singleton_self _)
  · exact .inr ⟨t, mem_log_of_step hs ht⟩

/-- The reply of a callback grants the server that the callback is to count it on. -/
theorem granting_of_published {e : LeasedEvent} (hgrants : Grants cfg d.state)
    (hs : Leased.logged cfg repr term lag d.consumer e = some l') {reply : Reply}
    (hreply : published d.state e = some reply) {url : String}
    (hurl : reply.llm_params.llm_url = some url) (replies : List Reply) :
    ∃ server ∈ cfg.VLLM_SERVERS, server.url = url ∧
      Deployment.Granting { d with consumer := l', replies := replies } server
        reply.correlation_id := by
  unfold published at hreply
  split at hreply
  · rename_i i
    obtain ⟨c, hc, rfl⟩ := Option.map_eq_some_iff.mp hreply
    rcases hgrants.callbacks c (List.mem_of_getElem? hc) with ⟨server, hserver, hchosen, hd⟩ |
      ⟨_, hnone⟩
    · refine ⟨server, hserver, Option.some.inj (hd.llm_url.symm.trans hurl), .inl ?_⟩
      rcases consumer_step hs with ⟨_, _, n, heq⟩ | ⟨e', heq, hstep, _⟩
      · cases heq
      · cases heq
        have hstate : l'.state.state = d.state.goOn i c .confirming := by
          obtain ⟨other, hother, _, heq⟩ := guarded_eq_some hstep
          cases hc.symm.trans hother
          exact heq.symm
        refine ⟨{ c with phase := .confirming }, ?_, rfl, hchosen, by simp⟩
        rw [Deployment.state, hstate]
        exact List.mem_set (List.getElem?_eq_some_iff.mp hc).1 _
    · cases hnone.symm.trans hurl
  · cases hreply

/-- A completion of a sender takes no other id than its own. -/
theorem id_of_discarded {c : proxy.Completion}
    (h : discarded cfg repr (.completion c.body) = some (server, id)) : c.message_id = id := by
  unfold discarded at h
  dsimp only at h
  split at h
  · cases h
  · rename_i data hread
    obtain ⟨used, _, h⟩ := Option.bind_eq_some_iff.mp h
    obtain ⟨id', hid, h⟩ := Option.bind_eq_some_iff.mp h
    cases h
    obtain ⟨data', hread', _, hname⟩ := rpc_server.names_completion_message repr
      ⟨c.server, none, "", 0⟩ c.message_id c.completed_at c.model c.user
    cases hread.symm.trans hread'
    rw [← hname, PyStr.toString?_ofString] at hid
    exact Option.some.inj hid

/-! ## One sender -/

variable {validate : List (PyStr × Json) → Option MessageData} {sender sender' : Sender}

/-- A slot that a handler owes: the only one, named in the response of its call, and no
completion gave it back. -/
structure Owing (validate : List (PyStr × Json) → Option MessageData) (sender : Sender)
    (p : Proxy) (call : rpc_client.Call) (g : Grant) : Prop where
  alone : p.owes = [g]
  unpaid : sender.paid g.message_id = []
  told : ∃ message llm_params, call.future = .done message ∧
    (llm_params_dict message.body).bind validate = some llm_params ∧
    llm_params.llm_url = some g.server

def AllOwing (validate : List (PyStr × Json) → Option MessageData) (sender : Sender) : Prop :=
  ∀ k p call, Pair sender k p call → ∀ g ∈ p.owes, Owing validate sender p call g

/-- A handler that sends its request has read the url in the response. -/
theorem told_of_answered {p : Proxy} {message : Response} {id llm_url : String}
    {req : proxy.LLMRequest} (h : p.answered validate message = .sending id llm_url req) :
    ∃ llm_params, (llm_params_dict message.body).bind validate = some llm_params ∧
      llm_params.llm_url = some llm_url := by
  unfold Proxy.answered at h
  split at h
  · cases h
  · rename_i members hmembers
    split at h
    · cases h
    · rename_i llm_params hvalidate
      split at h
      · cases h
      · rename_i url hurl
        cases h
        exact ⟨llm_params, by rw [hmembers, Option.bind_some, hvalidate], hurl⟩

/-- A handler that owes one slot at most owes none behind what raises. -/
theorem owes_of_raises {p : Proxy} {call : rpc_client.Call} {stage : proxy.Stage}
    {new : List proxy.Completion} (hgo : p.step validate call .raises = some (stage, new))
    (halone : ∀ g ∈ p.owes, p.owes = [g]) : Proxy.owes { p with stage := stage } = [] := by
  cases proxy.goes_of_step hgo with
  | @completion_raises outcome completion tasks hp =>
    have howes : p.owes = completion.grant :: proxy.owedBy tasks := by
      simp only [Proxy.owes, hp, proxy.owedBy_completion]
    have hone := halone completion.grant (howes ▸ List.mem_cons_self)
    rw [howes] at hone
    exact (List.cons.inj hone).2
  | _ => rfl

/-- The handler whose turn it is. -/
theorem owing_handler (h : proxy.Sound sender) (howing : AllOwing validate sender) {k : Nat}
    {p : Proxy} {call : rpc_client.Call} (hpair : Pair sender k p call) {e : proxy.ProxyEvent}
    {stage : proxy.Stage} {new : List proxy.Completion}
    (hgo : p.step validate call e = some (stage, new)) {g : Grant}
    (hg : g ∈ Proxy.owes { p with stage := stage }) :
    Proxy.owes { p with stage := stage } = [g] ∧ new = [] ∧
      sender.paid g.message_id = [] ∧ ∃ message llm_params, call.future = .done message ∧
        (llm_params_dict message.body).bind validate = some llm_params ∧
        llm_params.llm_url = some g.server := by
  by_cases hcalling : p.stage = .calling
  · cases proxy.goes_of_step hgo with
    | @returned channel_closed ending hp hended =>
      cases ending with
      | response message =>
        rw [Proxy.returned] at hg ⊢
        rcases proxy.answered_cases validate p message with ⟨llm_url, req, heq⟩ | ⟨outcome, heq⟩
        · obtain ⟨llm_params, hparams, hurl⟩ := told_of_answered heq
          have hdone := (h.client.calls call (List.mem_of_getElem? hpair.call)).returned _ hended
          obtain ⟨id, hid⟩ := h.named call (List.mem_of_getElem? hpair.call) message hdone
          have hname := (h.client.calls call (List.mem_of_getElem? hpair.call)).answered _ hdone
          rw [heq] at hg ⊢
          cases List.mem_singleton.mp hg
          refine ⟨rfl, rfl, ?_, message, llm_params, hdone, hparams, hurl⟩
          rw [hname, hid, Option.getD_some]
          exact h.paid_nil hpair hid hcalling
        · rw [heq] at hg
          cases hg
      | _ => cases hg
    | _ => simp_all only [reduceCtorEq]
  · have hraises : e ≠ .raises := by
      rintro rfl
      rw [owes_of_raises hgo fun g' hg' => (howing k p call hpair g' hg').alone] at hg
      cases hg
    have hsame := proxy.owes_step hgo hcalling fun heq => absurd heq hraises
    have hold : g ∈ p.owes := hsame ▸ List.mem_append_right _ hg
    obtain ⟨halone, hunpaid, htold⟩ := howing k p call hpair g hold
    rw [halone] at hsame
    rcases List.append_eq_singleton_iff.mp hsame with ⟨hnew, howes⟩ | ⟨_, howes⟩
    · exact ⟨howes, List.map_eq_nil_iff.mp hnew, hunpaid, htold⟩
    · rw [howes] at hg
      cases hg

theorem allOwing_create (callback_queue : String) : AllOwing validate (.create callback_queue) :=
  fun _ _ _ hpair => (by cases hpair.handler)

/-- A step of the client leaves what its handlers owe. -/
theorem allOwing_client (h : proxy.Sound sender) (howing : AllOwing validate sender)
    {e : rpc_client.Event} {client : rpc_client.RPCClient} (he : proxy.isStart e = false)
    (hs : sender.client.step e = some client) :
    AllOwing validate { sender with client := client } := by
  intro k p call' hpair g hg
  rcases rpc_client.turn_of_step h.client hs hpair.call with hsame | ⟨_, arguments, rfl, _⟩ |
    ⟨call, hcall, hturn⟩
  · obtain ⟨halone, hunpaid, htold⟩ := howing k p call' ⟨hpair.handler, hsame⟩ g hg
    exact ⟨halone, hunpaid, htold⟩
  · cases he
  · have hold : Pair sender k p call := ⟨hpair.handler, hcall⟩
    obtain ⟨halone, hunpaid, message, llm_params, hdone, htold⟩ := howing k p call hold g hg
    have hid := (h.linked k p call hold).owed g hg
    exact ⟨halone, hunpaid, message, llm_params, hturn.keeps_done hid hdone, htold⟩

/-- What every sender keeps of the slots that are owed. -/
theorem allOwing_step {e : SenderEvent} (h : proxy.Sound sender)
    (howing : AllOwing validate sender) (hs : sender.step validate e = some sender') :
    AllOwing validate sender' := by
  cases proxy.moves_of_step hs with
  | request hstart =>
    cases hstart
    intro k p call hpair g hg
    rcases hpair.of_requested h.length with hold | ⟨rfl, rfl⟩
    · obtain ⟨halone, hunpaid, htold⟩ := howing k p call hold g hg
      exact ⟨halone, hunpaid, htold⟩
    · cases hg
  | client he hstep => exact allOwing_client h howing he hstep
  | @handler k e p call stage new hp hcall hgo =>
    have hpair : Pair sender k p call := ⟨hp, hcall⟩
    intro j q other hother g hg
    rcases hpair.of_gone hother with ⟨rfl, rfl, rfl⟩ | ⟨hkj, hold⟩
    · obtain ⟨halone, rfl, hunpaid, htold⟩ := owing_handler h howing hpair hgo hg
      refine ⟨halone, ?_, htold⟩
      rw [List.append_nil]
      exact hunpaid
    · obtain ⟨halone, hunpaid, htold⟩ := howing j q other hold g hg
      refine ⟨halone, ?_, htold⟩
      have hid := (h.linked j q other hold).owed g hg
      rw [proxy.paid_publish_of_ne h hold hpair hkj hgo _ _ hid]
      exact hunpaid

/-- What a step of a sender is for its client. -/
theorem client_of_step {e : SenderEvent} (hs : sender.step validate e = some sender') :
    (sender'.client = sender.client ∧ newId e = none) ∨
      ∃ e', sender.client.step e' = some sender'.client ∧ network.newId e' = newId e ∧
        ∀ message, e' = .on_response message → e = .client (.on_response message) := by
  cases proxy.moves_of_step hs with
  | request hstart => exact .inr ⟨_, hstart, rfl, nofun⟩
  | client he hstep => exact .inr ⟨_, hstep, rfl, fun message heq => congrArg _ heq⟩
  | handler hp hcall hgo => exact .inl ⟨rfl, rfl⟩

/-- Each handler has its call beside it. -/
theorem exists_pair (h : proxy.Sound sender) {p : Proxy} (hp : p ∈ sender.proxies) :
    ∃ k call, Pair sender k p call := by
  obtain ⟨k, hk⟩ := List.mem_iff_getElem?.mp hp
  have hlt := (List.getElem?_eq_some_iff.mp hk).1
  rw [h.length] at hlt
  exact ⟨k, _, hk, List.getElem?_eq_getElem hlt⟩

theorem mem_completions_of_step {e : SenderEvent} (hs : sender.step validate e = some sender')
    {c : proxy.Completion} (hc : c ∈ sender.completions) : c ∈ sender'.completions := by
  cases proxy.moves_of_step hs with
  | handler hp hcall hgo => exact List.mem_append_left _ hc
  | _ => exact hc

/-- The id of a call was there before the step, or is new. -/
theorem id_of_step {e : SenderEvent} (h : proxy.Sound sender)
    (hs : sender.step validate e = some sender') {call : rpc_client.Call}
    (hcall : call ∈ sender'.client.calls) (hid : call.correlation_id = some id) :
    (∃ old ∈ sender.client.calls, old.correlation_id = some id) ∨ newId e = some id := by
  rcases client_of_step hs with ⟨hsame, _⟩ | ⟨e', hstep, hnew, _⟩
  · exact .inl ⟨call, hsame ▸ hcall, hid⟩
  · obtain ⟨k, hk⟩ := List.mem_iff_getElem?.mp hcall
    rcases network.id_step h.client hstep hk hid with ⟨old, hold, hoid⟩ | hfresh
    · exact .inl ⟨old, List.mem_of_getElem? hold, hoid⟩
    · exact .inr (hnew ▸ hfresh)

/-- A response that a call has it had before, or the step brings it. -/
theorem done_of_step {e : SenderEvent} (h : proxy.Sound sender)
    (hs : sender.step validate e = some sender') {call : rpc_client.Call}
    (hcall : call ∈ sender'.client.calls) {message : Response}
    (hdone : call.future = .done message) :
    (∃ old ∈ sender.client.calls, old.future = .done message) ∨
      e = .client (.on_response message) := by
  rcases client_of_step hs with ⟨hsame, _⟩ | ⟨e', hstep, _, hresponse⟩
  · exact .inl ⟨call, hsame ▸ hcall, hdone⟩
  · obtain ⟨k, hk⟩ := List.mem_iff_getElem?.mp hcall
    rcases rpc_client.done_step h.client hstep hk hdone with ⟨old, hold, hodone⟩ | heq
    · exact .inl ⟨old, List.mem_of_getElem? hold, hodone⟩
    · exact .inr (hresponse message heq)

/-! ## What every deployment keeps -/

/-- The consumer grants what its replies name, and takes back what completions say. -/
structure ConsumerSide (cfg : Settings) (repr : Json → PyStr) (term lag : Nat)
    (d : Deployment ι) : Prop where
  run : ∃ es, Run (Leased.logged cfg repr term lag) Any (.start (.create cfg)) es d.consumer
  grants : Grants cfg d.state
  replies : ∀ reply ∈ d.replies, ∀ url, reply.llm_params.llm_url = some url →
    ∃ server ∈ cfg.VLLM_SERVERS, server.url = url ∧ d.Granting server reply.correlation_id
  released : ∀ server id, .released (server, id) ∈ d.consumer.log →
    ∃ i, ∃ c ∈ (d.senders i).completions, c.message_id = id

/-- The senders have ids of their own, and responses that are replies of the consumer. -/
structure SenderSide (float_repr : PyFloat → List Char) (v : Validators) (d : Deployment ι) :
    Prop where
  sound : ∀ i, proxy.Sound (d.senders i)
  owing : ∀ i, AllOwing v.validate (d.senders i)
  known : ∀ i, ∀ call ∈ (d.senders i).client.calls, ∀ id, call.correlation_id = some id →
    id ∈ d.ids
  apart : ∀ i j, ∀ call ∈ (d.senders i).client.calls, ∀ other ∈ (d.senders j).client.calls,
    ∀ id, call.correlation_id = some id → other.correlation_id = some id → i = j
  heard : ∀ i, ∀ call ∈ (d.senders i).client.calls, ∀ message, call.future = .done message →
    ∃ reply ∈ d.replies, message = response float_repr reply

variable {float_repr : PyFloat → List Char} {v : Validators}

theorem consumerSide_create (cfg : Settings) (callback_queue : ι → String) :
    ConsumerSide cfg repr term lag (.create cfg callback_queue) :=
  ⟨⟨[], .nil⟩, grants_create cfg, fun _ hr => (by cases hr), fun _ _ hr => (by cases hr)⟩

theorem senderSide_create (cfg : Settings) (callback_queue : ι → String) :
    SenderSide float_repr v (.create cfg callback_queue) :=
  ⟨fun i => proxy.sound_create _, fun i => allOwing_create _, fun _ _ hc => (by cases hc),
    fun _ _ _ hc => (by cases hc), fun _ _ hc => (by cases hc)⟩

section

variable [DecidableEq ι]

/-- The deployment after a step of one sender. -/
def Deployment.moved (d : Deployment ι) (i : ι) (e : SenderEvent) (sender : Sender) :
    Deployment ι where
  consumer := d.consumer
  replies := d.replies
  senders := Function.update d.senders i sender
  ids := d.ids ++ (newId e).toList

theorem moved_self (d : Deployment ι) (i : ι) (e : SenderEvent) (sender : Sender) :
    (d.moved i e sender).senders i = sender := Function.update_self ..

theorem moved_ne (d : Deployment ι) {i j : ι} (e : SenderEvent) (sender : Sender) (h : j ≠ i) :
    (d.moved i e sender).senders j = d.senders j := Function.update_of_ne h ..

theorem senderSide_moved (h : SenderSide float_repr v d) {i : ι} {e : SenderEvent}
    (hs : (d.senders i).step v.validate e = some sender') (hfresh : ∀ id ∈ newId e, id ∉ d.ids)
    (hresponse : ∀ message, e = .client (.on_response message) →
      ∃ reply ∈ d.replies, message = response float_repr reply) :
    SenderSide float_repr v (d.moved i e sender') := by
  have hid : ∀ {j call id}, call ∈ ((d.moved i e sender').senders j).client.calls →
      call.correlation_id = some id →
      (∃ old ∈ (d.senders j).client.calls, old.correlation_id = some id) ∨
        (j = i ∧ newId e = some id) := by
    intro j call id hcall hid
    by_cases hj : j = i
    · subst hj
      rw [moved_self] at hcall
      exact (id_of_step (h.sound j) hs hcall hid).imp_right fun hnew => ⟨rfl, hnew⟩
    · rw [moved_ne d e sender' hj] at hcall
      exact .inl ⟨call, hcall, hid⟩
  refine ⟨fun j => ?_, fun j => ?_, ?_, ?_, ?_⟩
  · by_cases hj : j = i
    · subst hj
      rw [moved_self]
      exact proxy.sound_step (h.sound j) hs
    · rw [moved_ne d e sender' hj]
      exact h.sound j
  · by_cases hj : j = i
    · subst hj
      rw [moved_self]
      exact allOwing_step (h.sound j) (h.owing j) hs
    · rw [moved_ne d e sender' hj]
      exact h.owing j
  · intro j call hcall id hname
    rcases hid hcall hname with ⟨old, hold, hoid⟩ | ⟨_, hnew⟩
    · exact List.mem_append_left _ (h.known j old hold id hoid)
    · exact List.mem_append_right _ (Option.mem_toList.mpr hnew)
  · intro j k call hcall other hother id hname hother_name
    rcases hid hcall hname with ⟨old, hold, hoid⟩ | ⟨hj, hnew⟩
    · rcases hid hother hother_name with ⟨old', hold', hoid'⟩ | ⟨_, hnew⟩
      · exact h.apart j k old hold old' hold' id hoid hoid'
      · exact absurd (h.known j old hold id hoid) (hfresh id hnew)
    · rcases hid hother hother_name with ⟨old', hold', hoid'⟩ | ⟨hk, _⟩
      · exact absurd (h.known k old' hold' id hoid') (hfresh id hnew)
      · rw [hj, hk]
  · intro j call hcall message hdone
    by_cases hj : j = i
    · subst hj
      rw [moved_self] at hcall
      rcases done_of_step (h.sound j) hs hcall hdone with ⟨old, hold, hodone⟩ | heq
      · exact h.heard j old hold message hodone
      · exact hresponse message heq
    · rw [moved_ne d e sender' hj] at hcall
      exact h.heard j call hcall message hdone

theorem consumerSide_moved (h : ConsumerSide cfg repr term lag d) {i : ι} {e : SenderEvent}
    (hs : (d.senders i).step validate e = some sender') :
    ConsumerSide cfg repr term lag (d.moved i e sender') where
  run := h.run
  grants := h.grants
  replies := h.replies
  released := by
    intro server id hr
    obtain ⟨j, c, hc, hid⟩ := h.released server id hr
    by_cases hj : j = i
    · subst hj
      refine ⟨j, c, ?_, hid⟩
      rw [moved_self]
      exact mem_completions_of_step hs hc
    · refine ⟨j, c, ?_, hid⟩
      rwa [moved_ne d e sender' hj]

omit [DecidableEq ι] in
theorem discarded_of_released {e : rpc_server.Event} {c : Leased}
    (h : .released (server, id) ∈ Leased.entries cfg repr c (.consumer e)) :
    discarded cfg repr e = some (server, id) := by
  unfold Leased.entries at h
  dsimp only at h
  split at h
  · simp at h
  · obtain ⟨slot, hslot, heq⟩ := Option.map_eq_some_iff.mp (Option.mem_toList.mp h)
    cases heq
    exact hslot

omit [DecidableEq ι] in
/-- A step of the consumer, where a completion is one of a sender. -/
theorem consumerSide_consumer (h : ConsumerSide cfg repr term lag d) {e : LeasedEvent}
    (hok : ∀ e', e = .consumer e' → Settles d.state e')
    (hs : Leased.logged cfg repr term lag d.consumer e = some l')
    (hcompletion : ∀ body, e = .consumer (.completion body) →
      ∃ i, ∃ c ∈ (d.senders i).completions, c.body = body) :
    ConsumerSide cfg repr term lag
      { d with consumer := l', replies := d.replies ++ (published d.state e).toList } where
  run := by
    obtain ⟨es, hrun⟩ := h.run
    exact ⟨es ++ [e], hrun.snoc trivial hs⟩
  grants := by
    rw [Deployment.state]
    rcases consumer_step hs with ⟨hstate, _⟩ | ⟨e', _, hstep, _⟩
    · rw [hstate]
      exact h.grants
    · exact grants_step h.grants hstep
  replies := by
    intro reply hr url hurl
    rcases List.mem_append.mp hr with hr | hr
    · obtain ⟨server, hserver, heq, hgranting⟩ := h.replies reply hr url hurl
      exact ⟨server, hserver, heq, granting_step h.grants.sound hserver hgranting hok hs _⟩
    · exact granting_of_published h.grants hs (Option.mem_toList.mp hr) hurl _
  released := by
    intro server id hr
    rcases consumer_step hs with ⟨_, hlog, _⟩ | ⟨e', rfl, _, hlog⟩
    · exact h.released server id (hlog ▸ hr)
    · dsimp only at hr
      rw [hlog] at hr
      rcases List.mem_append.mp hr with hr | hr
      · exact h.released server id hr
      · have hd := discarded_of_released hr
        have hbody : ∃ body, e' = .completion body := by
          unfold discarded at hd
          split at hd
          · exact ⟨_, rfl⟩
          · cases hd
        obtain ⟨body, rfl⟩ := hbody
        obtain ⟨i, c, hc, rfl⟩ := hcompletion body rfl
        exact ⟨i, c, hc, id_of_discarded hd⟩

omit [DecidableEq ι] in
/-- The senders do not see it. -/
theorem senderSide_consumer (h : SenderSide float_repr v d) (consumer : Logged Leased Entry)
    (new : List Reply) :
    SenderSide float_repr v { d with consumer := consumer, replies := d.replies ++ new } where
  sound := h.sound
  owing := h.owing
  known := h.known
  apart := h.apart
  heard := by
    intro i call hcall message hdone
    obtain ⟨reply, hr, heq⟩ := h.heard i call hcall message hdone
    exact ⟨reply, List.mem_append_left _ hr, heq⟩

/-! ## What one step does -/

/-- What a step does: the consumer goes on, or one sender does. -/
inductive Moves (cfg : Settings) (repr : Json → PyStr) (float_repr : PyFloat → List Char)
    (v : Validators) (term lag : Nat) (d : Deployment ι) :
    DeploymentEvent ι → Deployment ι → Prop
  | consumer {event : DeploymentEvent ι} {e : LeasedEvent} {l' : Logged Leased Entry}
      (hs : Leased.logged cfg repr term lag d.consumer e = some l')
      (hcompletion : ∀ body, e = .consumer (.completion body) →
        ∃ i, ∃ c ∈ (d.senders i).completions, c.body = body)
      (hok : Confirmed d event → ∀ e', e = .consumer e' → Settles d.state e') :
      Moves cfg repr float_repr v term lag d event
        { d with consumer := l', replies := d.replies ++ (published d.state e).toList }
  | sender {event : DeploymentEvent ι} {i : ι} {e : SenderEvent} {sender' : Sender}
      (hs : (d.senders i).step v.validate e = some sender')
      (hfresh : ∀ id ∈ newId e, id ∉ d.ids)
      (hresponse : ∀ message, e = .client (.on_response message) →
        ∃ reply ∈ d.replies, message = response float_repr reply) :
      Moves cfg repr float_repr v term lag d event (d.moved i e sender')

theorem moves_of_step {e : DeploymentEvent ι}
    (hs : d.step cfg repr float_repr v term lag e = some d') :
    Moves cfg repr float_repr v term lag d e d' := by
  cases e with
  | consumer e =>
    obtain ⟨hno, hs⟩ := Option.ite_none_right_eq_some.mp hs
    obtain ⟨l', hl, rfl⟩ := Option.map_eq_some_iff.mp hs
    refine .consumer hl (fun body heq => ?_) fun hok e' heq => ?_
    · subst heq
      cases hno
    · subst heq
      exact hok
  | completion i k =>
    obtain ⟨c, hc, hs⟩ := Option.bind_eq_some_iff.mp hs
    obtain ⟨l', hl, rfl⟩ := Option.map_eq_some_iff.mp hs
    have hsame : { d with consumer := l' } = { d with
        consumer := l'
        replies := d.replies ++ (published d.state (.consumer (.completion c.body))).toList } := by
      simp [published]
    rw [hsame]
    refine .consumer hl (fun body heq => ?_) fun _ e' heq => ?_
    · cases heq
      exact ⟨i, c, List.mem_of_getElem? hc, rfl⟩
    · cases heq
      trivial
  | sender i e =>
    obtain ⟨⟨hno, hfresh⟩, hs⟩ := Option.ite_none_right_eq_some.mp hs
    obtain ⟨sender', hstep, rfl⟩ := Option.map_eq_some_iff.mp hs
    refine .sender hstep hfresh ?_
    rintro message rfl
    cases hno
  | reply k i =>
    obtain ⟨reply, hr, hs⟩ := Option.bind_eq_some_iff.mp hs
    obtain ⟨_, hs⟩ := Option.ite_none_right_eq_some.mp hs
    obtain ⟨sender', hstep, rfl⟩ := Option.map_eq_some_iff.mp hs
    have hsame : { d with senders := Function.update d.senders i sender' } =
        d.moved i (.client (.on_response (response float_repr reply))) sender' := by
      simp [Deployment.moved, newId, network.newId]
    rw [hsame]
    refine .sender hstep (fun id hid => by cases hid) fun message heq => ?_
    cases heq
    exact ⟨reply, List.mem_of_getElem? hr, rfl⟩

theorem senderSide_step {e : DeploymentEvent ι} (h : SenderSide float_repr v d)
    (hs : d.step cfg repr float_repr v term lag e = some d') : SenderSide float_repr v d' := by
  cases moves_of_step hs with
  | consumer hl hcompletion hok => exact senderSide_consumer h _ _
  | sender hstep hfresh hresponse => exact senderSide_moved h hstep hfresh hresponse

theorem consumerSide_step {e : DeploymentEvent ι} (h : ConsumerSide cfg repr term lag d)
    (hok : Confirmed d e) (hs : d.step cfg repr float_repr v term lag e = some d') :
    ConsumerSide cfg repr term lag d' := by
  cases moves_of_step hs with
  | consumer hl hcompletion hsettles => exact consumerSide_consumer h (hsettles hok) hl hcompletion
  | sender hstep hfresh hresponse => exact consumerSide_moved h hstep

/-! ## The law -/

theorem senderSide_run {ok : Deployment ι → DeploymentEvent ι → Prop}
    {callback_queue : ι → String} {es : List (DeploymentEvent ι)}
    (h : Run (Deployment.step cfg repr float_repr v term lag) ok
      (.create cfg callback_queue) es d) : SenderSide float_repr v d :=
  h.invariant (senderSide_create cfg callback_queue) fun _ _ _ hi _ hs => senderSide_step hi hs

theorem consumerSide_run {callback_queue : ι → String} {es : List (DeploymentEvent ι)}
    (h : Run (Deployment.step cfg repr float_repr v term lag) Confirmed
      (.create cfg callback_queue) es d) : ConsumerSide cfg repr term lag d :=
  h.invariant (consumerSide_create cfg callback_queue)
    fun _ _ _ hi hok hs => consumerSide_step hi hok hs

omit [DecidableEq ι] in
/-- Where a handler owes a slot, no completion gave it back, not even that of another sender. -/
theorem unreleased_of_owes (hconsumer : ConsumerSide cfg repr term lag d)
    (hsender : SenderSide float_repr v d) {i : ι} {k : Nat} {p : Proxy} {call : rpc_client.Call}
    (hpair : Pair (d.senders i) k p call) {g : Grant} (hg : g ∈ p.owes) (server : VLLMServer) :
    .released (server, g.message_id) ∉ d.consumer.log := by
  intro hr
  obtain ⟨j, c, hc, hid⟩ := hconsumer.released server g.message_id hr
  obtain ⟨k', q, other, hother, hname, _⟩ := (hsender.sound j).published c hc
  have howed := ((hsender.sound i).linked k p call hpair).owed g hg
  obtain rfl : i = j := hsender.apart i j call (List.mem_of_getElem? hpair.call) other
    (List.mem_of_getElem? hother.call) g.message_id howed (hid ▸ hname)
  have hunpaid := (hsender.owing i k p call hpair g hg).unpaid
  rw [Sender.paid, List.map_eq_nil_iff, Sender.completionsOf, List.filter_eq_nil_iff] at hunpaid
  exact hunpaid c hc (by simpa using hid)

omit [DecidableEq ι] in
/-- A handler has its request on the server that a reply named. -/
theorem reply_of_owes (hprints : Prints float_repr) (h : SenderSide float_repr v d) {i : ι}
    {k : Nat} {p : Proxy} {call : rpc_client.Call} (hpair : Pair (d.senders i) k p call)
    {g : Grant} (hg : g ∈ p.owes) : ∃ reply ∈ d.replies,
      reply.llm_params.llm_url = some g.server ∧ reply.correlation_id = g.message_id := by
  obtain ⟨message, llm_params, hdone, hparams, hurl⟩ := (h.owing i k p call hpair g hg).told
  have hcall := List.mem_of_getElem? hpair.call
  obtain ⟨reply, hreply, rfl⟩ := h.heard i call hcall message hdone
  have hread : (llm_params_dict (response float_repr reply).body).bind v.validate =
      some (reread float_repr reply.llm_params) := read_body hprints v reply.llm_params
  cases hread.symm.trans hparams
  have hname := (((h.sound i).client.calls call hcall).answered _ hdone).trans
    (((h.sound i).linked k p call hpair).owed g hg)
  exact ⟨reply, hreply, hurl, Option.some.inj hname⟩

omit [DecidableEq ι] in
/-- It is counted there until its timeout is over, or its callback is to count it. -/
theorem counted_of_granting (hconsumer : ConsumerSide cfg repr term lag d)
    (hgranting : d.Granting server id) (hkept : .released (server, id) ∉ d.consumer.log) :
    (∃ c ∈ d.state.callbacks, c.message.id = id ∧ OnItsWay server c) ∨
      (d.Recent term (server, id) → id ∈ d.state.ids server) := by
  refine hgranting.imp_right fun ⟨t, ht⟩ hrecent => ?_
  obtain ⟨es, hrun⟩ := hconsumer.run
  obtain ⟨t', hstands⟩ := leases.standing_of_granted ht hkept
  exact (rpc_server.sound_book hrun).held_of_standing hstands hrecent

/-- In every run of a consumer and its senders, whatever replies and completions come late, again
or not at all: what a handler has running is on a configured server, and the consumer counts it
there until its timeout is over, or is about to. So no more run on a server than are counted
there, apart from those that are on their way or over their timeout. -/
theorem what_runs_is_counted (hprints : Prints float_repr) {callback_queue : ι → String}
    {es : List (DeploymentEvent ι)}
    (h : Run (Deployment.step cfg repr float_repr v term lag) Confirmed
      (.create cfg callback_queue) es d) :
    (∀ i, ∀ p ∈ (d.senders i).proxies, ∀ g ∈ p.owes, ∃ server ∈ cfg.VLLM_SERVERS,
      server.url = g.server ∧
      ((∃ c ∈ d.state.callbacks, c.message.id = g.message_id ∧ OnItsWay server c) ∨
        (d.Recent term (server, g.message_id) → g.message_id ∈ d.state.ids server))) ∧
    ∀ server ∈ cfg.VLLM_SERVERS, ∀ ids : Finset String,
      (∀ id ∈ ids, d.Running server id ∧ d.Recent term (server, id)) →
      ids.card ≤ d.state.count server + d.state.callbacks.countP (OnItsWay server) := by
  have hsender := senderSide_run h
  have hconsumer := consumerSide_run h
  have hcounted : ∀ i, ∀ p ∈ (d.senders i).proxies, ∀ g ∈ p.owes, ∃ server ∈ cfg.VLLM_SERVERS,
      server.url = g.server ∧
      ((∃ c ∈ d.state.callbacks, c.message.id = g.message_id ∧ OnItsWay server c) ∨
        (d.Recent term (server, g.message_id) → g.message_id ∈ d.state.ids server)) := by
    intro i p hp g hg
    obtain ⟨k, call, hpair⟩ := exists_pair (hsender.sound i) hp
    obtain ⟨reply, hreply, hparams, hname⟩ := reply_of_owes hprints hsender hpair hg
    obtain ⟨server, hserver, hurl, hgranting⟩ := hconsumer.replies reply hreply g.server hparams
    rw [hname] at hgranting
    exact ⟨server, hserver, hurl, counted_of_granting hconsumer hgranting
      (unreleased_of_owes hconsumer hsender hpair hg server)⟩
  refine ⟨hcounted, fun server hserver ids hids => ?_⟩
  have hsub : ids ⊆ d.state.ids server ∪
      ((d.state.callbacks.filter (OnItsWay server)).map (·.message.id)).toFinset := by
    intro id hid
    obtain ⟨⟨i, p, hp, g, hg, hurl, rfl⟩, hrecent⟩ := hids id hid
    obtain ⟨own, hown, hown_url, hcase⟩ := hcounted i p hp g hg
    obtain rfl : own = server := server_eq_of_url cfg hown hserver (hown_url.trans hurl)
    rw [Finset.mem_union, List.mem_toFinset, List.mem_map]
    rcases hcase with ⟨c, hc, hid, hway⟩ | hcount
    · exact .inr ⟨c, List.mem_filter.mpr ⟨hc, decide_eq_true hway⟩, hid⟩
    · exact .inl (hcount hrecent)
  calc ids.card
      ≤ _ := Finset.card_le_card hsub
    _ ≤ _ := Finset.card_union_le _ _
    _ ≤ d.state.count server + d.state.callbacks.countP (OnItsWay server) := by
      refine Nat.add_le_add_left ((List.toFinset_card_le _).trans_eq ?_) _
      rw [List.length_map, List.countP_eq_length_filter]

/-- A request is granted a server and runs there while the consumer acks and counts it. -/
def servedByOne : List (DeploymentEvent Unit) :=
  called.map (.sender ()) ++
    [.consumer (.consumer (.deliver .main (anyCall "1") 0)), .consumer (.consumer (.publish 0)),
      .reply 0 (), .sender () (.client (.resume 0)), .sender () (.handler 0 (.returned false)),
      .consumer (.consumer (.ack 0)), .consumer (.consumer (.resume 0))]

theorem a_running_request_is_counted : ∃ d,
    Run (Deployment.step roundRobinSettings noRepr halfDigits strict 10 0) Confirmed
      (.create roundRobinSettings fun _ => "reply") servedByOne d ∧
    (∃ p ∈ (d.senders ()).proxies, p.owes = [⟨"1", "model", "http://a"⟩]) ∧
    (∀ i, ∀ p ∈ (d.senders i).proxies, ∀ g ∈ p.owes, ∃ server ∈ roundRobinSettings.VLLM_SERVERS,
      server.url = g.server ∧
      ((∃ c ∈ d.state.callbacks, c.message.id = g.message_id ∧ OnItsWay server c) ∨
        (d.Recent 10 (server, g.message_id) → g.message_id ∈ d.state.ids server))) ∧
    ∀ server ∈ roundRobinSettings.VLLM_SERVERS, ∀ ids : Finset String,
      (∀ id ∈ ids, d.Running server id ∧ d.Recent 10 (server, id)) →
      ids.card ≤ d.state.count server + d.state.callbacks.countP (OnItsWay server) := by
  have hexec : (exec (Deployment.step roundRobinSettings noRepr halfDigits strict 10 0)
      (.create roundRobinSettings fun _ => "reply") servedByOne).map (fun d =>
        (d.senders ()).proxies.map Proxy.owes) = some [[⟨"1", "model", "http://a"⟩]] := by
    decide +kernel
  obtain ⟨d, hd, howes⟩ := Option.map_eq_some_iff.mp hexec
  have hrun : Run (Deployment.step roundRobinSettings noRepr halfDigits strict 10 0) Confirmed
      (.create roundRobinSettings fun _ => "reply") servedByOne d := by
    refine (run_of_exec hd).of_events fun e he d => ?_
    simp only [servedByOne, called, List.map_cons, List.map_nil, List.cons_append, List.nil_append,
      List.mem_cons, List.not_mem_nil, or_false] at he
    rcases he with rfl | rfl | rfl | rfl | rfl | rfl | rfl | rfl | rfl | rfl <;> trivial
  obtain ⟨p, hp, howes⟩ := List.map_eq_singleton_iff.mp howes
  exact ⟨d, hrun, ⟨p, by rw [hp]; simp, howes⟩, what_runs_is_counted prints_halfDigits hrun⟩

end

end aristote_dispatcher.deployment
