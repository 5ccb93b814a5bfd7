-- What one step of a sender can do, said once, and what all its states keep: each
-- handler stands beside its call, and what it owes or has published is under the
-- id of that call.
import AristoteDispatcher.ClientInvariant
import AristoteDispatcher.Proxy

open runs places
open json (Json PyStr)
open aristote_dispatcher.messages aristote_dispatcher.rpc_client

namespace aristote_dispatcher.proxy

variable {validate : List (PyStr × Json) → Option MessageData} {s s' : Sender} {p : Proxy}
  {call : Call}

/-! ## One handler -/

/-- The steps of a handler, with what each one asks of it and of its call. -/
inductive Goes (validate : List (PyStr × Json) → Option MessageData) (p : Proxy) (call : Call) :
    ProxyEvent → Stage → List Completion → Prop
  | returned {channel_closed : Bool} {ending : Ending} (hp : p.stage = .calling)
      (hended : call.stage = .ended ending) : Goes validate p call (.returned channel_closed)
        (p.returned validate channel_closed ending) []
  | sent {completed_at id llm_url : String} {res : LLMResponse} {req : LLMRequest}
      (hp : p.stage = .sending id llm_url req) : Goes validate p call (.sent completed_at res)
        (p.sent id llm_url completed_at res) []
  | chunk {response : StreamingResponse} {chunk : ByteArray} {left : List ByteArray}
      {tasks : List BackgroundTask} (hp : p.stage = .streaming response (chunk :: left) tasks) :
      Goes validate p call .chunk
        (.streaming { response with chunks := response.chunks ++ [chunk] } left tasks) []
  | stream_ends {response : StreamingResponse} {tasks : List BackgroundTask}
      (hp : p.stage = .streaming response [] tasks) : Goes validate p call .stream_ends
        (.background (.streamed response) (tasks ++ [.store_usage_metrics])) []
  | disconnects {response : StreamingResponse} {left : List ByteArray}
      {tasks : List BackgroundTask} (hp : p.stage = .streaming response left tasks) :
      Goes validate p call .disconnects (.background .disconnected tasks) []
  | completes {outcome : Outcome} {completion : Completion} {tasks : List BackgroundTask}
      (hp : p.stage = .background outcome (.send_completion_message completion :: tasks)) :
      Goes validate p call .task_done (.background outcome tasks) [completion]
  | task_done {outcome : Outcome} {task : BackgroundTask} {tasks : List BackgroundTask}
      (hp : p.stage = .background outcome (task :: tasks))
      (htask : ∀ completion, task ≠ .send_completion_message completion) :
      Goes validate p call .task_done (.background outcome tasks) []
  | finishes {outcome : Outcome} (hp : p.stage = .background outcome []) :
      Goes validate p call .task_done (.ended outcome) []
  | send_raises {id llm_url : String} {req : LLMRequest} (hp : p.stage = .sending id llm_url req) :
      Goes validate p call .raises (.ended .raised) []
  | stream_raises {response : StreamingResponse} {left : List ByteArray}
      {tasks : List BackgroundTask} (hp : p.stage = .streaming response left tasks) :
      Goes validate p call .raises (.ended .raised) []
  | completion_raises {outcome : Outcome} {completion : Completion} {tasks : List BackgroundTask}
      (hp : p.stage = .background outcome (.send_completion_message completion :: tasks)) :
      Goes validate p call .raises (.background outcome tasks) []
  | task_raises {outcome : Outcome} {task : BackgroundTask} {tasks : List BackgroundTask}
      (hp : p.stage = .background outcome (task :: tasks))
      (htask : ∀ completion, task ≠ .send_completion_message completion) :
      Goes validate p call .raises (.ended .raised) []

theorem goes_of_step {e : ProxyEvent} {stage : Stage} {new : List Completion}
    (h : p.step validate call e = some (stage, new)) : Goes validate p call e stage new := by
  unfold Proxy.step at h
  cases e with
  | returned channel_closed =>
    dsimp only at h
    split at h
    · rename_i ending hp hended
      cases h
      exact .returned hp hended
    · cases h
  | sent completed_at res =>
    dsimp only at h
    split at h
    · rename_i hp
      cases h
      exact .sent hp
    · cases h
  | chunk =>
    dsimp only at h
    split at h
    · rename_i hp
      cases h
      exact .chunk hp
    · cases h
  | stream_ends =>
    dsimp only at h
    split at h
    · rename_i hp
      cases h
      exact .stream_ends hp
    · cases h
  | disconnects =>
    dsimp only at h
    split at h
    · rename_i hp
      cases h
      exact .disconnects hp
    · cases h
  | task_done =>
    dsimp only at h
    split at h
    · rename_i hp
      cases h
      exact .completes hp
    · rename_i htask hp
      cases h
      exact .task_done hp fun completion heq => htask completion heq
    · rename_i hp
      cases h
      exact .finishes hp
    · cases h
  | raises =>
    dsimp only at h
    split at h
    · rename_i hp
      cases h
      exact .send_raises hp
    · rename_i hp
      cases h
      exact .stream_raises hp
    · rename_i hp
      cases h
      exact .completion_raises hp
    · rename_i htask hp
      cases h
      exact .task_raises hp fun completion heq => htask completion heq
    · cases h

/-! ## What a handler owes -/

/-- A slot of a server that a reply granted for a model, under the id of a request. -/
structure Grant where
  message_id : String
  model : String
  server : String
  deriving DecidableEq

/-- The slot that a completion gives back. -/
def Completion.grant (c : Completion) : Grant := ⟨c.message_id, c.model, c.server⟩

def BackgroundTask.completion? : BackgroundTask → Option Completion
  | .send_completion_message completion => some completion
  | _ => none

def owedBy (tasks : List BackgroundTask) : List Grant :=
  (tasks.filterMap BackgroundTask.completion?).map Completion.grant

/-- The slots that the handler still has to give back. -/
def Proxy.owes (p : Proxy) : List Grant :=
  match p.stage with
  | .sending correlation_id llm_url _ => [⟨correlation_id, p.request.model, llm_url⟩]
  | .streaming _ _ tasks | .background _ tasks => owedBy tasks
  | _ => []

@[simp] theorem owedBy_append (tasks tasks' : List BackgroundTask) :
    owedBy (tasks ++ tasks') = owedBy tasks ++ owedBy tasks' := by
  simp [owedBy]

@[simp] theorem owedBy_completion (completion : Completion) (tasks : List BackgroundTask) :
    owedBy (.send_completion_message completion :: tasks) = completion.grant :: owedBy tasks :=
  rfl

theorem owedBy_cons_of_ne {task : BackgroundTask} (tasks : List BackgroundTask)
    (h : ∀ completion, task ≠ .send_completion_message completion) :
    owedBy (task :: tasks) = owedBy tasks := by
  cases task with
  | send_completion_message completion => exact absurd rfl (h completion)
  | _ => rfl

/-- What a handler gives back and still owes is what it owed, if nothing raises while it owes. -/
theorem owes_step {e : ProxyEvent} {stage : Stage} {new : List Completion}
    (h : p.step validate call e = some (stage, new)) (hcalling : p.stage ≠ .calling)
    (hraises : e = .raises → p.owes = []) :
    new.map Completion.grant ++ Proxy.owes { p with stage := stage } = p.owes := by
  have hnone : e = .raises → new = [] → Proxy.owes { p with stage := stage } = [] →
      new.map Completion.grant ++ Proxy.owes { p with stage := stage } = p.owes := by
    intro he hnew hafter
    rw [hnew, hafter, hraises he]
    rfl
  cases goes_of_step h with
  | returned hp hended => exact absurd hp hcalling
  | sent hp =>
    simp only [Proxy.owes, hp, Proxy.sent]
    rfl
  | chunk hp => simp only [Proxy.owes, hp, List.map_nil, List.nil_append]
  | stream_ends hp =>
    simp only [Proxy.owes, hp, owedBy_append, List.map_nil, List.nil_append]
    exact List.append_nil _
  | disconnects hp => simp only [Proxy.owes, hp, List.map_nil, List.nil_append]
  | completes hp => simp only [Proxy.owes, hp, owedBy_completion]; rfl
  | task_done hp htask =>
    simp only [Proxy.owes, hp, owedBy_cons_of_ne _ htask, List.map_nil, List.nil_append]
  | finishes hp => simp only [Proxy.owes, hp]; rfl
  | send_raises hp => exact hnone rfl rfl rfl
  | stream_raises hp => exact hnone rfl rfl rfl
  | completion_raises hp =>
    have howes := hraises rfl
    simp [Proxy.owes, hp] at howes
  | task_raises hp htask => exact hnone rfl rfl rfl

/-- What a handler publishes it owed. -/
theorem owed_of_published {e : ProxyEvent} {stage : Stage} {new : List Completion}
    (h : p.step validate call e = some (stage, new)) {c : Completion} (hc : c ∈ new) :
    c.grant ∈ p.owes ∧ stage ≠ .calling := by
  cases goes_of_step h with
  | completes hp =>
    cases List.mem_singleton.mp hc
    simp [Proxy.owes, hp]
  | _ => cases hc

/-- After a response, the handler sends the request under its id, or has ended. -/
theorem answered_cases (validate : List (PyStr × Json) → Option MessageData) (p : Proxy)
    (message : Response) :
    (∃ llm_url req, p.answered validate message =
      .sending (message.correlation_id.getD "None") llm_url req) ∨
    ∃ outcome, p.answered validate message = .ended outcome := by
  unfold Proxy.answered
  split
  · exact .inr ⟨_, rfl⟩
  · split
    · exact .inr ⟨_, rfl⟩
    · split
      · exact .inr ⟨_, rfl⟩
      · exact .inl ⟨_, _, rfl⟩

/-- What a handler owes it owed before, or its call returned it. -/
theorem owed_step {e : ProxyEvent} {stage : Stage} {new : List Completion}
    (h : p.step validate call e = some (stage, new)) {g : Grant}
    (hg : g ∈ Proxy.owes { p with stage := stage }) :
    g ∈ p.owes ∨ ∃ message, call.stage = .ended (.response message) ∧
      g.message_id = message.correlation_id.getD "None" := by
  by_cases hraises : e = .raises
  · subst hraises
    cases goes_of_step h with
    | completion_raises hp => exact .inl (by simpa [Proxy.owes, hp] using .inr hg)
    | _ => cases hg
  · by_cases hcalling : p.stage = .calling
    · cases goes_of_step h with
      | returned hp hended =>
        rename_i channel_closed ending
        cases ending with
        | response message =>
          refine .inr ⟨message, hended, ?_⟩
          rw [Proxy.returned] at hg
          rcases answered_cases validate p message with ⟨llm_url, req, heq⟩ | ⟨outcome, heq⟩
          · rw [heq] at hg
            cases List.mem_singleton.mp hg
            rfl
          · rw [heq] at hg
            cases hg
        | _ => cases hg
      | _ => simp_all only [reduceCtorEq]
    · left
      rw [← owes_step h hcalling fun he => absurd he hraises]
      exact List.mem_append_right _ hg

theorem stage_ne_calling_of_step {e : ProxyEvent} {stage : Stage} {new : List Completion}
    (h : p.step validate call e = some (stage, new)) : stage ≠ .calling := by
  cases goes_of_step h with
  | returned hp hended =>
    rename_i channel_closed ending
    cases ending with
    | response message =>
      rw [Proxy.returned]
      rcases answered_cases validate p message with ⟨llm_url, req, heq⟩ | ⟨outcome, heq⟩ <;>
        simp [heq]
    | _ => simp [Proxy.returned]
  | _ => simp [Proxy.sent]

/-! ## The sender -/

/-- The steps of a sender. -/
inductive Moves (validate : List (PyStr × Json) → Option MessageData) (s : Sender) :
    SenderEvent → Sender → Prop
  | request {user : User} {request : Request} {client : RPCClient}
      (hs : s.client.step (.start (call_arguments user request)) = some client) :
      Moves validate s (.request user request)
        { s with client := client, proxies := s.proxies ++ [⟨user, request, .calling⟩] }
  | client {e : Event} {client : RPCClient} (he : isStart e = false)
      (hs : s.client.step e = some client) :
      Moves validate s (.client e) { s with client := client }
  | handler {k : Nat} {e : ProxyEvent} {p : Proxy} {call : Call} {stage : Stage}
      {new : List Completion} (hp : s.proxies[k]? = some p) (hcall : s.client.calls[k]? = some call)
      (hs : p.step validate call e = some (stage, new)) :
      Moves validate s (.handler k e)
        { s with
          proxies := s.proxies.set k { p with stage := stage }
          completions := s.completions ++ new }

theorem moves_of_step {e : SenderEvent} (h : s.step validate e = some s') :
    Moves validate s e s' := by
  unfold Sender.step at h
  cases e with
  | request user request =>
    obtain ⟨client, hs, rfl⟩ := Option.map_eq_some_iff.mp h
    exact .request hs
  | client e =>
    obtain ⟨he, h⟩ := Option.ite_none_left_eq_some.mp h
    obtain ⟨client, hs, rfl⟩ := Option.map_eq_some_iff.mp h
    exact .client (by simpa using he) hs
  | handler k e =>
    obtain ⟨p, hp, h⟩ := Option.bind_eq_some_iff.mp h
    obtain ⟨call, hcall, h⟩ := Option.bind_eq_some_iff.mp h
    obtain ⟨⟨stage, new⟩, hs, rfl⟩ := Option.map_eq_some_iff.mp h
    exact .handler hp hcall hs

/-- A handler and its call. -/
structure Pair (s : Sender) (k : Nat) (p : Proxy) (call : Call) : Prop where
  handler : s.proxies[k]? = some p
  call : s.client.calls[k]? = some call

/-- What a handler keeps beside its call: it goes on once the call has ended, and owes slots
under its id only. -/
structure Linked (p : Proxy) (call : Call) : Prop where
  model : call.arguments.model = p.request.model
  ended : p.stage ≠ .calling → ∃ ending, call.stage = .ended ending
  owed : ∀ g ∈ p.owes, call.correlation_id = some g.message_id

/-- What every sender keeps. -/
structure Sound (s : Sender) : Prop where
  client : rpc_client.Sound s.client
  length : s.proxies.length = s.client.calls.length
  linked : ∀ k p call, Pair s k p call → Linked p call
  published : ∀ c ∈ s.completions, ∃ k p call, Pair s k p call ∧
    call.correlation_id = some c.message_id ∧ p.stage ≠ .calling
  named : ∀ call ∈ s.client.calls, ∀ message, call.future = .done message →
    ∃ id, call.correlation_id = some id

theorem sound_create (callback_queue : String) : Sound (.create callback_queue) :=
  ⟨rpc_client.sound_create callback_queue, rfl, fun _ _ _ h => (by cases h.handler),
    fun _ h => (by cases h), fun _ h => (by cases h)⟩

/-! ## The pairs after a step -/

/-- A request brings a handler and its call behind the others. -/
theorem Pair.requested {k : Nat} (h : Pair s k p call) (new : Proxy) (arguments : Arguments) :
    Pair { s with
      client := { s.client with
        calls := s.client.calls ++ [⟨arguments, none, .pending, .get_queue⟩] }
      proxies := s.proxies ++ [new] } k p call :=
  ⟨getElem?_snoc_of_some h.handler, getElem?_snoc_of_some h.call⟩

theorem Pair.of_requested {k : Nat} {new : Proxy} {arguments : Arguments}
    (hlength : s.proxies.length = s.client.calls.length)
    (h : Pair { s with
      client := { s.client with
        calls := s.client.calls ++ [⟨arguments, none, .pending, .get_queue⟩] }
      proxies := s.proxies ++ [new] } k p call) :
    Pair s k p call ∨ (p = new ∧ call = ⟨arguments, none, .pending, .get_queue⟩) := by
  rcases getElem?_snoc h.handler with hp | ⟨hle, rfl⟩
  · rcases getElem?_snoc h.call with hcall | ⟨hle, _⟩
    · exact .inl ⟨hp, hcall⟩
    · have hlt := (List.getElem?_eq_some_iff.mp hp).1
      omega
  · rcases getElem?_snoc h.call with hcall | ⟨_, rfl⟩
    · have hlt := (List.getElem?_eq_some_iff.mp hcall).1
      omega
    · exact .inr ⟨rfl, rfl⟩

/-- A handler that goes on has its call beside it as before. -/
theorem Pair.gone {k : Nat} (h : Pair s k p call) (stage : Stage) (published : List Completion) :
    Pair { s with
      proxies := s.proxies.set k { p with stage := stage }
      completions := published } k { p with stage := stage } call :=
  ⟨getElem?_set_place h.handler, h.call⟩

theorem Pair.of_gone {j k : Nat} {q : Proxy} {other : Call} {stage : Stage}
    {published : List Completion} (h : Pair s k p call)
    (hpair : Pair { s with
      proxies := s.proxies.set k { p with stage := stage }
      completions := published } j q other) :
    (k = j ∧ q = { p with stage := stage } ∧ other = call) ∨ (k ≠ j ∧ Pair s j q other) := by
  rcases getElem?_set_cases hpair.handler with ⟨rfl, rfl⟩ | ⟨hkj, hq⟩
  · exact .inl ⟨rfl, rfl, Option.some.inj (hpair.call.symm.trans h.call)⟩
  · exact .inr ⟨hkj, hq, hpair.call⟩

/-! ## What a step keeps -/

/-- The same call keeps the handler linked. -/
theorem Linked.sameCall {call' : Call} (h : Linked p call) (hsame : SameCall call call') :
    Linked p call' where
  model := hsame.arguments ▸ h.model
  ended hp := by
    obtain ⟨ending, hending⟩ := h.ended hp
    exact ⟨ending, hsame.ended ending hending⟩
  owed g hg := hsame.id _ (h.owed g hg)

theorem named_step {c c' : RPCClient} {e : Event} (h : rpc_client.Sound c)
    (hnamed : ∀ call ∈ c.calls, ∀ message, call.future = .done message →
      ∃ id, call.correlation_id = some id) (hs : c.step e = some c') :
    ∀ call ∈ c'.calls, ∀ message, call.future = .done message →
      ∃ id, call.correlation_id = some id := by
  intro call' hcall' message hdone
  obtain ⟨k, hk⟩ := List.mem_iff_getElem?.mp hcall'
  rcases turn_of_step h hs hk with hsame | ⟨_, arguments, _, rfl⟩ | ⟨call, hcall, hturn⟩
  · exact hnamed call' (List.mem_of_getElem? hsame) message hdone
  · cases hdone
  · rcases hturn.done hdone with hd | ⟨_, _, id, hid, _⟩
    · obtain ⟨id, hid⟩ := hnamed call (List.mem_of_getElem? hcall) message hd
      exact ⟨id, hturn.sameCall.id id hid⟩
    · exact ⟨id, hturn.sameCall.id id hid⟩

theorem sound_step {e : SenderEvent} (h : Sound s) (hs : s.step validate e = some s') :
    Sound s' := by
  cases moves_of_step hs with
  | request hstart =>
    rename_i user request client
    have hclient := rpc_client.sound_step h.client hstart
    have hnamed := named_step h.client h.named hstart
    cases hstart
    refine ⟨hclient, by simp [h.length], ?_, ?_, hnamed⟩
    · intro k p call hpair
      rcases hpair.of_requested h.length with hpair | ⟨rfl, rfl⟩
      · exact h.linked k p call hpair
      · exact ⟨rfl, fun hne => absurd rfl hne, fun _ hg => (by cases hg)⟩
    · intro c hc
      obtain ⟨k, p, call, hpair, hrest⟩ := h.published c hc
      exact ⟨k, p, call, hpair.requested _ _, hrest⟩
  | client he hstep =>
    rename_i e client
    have hlength : client.calls.length = s.client.calls.length := by
      rcases length_step h.client hstep with heq | ⟨⟨arguments, rfl⟩, _⟩
      · exact heq
      · cases he
    refine ⟨rpc_client.sound_step h.client hstep, h.length.trans hlength.symm, ?_, ?_,
      named_step h.client h.named hstep⟩
    · intro k p call' hpair
      have hlt : k < s.client.calls.length := by
        rw [← hlength]
        exact (List.getElem?_eq_some_iff.mp hpair.call).1
      obtain ⟨call, hcall, hsame⟩ :=
        sameCall_step h.client hstep (List.getElem?_eq_getElem hlt)
      cases hcall.symm.trans hpair.call
      exact (h.linked k p _ ⟨hpair.handler, List.getElem?_eq_getElem hlt⟩).sameCall hsame
    · intro c hc
      obtain ⟨k, p, call, hpair, hid, hcalling⟩ := h.published c hc
      obtain ⟨call', hcall', hsame⟩ := sameCall_step h.client hstep hpair.call
      exact ⟨k, p, call', ⟨hpair.handler, hcall'⟩, hsame.id _ hid, hcalling⟩
  | handler hp hcall hgo =>
    rename_i k e p call stage new
    have hpair : Pair s k p call := ⟨hp, hcall⟩
    have hlinked := h.linked k p call hpair
    refine ⟨h.client, by simp [h.length], ?_, ?_, h.named⟩
    · intro j q other hpair'
      rcases hpair.of_gone hpair' with ⟨rfl, rfl, rfl⟩ | ⟨_, hpair'⟩
      · refine ⟨hlinked.model, fun _ => ?_, fun g hg => ?_⟩
        · cases goes_of_step hgo with
          | returned hcalling hended => exact ⟨_, hended⟩
          | _ => exact hlinked.ended (by simp_all only [ne_eq, reduceCtorEq, not_false_eq_true])
        · rcases owed_step hgo hg with hg | ⟨message, hended, hid⟩
          · exact hlinked.owed g hg
          · have hsound := h.client.calls other (List.mem_of_getElem? hcall)
            have hdone := hsound.returned message hended
            obtain ⟨id, hcid⟩ := h.named other (List.mem_of_getElem? hcall) message hdone
            rw [hid, hsound.answered message hdone, hcid]
            rfl
      · exact h.linked j q other hpair'
    · intro c hc
      rcases List.mem_append.mp hc with hc | hc
      · obtain ⟨j, q, other, hpair', hid, hcalling⟩ := h.published c hc
        by_cases hkj : k = j
        · subst hkj
          cases hcall.symm.trans hpair'.call
          exact ⟨k, _, call, hpair.gone stage _, hid, stage_ne_calling_of_step hgo⟩
        · exact ⟨j, q, other, ⟨(List.getElem?_set_ne hkj).trans hpair'.handler, hpair'.call⟩, hid,
            hcalling⟩
      · obtain ⟨howed, hcalling⟩ := owed_of_published hgo hc
        exact ⟨k, _, call, hpair.gone stage _, hlinked.owed _ howed, hcalling⟩

theorem sound_run {ok : Sender → SenderEvent → Prop} {callback_queue : String}
    {es : List SenderEvent} (h : Run (Sender.step validate) ok (.create callback_queue) es s) :
    Sound s :=
  h.invariant (sound_create callback_queue) fun _ _ _ hi _ hs => sound_step hi hs

/-- A call stays the same one over a whole run. -/
theorem sameCall_run {ok : Sender → SenderEvent → Prop} {es : List SenderEvent} (h : Sound s)
    (hrun : Run (Sender.step validate) ok s es s') {k : Nat}
    (hcall : s.client.calls[k]? = some call) :
    ∃ call', s'.client.calls[k]? = some call' ∧ SameCall call call' := by
  suffices hall : Sound s' ∧ ∃ call', s'.client.calls[k]? = some call' ∧ SameCall call call' from
    hall.2
  refine hrun.invariant (I := fun t => Sound t ∧ ∃ call', t.client.calls[k]? = some call' ∧
    SameCall call call') ⟨h, call, hcall, .refl call⟩ ?_
  rintro t e t' ⟨hsound, call', hcall', hsame⟩ _ hs
  refine ⟨sound_step hsound hs, ?_⟩
  have hstep : ∀ {e : Event} {client : RPCClient}, t.client.step e = some client →
      ∃ call', client.calls[k]? = some call' ∧ SameCall call call' := by
    intro e client hclient
    obtain ⟨call'', hcall'', hsame'⟩ := sameCall_step hsound.client hclient hcall'
    exact ⟨call'', hcall'', hsame.trans hsame'⟩
  cases moves_of_step hs with
  | request hstart => exact hstep hstart
  | client _ hclient => exact hstep hclient
  | handler _ _ _ => exact ⟨call', hcall', hsame⟩

/-! ## Where a handler can come -/

/-- Some run whose steps are allowed takes the handler there. -/
def CanCome (validate : List (PyStr × Json) → Option MessageData)
    (ok : Sender → SenderEvent → Prop) (P : Proxy → Prop) (s : Sender) (k : Nat) : Prop :=
  ∃ es s' p, Run (Sender.step validate) ok s es s' ∧ s'.proxies[k]? = some p ∧ P p

variable {ok : Sender → SenderEvent → Prop} {P : Proxy → Prop} {k : Nat}

theorem canCome_here (hp : s.proxies[k]? = some p) (h : P p) : CanCome validate ok P s k :=
  ⟨[], s, p, .nil, hp, h⟩

theorem canCome_of_step {e : SenderEvent} (hs : s.step validate e = some s') (hok : ok s e)
    (h : CanCome validate ok P s' k) : CanCome validate ok P s k := by
  obtain ⟨es, t, p, hrun, hp, hend⟩ := h
  exact ⟨e :: es, t, p, (Run.single hok hs).append hrun, hp, hend⟩

/-- One step of the handler. -/
theorem canCome_of_handler (hpair : Pair s k p call) {e : ProxyEvent} {stage : Stage}
    {new : List Completion} (hgo : p.step validate call e = some (stage, new))
    (hok : ok s (.handler k e))
    (h : ∀ s : Sender, Pair s k { p with stage := stage } call → CanCome validate ok P s k) :
    CanCome validate ok P s k := by
  have hs : s.step validate (.handler k e) = some { s with
      proxies := s.proxies.set k { p with stage := stage }
      completions := s.completions ++ new } := by
    simp only [Sender.step, hpair.handler, hpair.call, Option.bind_some, hgo, Option.map_some]
  exact canCome_of_step hs hok (h _ (hpair.gone stage _))

/-- The client takes the call one step on. -/
theorem canCome_of_client (hp : s.proxies[k]? = some p) {e : Event} {client : RPCClient}
    (hs : s.client.step e = some client) (he : isStart e = false) (hok : ok s (.client e))
    (h : ∀ s : Sender, s.client = client → s.proxies[k]? = some p → CanCome validate ok P s k) :
    CanCome validate ok P s k := by
  have hstep : s.step validate (.client e) = some { s with client := client } := by
    simp [Sender.step, he, hs]
  exact canCome_of_step hstep hok (h _ rfl hp)

/-- A response comes to its last chunk. -/
theorem canCome_of_streaming {response : StreamingResponse} {left : List ByteArray}
    {tasks : List BackgroundTask} (hpair : Pair s k p call)
    (hp : p.stage = .streaming response left tasks)
    (hok : ∀ s e, e ≠ .raises → ok s (.handler k e))
    (h : ∀ (s : Sender) (p : Proxy) (response : StreamingResponse) (tasks : List BackgroundTask),
      Pair s k p call → p.stage = .background (.streamed response) tasks →
      CanCome validate ok P s k) : CanCome validate ok P s k := by
  induction left generalizing s p response with
  | nil =>
    refine canCome_of_handler hpair (e := .stream_ends) (by simp only [Proxy.step, hp]; rfl)
      (hok _ _ (by simp)) ?_
    exact fun _ hpair' => h _ _ _ _ hpair' rfl
  | cons chunk left ih =>
    refine canCome_of_handler hpair (e := .chunk) (by simp only [Proxy.step, hp]; rfl)
      (hok _ _ (by simp)) ?_
    exact fun _ hpair' => ih hpair' rfl

end aristote_dispatcher.proxy
