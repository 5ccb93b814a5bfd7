-- The completions of a deployment. An exception before the ack of one would keep the consumer
-- from all later ones; with the completions of its senders there is none, and each takes its
-- own id out of the set of the server that its request ran on.
import AristoteDispatcher.Deployment

open runs
open pyfloat (PyFloat)
open json (Json PyStr Prints)
open aristote_dispatcher.settings aristote_dispatcher.messages
open aristote_dispatcher.rpc_server (Leased LeasedEvent discarded NamesConfigured noRepr
  roundRobinSettings names_completion_message used_server_eq_some_iff
  ids_complete_of_discarded unsettled_completion_complete unsettled_completion_step)
open aristote_dispatcher.proxy (Pair SenderEvent Completion proxied)
open aristote_dispatcher.message_data aristote_dispatcher.grants

namespace aristote_dispatcher.deployment

variable {ι : Type*} {cfg : Settings} {repr : Json → PyStr} {float_repr : PyFloat → List Char}
  {v : Validators} {term lag : Nat} {d d' : Deployment ι} {server : VLLMServer} {c : Completion}

/-! ## The completions of the senders -/

/-- The completion names a configured server. -/
def Honest (cfg : Settings) (c : Completion) : Prop :=
  ∃ server ∈ cfg.VLLM_SERVERS, server.url = c.server

theorem discarded_of_honest (repr : Json → PyStr) (hs : server ∈ cfg.VLLM_SERVERS)
    (hurl : server.url = c.server) :
    discarded cfg repr (.completion c.body) = some (server, c.message_id) := by
  obtain ⟨data, hread, hserver, hid⟩ :=
    names_completion_message repr server c.message_id c.completed_at c.model c.user
  rw [hurl] at hread
  have hbody : rpc_server.readMembers c.body = .ok data := hread
  have hused := used_server_eq_some_iff.mpr ⟨hs, hserver⟩
  simp only [discarded, hbody, hused, ← hid, PyStr.toString?_ofString]
  rfl

theorem namesConfigured_of_honest (h : Honest cfg c) : NamesConfigured cfg c.body := by
  obtain ⟨server, hs, hurl⟩ := h
  have hnames := names_completion_message (fun _ => .ofString "") server c.message_id
    c.completed_at c.model c.user
  rw [hurl] at hnames
  exact hnames.configured hs

/-- A new completion is of a slot that a handler owed. -/
theorem completion_of_step {validate : List (PyStr × Json) → Option MessageData}
    {sender sender' : proxy.Sender} {e : SenderEvent} (hs : sender.step validate e = some sender')
    (hc : c ∈ sender'.completions) :
    c ∈ sender.completions ∨ ∃ k p call, Pair sender k p call ∧ c.grant ∈ p.owes := by
  cases proxy.moves_of_step hs with
  | handler hp hcall hgo =>
    refine (List.mem_append.mp hc).imp_right fun hnew => ?_
    exact ⟨_, _, _, ⟨hp, hcall⟩, (proxy.owed_of_published hgo hnew).1⟩
  | _ => exact .inl hc

/-! ## What every deployment keeps -/

/-- Replies and completions name configured servers, and no completion is stuck. -/
structure Flowing (cfg : Settings) (d : Deployment ι) : Prop where
  grants : Grants cfg d.state
  replies : ∀ reply ∈ d.replies, Granted cfg reply.llm_params
  completions : ∀ i, ∀ c ∈ (d.senders i).completions, Honest cfg c
  free : d.state.unsettled_completion = none

theorem flowing_create (cfg : Settings) (callback_queue : ι → String) :
    Flowing cfg (.create cfg callback_queue) :=
  ⟨grants_create cfg, fun _ hr => (by cases hr), fun _ _ hc => (by cases hc), rfl⟩

theorem flowing_consumer (h : Flowing cfg d) {e : LeasedEvent} {l' : Logged Leased Entry}
    (hs : Leased.logged cfg repr term lag d.consumer e = some l')
    (hcompletion : ∀ body, e = .consumer (.completion body) →
      ∃ i, ∃ c ∈ (d.senders i).completions, c.body = body) :
    Flowing cfg { d with
      consumer := l', replies := d.replies ++ (published d.state e).toList } := by
  have hreplies : ∀ reply ∈ d.replies ++ (published d.state e).toList,
      Granted cfg reply.llm_params := by
    intro reply hr
    rcases List.mem_append.mp hr with hold | hnew
    · exact h.replies reply hold
    · have hreply := Option.mem_toList.mp hnew
      unfold published at hreply
      split at hreply
      · obtain ⟨callback, hc, rfl⟩ := Option.map_eq_some_iff.mp hreply
        exact (h.grants.callbacks callback (List.mem_of_getElem? hc)).granted
      · cases hreply
  rcases consumer_step hs with ⟨hstate, _⟩ | ⟨e', rfl, hstep, _⟩
  · refine ⟨?_, hreplies, h.completions, ?_⟩
    · rw [Deployment.state, hstate]
      exact h.grants
    · rw [Deployment.state, hstate]
      exact h.free
  · refine ⟨grants_step h.grants hstep, hreplies, h.completions, ?_⟩
    rw [Deployment.state]
    rcases unsettled_completion_step hstep with ⟨body, rfl, _, heq⟩ | ⟨_, heq⟩
    · rw [heq]
      refine (unsettled_completion_complete h.grants.sound body).mpr ?_
      obtain ⟨i, c, hc, rfl⟩ := hcompletion body rfl
      exact namesConfigured_of_honest (h.completions i c hc)
    · rw [heq]
      exact h.free

variable [DecidableEq ι]

theorem flowing_moved (hprints : Prints float_repr) (h : Flowing cfg d)
    (hsender : SenderSide float_repr v d) {i : ι} {e : SenderEvent} {sender' : proxy.Sender}
    (hs : (d.senders i).step v.validate e = some sender') : Flowing cfg (d.moved i e sender') := by
  refine ⟨h.grants, h.replies, fun j c hc => ?_, h.free⟩
  by_cases hj : j = i
  · subst hj
    rw [moved_self] at hc
    rcases completion_of_step hs hc with hold | ⟨k, p, call, hpair, hg⟩
    · exact h.completions j c hold
    · obtain ⟨reply, hreply, hurl, _⟩ := reply_of_owes hprints hsender hpair hg
      rcases h.replies reply hreply with ⟨server, hserver, hd⟩ | hnone
      · exact ⟨server, hserver, Option.some.inj (hd.llm_url.symm.trans hurl)⟩
      · cases hnone.symm.trans hurl
  · rw [moved_ne d e sender' hj] at hc
    exact h.completions j c hc

theorem flowing_step (hprints : Prints float_repr) {e : DeploymentEvent ι} (h : Flowing cfg d)
    (hsender : SenderSide float_repr v d)
    (hs : d.step cfg repr float_repr v term lag e = some d') : Flowing cfg d' := by
  cases moves_of_step hs with
  | consumer hl hcompletion _ => exact flowing_consumer h hl hcompletion
  | sender hstep _ _ => exact flowing_moved hprints h hsender hstep

/-! ## The law -/

/-- In every run of a consumer and its senders, whatever fails: no completion is stuck before its
ack, and each that a sender sent can come next, is acked, and takes its own id out of the set of
the one server that it names. -/
theorem every_completion_settles (hprints : Prints float_repr) {callback_queue : ι → String}
    {es : List (DeploymentEvent ι)}
    (h : Run (Deployment.step cfg repr float_repr v term lag) Any
      (.create cfg callback_queue) es d) :
    d.state.unsettled_completion = none ∧
    ∀ i k c, (d.senders i).completions[k]? = some c →
      ∃ server ∈ cfg.VLLM_SERVERS, server.url = c.server ∧
        ∃ d', d.step cfg repr float_repr v term lag (.completion i k) = some d' ∧
          d'.state.unsettled_completion = none ∧
          ∀ other, d'.state.ids other = if other = server then
            (d.state.ids other).erase c.message_id else d.state.ids other := by
  have hflowing : SenderSide float_repr v d ∧ Flowing cfg d :=
    h.invariant (I := fun d => SenderSide float_repr v d ∧ Flowing cfg d)
      ⟨senderSide_create cfg callback_queue, flowing_create cfg callback_queue⟩
      fun _ _ _ hi _ hs => ⟨senderSide_step hi.1 hs, flowing_step hprints hi.2 hi.1 hs⟩
  refine ⟨hflowing.2.free, fun i k c hc => ?_⟩
  obtain ⟨server, hserver, hurl⟩ := hflowing.2.completions i c (List.mem_of_getElem? hc)
  refine ⟨server, hserver, hurl, ?_⟩
  have hfree : d.consumer.state.state.unsettled_completion = none := hflowing.2.free
  have hconsumer : d.consumer.state.state.step cfg repr (.completion c.body) =
      some (d.consumer.state.state.complete cfg repr c.body) := by
    simp [rpc_server.State.step, hfree]
  have hstep : ∃ d', d.step cfg repr float_repr v term lag (.completion i k) = some d' ∧
      d'.state = d.state.complete cfg repr c.body := by
    simp [Deployment.step, hc, Leased.logged, runs.logged, Leased.step, Leased.isDue, hconsumer,
      Deployment.state, Leased.after]
  obtain ⟨d', hd', hstate⟩ := hstep
  refine ⟨d', hd', ?_, fun other => ?_⟩
  · exact (flowing_step hprints hflowing.2 hflowing.1 hd').free
  · rw [hstate]
    exact ids_complete_of_discarded (discarded_of_honest repr hserver hurl) other

/-- The request that was granted is proxied to its end. -/
def servedToTheEnd : List (DeploymentEvent Unit) := servedByOne ++ (proxied.drop 2).map (.sender ())

theorem a_sent_completion_settles : ∃ d,
    Run (Deployment.step roundRobinSettings noRepr halfDigits strict 10 0) Any
      (.create roundRobinSettings fun _ => "reply") servedToTheEnd d ∧
    (d.senders ()).completions.map (·.message_id) = ["1"] ∧
    d.state.unsettled_completion = none ∧
    ∀ i k c, (d.senders i).completions[k]? = some c →
      ∃ server ∈ roundRobinSettings.VLLM_SERVERS, server.url = c.server ∧
        ∃ d', d.step roundRobinSettings noRepr halfDigits strict 10 0 (.completion i k) =
            some d' ∧
          d'.state.unsettled_completion = none ∧
          ∀ other, d'.state.ids other = if other = server then
            (d.state.ids other).erase c.message_id else d.state.ids other := by
  have hexec : (exec (Deployment.step roundRobinSettings noRepr halfDigits strict 10 0)
      (.create roundRobinSettings fun _ => "reply") servedToTheEnd).map (fun d =>
        (d.senders ()).completions.map (·.message_id)) = some ["1"] := by
    decide +kernel
  obtain ⟨d, hd, hids⟩ := Option.map_eq_some_iff.mp hexec
  exact ⟨d, run_of_exec hd, hids, every_completion_settles prints_halfDigits (run_of_exec hd)⟩

end aristote_dispatcher.deployment
