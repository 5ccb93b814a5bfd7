-- Several senders, and consumers that answer them: a reply goes to the queue and
-- with the id of the request that it answers, over any number of deferrals. The
-- broker brings it late, twice, out of order or not at all.
import Mathlib.Logic.Function.Basic
import AristoteDispatcher.ClientInvariant

open pydict runs
open aristote_dispatcher.messages

namespace aristote_dispatcher.network

open aristote_dispatcher.rpc_client

/-- A reply, and the callback queue that it goes to. -/
structure Reply where
  queue : String
  response : Response
  deriving DecidableEq

/-- The clients of all senders, and what they exchange with the consumers. Requests and replies
stay, so each can be delivered again. -/
structure Network (ι : Type*) where
  clients : ι → RPCClient
  /-- The ids of all calls so far. -/
  ids : List String
  /-- What calls published, and the copies that deferrals made. -/
  requests : List Message
  replies : List Reply

variable {ι : Type*}

def Network.create (callback_queue : ι → String) : Network ι :=
  ⟨fun i => .create (callback_queue i), [], [], []⟩

/-- A step of one client, a deferral of a request, an answer to a request, or the delivery of a
reply. The numbers are places in the lists. -/
inductive NetworkEvent (ι : Type*)
  | client (i : ι) (e : Event)
  | requeue (k : Nat) (queue : Option String)
  | answer (k : Nat) (body : ByteArray)
  | deliver (k : Nat) (i : ι)

/-- The new id of a call whose queue is found. -/
def newId : Event → Option String
  | .queue_found _ _ correlation_id => some correlation_id
  | _ => none

/-- A response comes to a client only by a delivery. -/
def isResponse : Event → Bool
  | .on_response _ => true
  | _ => false

/-- The request that the broker can have from then on, though the publish is not confirmed. -/
def publishing (c : RPCClient) : Event → Option Message
  | .queue_found i _ _ => c.calls[i]?.bind fun call =>
    if call.stage = .publish then call.message? c.callback_queue else none
  | _ => none

variable [DecidableEq ι]

def Network.step (n : Network ι) : NetworkEvent ι → Option (Network ι)
  | .client i e =>
    if isResponse e = false ∧ ∀ id ∈ newId e, id ∉ n.ids then
      ((n.clients i).step e).map fun c => { n with
        clients := Function.update n.clients i c
        ids := n.ids ++ (newId e).toList
        requests := n.requests ++ (publishing c e).toList }
    else none
  | .requeue k queue => n.requests[k]?.map fun message =>
    { n with requests := n.requests ++ [(RequeueCall.mk message queue none).new_msg] }
  | .answer k body => n.requests[k]?.bind fun message => message.reply_to.map fun queue =>
    -- `correlation_id=str(message.correlation_id)`, `routing_key=message.reply_to`
    { n with replies := n.replies ++ [⟨queue, ⟨some message.id, body⟩⟩] }
  | .deliver k i => n.replies[k]?.bind fun reply =>
    if reply.queue = (n.clients i).callback_queue then
      some { n with
        clients := Function.update n.clients i ((n.clients i).on_response reply.response).1 }
    else none

/-! ## What a client keeps of its calls -/

variable {c c' : RPCClient}

/-- The id of a call was there before the step, or the step gives it. -/
theorem id_step (h : Sound c) {e : Event} (hs : c.step e = some c') {k : Nat} {call' : Call}
    {id : String} (hcall : c'.calls[k]? = some call') (hid : call'.correlation_id = some id) :
    (∃ call, c.calls[k]? = some call ∧ call.correlation_id = some id) ∨ newId e = some id := by
  rcases turn_of_step h hs hcall with hsame | ⟨_, arguments, _, rfl⟩ | ⟨call, hone, hturn⟩
  · exact .inl ⟨call', hsame, hid⟩
  · cases hid
  · cases hturn with
    | registers hstage hnone => exact .inr hid
    | timer hstage => exact .inl ⟨call, hone, (cancel_future_keeps call).1 ▸ hid⟩
    | cancel_wait hstage => exact .inl ⟨call, hone, (cancel_future_keeps call).1 ▸ hid⟩
    | _ => exact .inl ⟨call, hone, hid⟩

theorem callback_queue_step (h : Sound c) {e : Event} (hs : c.step e = some c') :
    c'.callback_queue = c.callback_queue := by
  have hpop : ∀ correlation_id, (c.pop correlation_id).callback_queue = c.callback_queue := by
    intro correlation_id
    unfold RPCClient.pop
    split <;> rfl
  cases moves_of_step hs with
  | on_response message =>
    rcases on_response_cases h message with ⟨_, heq⟩ | ⟨id, _, ⟨_, heq⟩ |
      ⟨i, one, _, _, _, ⟨_, heq⟩ | ⟨_, heq⟩⟩⟩
    · rw [heq]
    · rw [heq]
    · rw [heq]
      exact hpop _
    · rw [heq]
      exact hpop _
  | timeout hone hstage => exact hpop _
  | _ => rfl

/-! ## What every network keeps -/

/-- A request of the call, or a copy of it: with its body, id, way back and priority. -/
def Asks (call : Call) (callback_queue : String) (request : Message) : Prop :=
  ∃ original, call.message? callback_queue = some original ∧
    request.body = original.body ∧ request.correlation_id = original.correlation_id ∧
    request.reply_to = original.reply_to ∧ request.priority = original.priority

/-- A request of a call answers to the id and the queue of the call. -/
theorem asks_iff {call : Call} {callback_queue : String} {request : Message}
    (h : Asks call callback_queue request) :
    request.correlation_id = call.correlation_id ∧ request.reply_to = some callback_queue := by
  obtain ⟨original, ho, _, hid, hreply, _⟩ := h
  obtain ⟨priority, _, ho⟩ := Option.bind_eq_some_iff.mp ho
  obtain ⟨id, hcall, rfl⟩ := Option.map_eq_some_iff.mp ho
  exact ⟨hid.trans hcall.symm, hreply⟩

/-- The same call asks the same. -/
theorem asks_of_sameCall {call call' : Call} (h : SameCall call call') {queue : String}
    {request : Message} (ha : Asks call queue request) : Asks call' queue request := by
  obtain ⟨original, ho, hrest⟩ := ha
  refine ⟨original, ?_, hrest⟩
  obtain ⟨priority, hp, ho⟩ := Option.bind_eq_some_iff.mp ho
  obtain ⟨id, hid, rfl⟩ := Option.map_eq_some_iff.mp ho
  simp [Call.message?, h.arguments, hp, h.id id hid]

/-- The place of a call in the network. -/
def Network.call? (n : Network ι) (i : ι) (k : Nat) : Option Call := (n.clients i).calls[k]?

structure Uncrossed (n : Network ι) : Prop where
  sound : ∀ i, Sound (n.clients i)
  known : ∀ i k call id, n.call? i k = some call → call.correlation_id = some id → id ∈ n.ids
  apart : ∀ i j k l call other id, n.call? i k = some call → n.call? j l = some other →
    call.correlation_id = some id → other.correlation_id = some id → i = j ∧ k = l
  requests : ∀ request ∈ n.requests, ∃ i k call, n.call? i k = some call ∧
    Asks call (n.clients i).callback_queue request
  replies : ∀ reply ∈ n.replies, ∃ request ∈ n.requests,
    request.reply_to = some reply.queue ∧ reply.response.correlation_id = some request.id
  delivered : ∀ i k call message, n.call? i k = some call → call.future = .done message →
    ∃ reply ∈ n.replies, reply.response = message

variable {n n' : Network ι}

omit [DecidableEq ι] in
theorem uncrossed_create (callback_queue : ι → String) : Uncrossed (.create callback_queue) := by
  refine ⟨fun i => sound_create _, ?_, ?_, ?_, ?_, ?_⟩
  · intro i k call id hcall
    cases hcall
  · intro i j k l call other id hcall
    cases hcall
  · intro request hr
    cases hr
  · intro reply hr
    cases hr
  · intro i k call message hcall
    cases hcall

/-- The network after a step of one client. -/
def Network.moved (n : Network ι) (i : ι) (e : Event) (c : RPCClient) : Network ι where
  clients := Function.update n.clients i c
  ids := n.ids ++ (newId e).toList
  requests := n.requests ++ (publishing c e).toList
  replies := n.replies

@[simp] theorem moved_self (n : Network ι) (i : ι) (e : Event) (c : RPCClient) :
    (n.moved i e c).clients i = c := by simp [Network.moved]

theorem moved_ne (n : Network ι) {i j : ι} (e : Event) (c : RPCClient) (h : j ≠ i) :
    (n.moved i e c).clients j = n.clients j := by simp [Network.moved, h]

/-- Every call of the network goes on as the same one. -/
theorem sameCall_moved (h : Uncrossed n) {i : ι} {e : Event}
    (hs : (n.clients i).step e = some c') {j : ι} {k : Nat} {call : Call}
    (hcall : n.call? j k = some call) :
    ∃ call', (n.moved i e c').call? j k = some call' ∧ SameCall call call' := by
  unfold Network.call?
  by_cases hj : j = i
  · subst hj
    rw [moved_self]
    exact sameCall_step (h.sound j) hs hcall
  · rw [moved_ne n e c' hj]
    exact ⟨call, hcall, .refl call⟩

/-- An id in the network was there before, or is the new one of the client. -/
theorem id_moved (h : Uncrossed n) {i : ι} {e : Event} (hs : (n.clients i).step e = some c')
    {j : ι} {k : Nat} {call' : Call} {id : String}
    (hcall : (n.moved i e c').call? j k = some call') (hid : call'.correlation_id = some id) :
    (∃ call, n.call? j k = some call ∧ call.correlation_id = some id) ∨
      (j = i ∧ newId e = some id) := by
  unfold Network.call? at hcall
  by_cases hj : j = i
  · subst hj
    rw [moved_self] at hcall
    exact (id_step (h.sound j) hs hcall hid).imp (fun hold => hold) fun hnew => ⟨rfl, hnew⟩
  · rw [moved_ne n e c' hj] at hcall
    exact .inl ⟨call', hcall, hid⟩

theorem callback_queue_moved (h : Uncrossed n) {i : ι} {e : Event}
    (hs : (n.clients i).step e = some c') (j : ι) :
    ((n.moved i e c').clients j).callback_queue = (n.clients j).callback_queue := by
  by_cases hj : j = i
  · subst hj
    rw [moved_self]
    exact callback_queue_step (h.sound j) hs
  · rw [moved_ne n e c' hj]

/-- What a client publishes is a request of one of its calls. -/
theorem asks_publishing {c : RPCClient} {e : Event} {request : Message}
    (h : publishing c e = some request) :
    ∃ (k : Nat) (call : Call), c.calls[k]? = some call ∧ Asks call c.callback_queue request := by
  cases e with
  | queue_found k m id =>
    obtain ⟨call, hcall, h⟩ := Option.bind_eq_some_iff.mp h
    obtain ⟨_, hm⟩ := Option.ite_none_right_eq_some.mp h
    exact ⟨k, call, hcall, request, hm, rfl, rfl, rfl, rfl⟩
  | _ => cases h

theorem uncrossed_moved (h : Uncrossed n) {i : ι} {e : Event}
    (hs : (n.clients i).step e = some c') (hnew : ∀ id ∈ newId e, id ∉ n.ids)
    (hresponse : ∀ message, e = .on_response message →
      ∃ reply ∈ n.replies, reply.response = message) :
    Uncrossed (n.moved i e c') := by
  have hsound : ∀ j, Sound ((n.moved i e c').clients j) := by
    intro j
    by_cases hj : j = i
    · subst hj
      rw [moved_self]
      exact sound_step (h.sound j) hs
    · rw [moved_ne n e c' hj]
      exact h.sound j
  refine ⟨hsound, ?_, ?_, ?_, ?_, ?_⟩
  · intro j k call id hcall hid
    rcases id_moved h hs hcall hid with ⟨old, hold, hoid⟩ | ⟨_, hfresh⟩
    · exact List.mem_append_left _ (h.known j k old id hold hoid)
    · exact List.mem_append_right _ (Option.mem_toList.mpr hfresh)
  · intro j j' k l call other id hcall hother hid hoid
    rcases id_moved h hs hcall hid with ⟨old, hold, hold'⟩ | ⟨hj, hfresh⟩
    · rcases id_moved h hs hother hoid with ⟨old2, hold2, hold2'⟩ | ⟨_, hfresh⟩
      · exact h.apart j j' k l old old2 id hold hold2 hold' hold2'
      · exact absurd (h.known j k old id hold hold') (hnew id hfresh)
    · rcases id_moved h hs hother hoid with ⟨old2, hold2, hold2'⟩ | ⟨hj', _⟩
      · exact absurd (h.known j' l old2 id hold2 hold2') (hnew id hfresh)
      · subst hj hj'
        exact ⟨rfl, (hsound _).distinct k l call other hcall hother id hid hoid⟩
  · intro request hr
    rcases List.mem_append.mp hr with hr | hr
    · obtain ⟨j, k, call, hcall, ha⟩ := h.requests request hr
      obtain ⟨call', hcall', hsame⟩ := sameCall_moved h hs hcall
      refine ⟨j, k, call', hcall', ?_⟩
      rw [callback_queue_moved h hs]
      exact asks_of_sameCall hsame ha
    · obtain ⟨k, call, hcall, ha⟩ := asks_publishing (Option.mem_toList.mp hr)
      refine ⟨i, k, call, ?_, ?_⟩
      · rw [Network.call?, moved_self, hcall]
      · rw [moved_self]
        exact ha
  · intro reply hr
    obtain ⟨request, hreq, hrest⟩ := h.replies reply hr
    exact ⟨request, List.mem_append_left _ hreq, hrest⟩
  · intro j k call message hcall hdone
    unfold Network.call? at hcall
    by_cases hj : j = i
    · subst hj
      rw [moved_self] at hcall
      rcases done_step (h.sound j) hs hcall hdone with ⟨old, hold, hodone⟩ | he
      · exact h.delivered j k old message hold hodone
      · exact hresponse message he
    · rw [moved_ne n e c' hj] at hcall
      exact h.delivered j k call message hcall hdone

/-- A delivery is a step of the client. -/
theorem deliver_eq_moved (n : Network ι) (i : ι) (response : Response) :
    { n with clients := Function.update n.clients i ((n.clients i).on_response response).1 } =
      n.moved i (.on_response response) ((n.clients i).on_response response).1 := by
  simp [Network.moved, newId, publishing]

theorem uncrossed_step {e : NetworkEvent ι} (h : Uncrossed n) (hs : n.step e = some n') :
    Uncrossed n' := by
  cases e with
  | client i e =>
    obtain ⟨⟨hno, hnew⟩, hs⟩ := Option.ite_none_right_eq_some.mp hs
    obtain ⟨c, hc, rfl⟩ := Option.map_eq_some_iff.mp hs
    refine uncrossed_moved h hc hnew ?_
    rintro message rfl
    cases hno
  | requeue k queue =>
    obtain ⟨message, hm, rfl⟩ := Option.map_eq_some_iff.mp hs
    refine ⟨h.sound, h.known, h.apart, ?_, ?_, h.delivered⟩
    · intro request hr
      rcases List.mem_append.mp hr with hr | hr
      · exact h.requests request hr
      · -- the copy has the body, the id, the way back and the priority of the request
        cases List.mem_singleton.mp hr
        exact h.requests message (List.mem_of_getElem? hm)
    · intro reply hr
      obtain ⟨request, hreq, hrest⟩ := h.replies reply hr
      exact ⟨request, List.mem_append_left _ hreq, hrest⟩
  | answer k body =>
    obtain ⟨message, hm, hs⟩ := Option.bind_eq_some_iff.mp hs
    obtain ⟨queue, hq, rfl⟩ := Option.map_eq_some_iff.mp hs
    refine ⟨h.sound, h.known, h.apart, h.requests, ?_, ?_⟩
    · intro reply hr
      rcases List.mem_append.mp hr with hr | hr
      · exact h.replies reply hr
      · cases List.mem_singleton.mp hr
        exact ⟨message, List.mem_of_getElem? hm, hq, rfl⟩
    · intro i l call response hcall hdone
      obtain ⟨reply, hr, heq⟩ := h.delivered i l call response hcall hdone
      exact ⟨reply, List.mem_append_left _ hr, heq⟩
  | deliver k i =>
    obtain ⟨reply, hr, hs⟩ := Option.bind_eq_some_iff.mp hs
    obtain ⟨_, hs⟩ := Option.ite_none_right_eq_some.mp hs
    cases hs
    rw [deliver_eq_moved]
    refine uncrossed_moved h rfl (fun id hid => (by cases hid)) ?_
    intro message he
    cases he
    exact ⟨reply, List.mem_of_getElem? hr, rfl⟩

/-! ## The law -/

/-- Every call goes on as the same one, whatever happens in the network. -/
theorem sameCall_network {e : NetworkEvent ι} (h : Uncrossed n) (hs : n.step e = some n') {i : ι}
    {k : Nat} {call : Call} (hcall : n.call? i k = some call) :
    ∃ call', n'.call? i k = some call' ∧ SameCall call call' := by
  cases e with
  | client j e =>
    obtain ⟨_, hs⟩ := Option.ite_none_right_eq_some.mp hs
    obtain ⟨c, hc, rfl⟩ := Option.map_eq_some_iff.mp hs
    exact sameCall_moved h hc hcall
  | requeue l queue =>
    obtain ⟨message, hm, rfl⟩ := Option.map_eq_some_iff.mp hs
    exact ⟨call, hcall, .refl call⟩
  | answer l body =>
    obtain ⟨message, hm, hs⟩ := Option.bind_eq_some_iff.mp hs
    obtain ⟨queue, hq, rfl⟩ := Option.map_eq_some_iff.mp hs
    exact ⟨call, hcall, .refl call⟩
  | deliver l j =>
    obtain ⟨reply, hr, hs⟩ := Option.bind_eq_some_iff.mp hs
    obtain ⟨_, hs⟩ := Option.ite_none_right_eq_some.mp hs
    cases hs
    rw [deliver_eq_moved]
    exact sameCall_moved h rfl hcall

omit [DecidableEq ι] in
/-- A result is an answer to a request of the call itself. -/
theorem own_answer (h : Uncrossed n) {i : ι} {k : Nat} {call : Call} {message : Response}
    (hcall : n.call? i k = some call) (hdone : call.future = .done message) :
    ∃ id, call.correlation_id = some id ∧ message.correlation_id = some id ∧
      ∃ request ∈ n.requests, Asks call (n.clients i).callback_queue request ∧ request.id = id := by
  obtain ⟨reply, hr, rfl⟩ := h.delivered i k call message hcall hdone
  obtain ⟨request, hreq, _, hid⟩ := h.replies reply hr
  have hsame := ((h.sound i).calls call (List.mem_of_getElem? hcall)).answered _ hdone
  have hcid : call.correlation_id = some request.id := hsame.symm.trans hid
  obtain ⟨j, l, other, hother, ha⟩ := h.requests request hreq
  obtain ⟨rid, hrid⟩ : ∃ rid, other.correlation_id = some rid := by
    obtain ⟨original, ho, _⟩ := ha
    obtain ⟨_, _, ho⟩ := Option.bind_eq_some_iff.mp ho
    obtain ⟨rid, hrid, _⟩ := Option.map_eq_some_iff.mp ho
    exact ⟨rid, hrid⟩
  have heq : request.id = rid := by
    rw [Message.id, (asks_iff ha).1, hrid]
    rfl
  obtain ⟨rfl, rfl⟩ := h.apart i j k l call other request.id hcall hother hcid (heq ▸ hrid)
  rw [hcall] at hother
  cases hother
  exact ⟨request.id, hcid, hid, request, hreq, ha, rfl⟩

/-- A call that returns a message returns an answer to its own request, with its id; two
calls with results of one id are one call; and no step changes a TIMEOUT, or any end. -/
theorem replies_are_never_crossed (callback_queue : ι → String) {es : List (NetworkEvent ι)}
    (h : Run Network.step Any (.create callback_queue) es n) :
    (∀ i k call message, n.call? i k = some call → call.stage = .ended (.response message) →
      ∃ id, call.correlation_id = some id ∧ message.correlation_id = some id ∧
        ∃ request ∈ n.requests, Asks call (n.clients i).callback_queue request ∧
          request.id = id) ∧
    (∀ i j k l call other message message', n.call? i k = some call → n.call? j l = some other →
      call.future = .done message → other.future = .done message' →
      message.correlation_id = message'.correlation_id → i = j ∧ k = l) ∧
    ∀ e n', n.step e = some n' → ∀ i k call ending, n.call? i k = some call →
      call.stage = .ended ending → ∃ call', n'.call? i k = some call' ∧
        call'.stage = .ended ending := by
  have hinv : Uncrossed n :=
    h.invariant (uncrossed_create callback_queue) fun _ _ _ hi _ hs => uncrossed_step hi hs
  refine ⟨?_, ?_, ?_⟩
  · intro i k call message hcall hstage
    have hdone := ((hinv.sound i).calls call (List.mem_of_getElem? hcall)).returned _ hstage
    exact own_answer hinv hcall hdone
  · intro i j k l call other message message' hcall hother hdone hdone' heq
    obtain ⟨id, hid, hmid, _⟩ := own_answer hinv hcall hdone
    obtain ⟨id', hid', hmid', _⟩ := own_answer hinv hother hdone'
    rw [hmid, hmid'] at heq
    cases heq
    exact hinv.apart i j k l call other id hcall hother hid hid'
  · intro e n' hs i k call ending hcall hstage
    obtain ⟨call', hcall', hsame⟩ := sameCall_network hinv hs hcall
    exact ⟨call', hcall', hsame.ended ending hstage⟩

/-- Two senders whose answers come in the other order, one of them to a copy, and one twice. -/
def exchange : List (NetworkEvent Bool) :=
  [.client false (.start ⟨0, 10, "model", "org", "any"⟩),
    .client true (.start ⟨0, 10, "model", "org", "private-only"⟩),
    .client false (.queue_found 0 0 "1"), .client true (.queue_found 0 0 "2"),
    .client false (.published 0), .client true (.published 0), .requeue 0 none,
    .answer 1 "second".toUTF8, .answer 2 "first".toUTF8, .deliver 0 true, .deliver 0 true,
    .deliver 1 false, .client true (.resume 0), .client false (.resume 0)]

/-- The callback queues of two senders. -/
def twoQueues : Bool → String
  | false => "amq.gen-a"
  | true => "amq.gen-b"

theorem two_answers_reach_their_calls : ∃ n : Network Bool,
    Run Network.step Any (.create twoQueues) exchange n ∧
    (∀ i k call message, n.call? i k = some call → call.stage = .ended (.response message) →
      ∃ id, call.correlation_id = some id ∧ message.correlation_id = some id ∧
        ∃ request ∈ n.requests, Asks call (n.clients i).callback_queue request ∧
          request.id = id) ∧
    (∀ i j k l call other message message', n.call? i k = some call → n.call? j l = some other →
      call.future = .done message → other.future = .done message' →
      message.correlation_id = message'.correlation_id → i = j ∧ k = l) ∧
    ∀ e n', n.step e = some n' → ∀ i k call ending, n.call? i k = some call →
      call.stage = .ended ending → ∃ call', n'.call? i k = some call' ∧
        call'.stage = .ended ending := by
  have hsome : (exec Network.step (Network.create twoQueues) exchange).isSome = true := by
    decide +kernel
  obtain ⟨n, hn⟩ := Option.isSome_iff_exists.mp hsome
  exact ⟨n, run_of_exec hn, replies_are_never_crossed twoQueues (run_of_exec hn)⟩

end aristote_dispatcher.network
