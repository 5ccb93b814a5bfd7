-- What one step of a client can do, said once, and what all its states keep: an
-- entry of `futures` is that of one call with its id, a call that waits has one,
-- and a result is a message with the id of its call.
import AristoteDispatcher.Lib.Places
import AristoteDispatcher.Lib.Runs
import AristoteDispatcher.RpcClient

open pydict runs places
open aristote_dispatcher.messages

namespace aristote_dispatcher.rpc_client

variable {c c' : RPCClient}

/-- The steps of a client, with what each one asks of the state before it. -/
inductive Moves (c : RPCClient) : Event → RPCClient → Prop
  | start (arguments : Arguments) : Moves c (.start arguments)
      { c with calls := c.calls ++ [⟨arguments, none, .pending, .get_queue⟩] }
  | overloaded {i n : Nat} {id : String} {call : Call} (hcall : c.calls[i]? = some call)
      (hstage : call.stage = .get_queue) (hn : call.arguments.threshold < n) :
      Moves c (.queue_found i n id) (c.update i { call with stage := .ended .QUEUE_OVERLOADED })
  | registers {i n : Nat} {id : String} {call : Call} (hcall : c.calls[i]? = some call)
      (hstage : call.stage = .get_queue)
      (hnew : ∀ other ∈ c.calls, other.correlation_id ≠ some id) :
      Moves c (.queue_found i n id)
        { c.update i { call with correlation_id := some id, future := .pending, stage := .publish }
          with futures := c.futures.insert id i }
  | queue_raises {i : Nat} {call : Call} (hcall : c.calls[i]? = some call)
      (hstage : call.stage = .get_queue) :
      Moves c (.queue_raises i) (c.update i { call with stage := .ended .raised })
  | published {i : Nat} {call : Call} {message : Message} (hcall : c.calls[i]? = some call)
      (hstage : call.stage = .publish) (hm : call.message? c.callback_queue = some message) :
      Moves c (.published i)
        { c.update i { call with stage := .wait_for } with sent := c.sent ++ [message] }
  | publish_raises {i : Nat} {call : Call} (hcall : c.calls[i]? = some call)
      (hstage : call.stage = .publish) :
      Moves c (.publish_raises i) (c.update i { call with stage := .ended .raised })
  | on_response (message : Response) : Moves c (.on_response message) (c.on_response message).1
  | resume {i : Nat} {call : Call} {message : Response} (hcall : c.calls[i]? = some call)
      (hstage : call.stage = .wait_for) (hdone : call.future = .done message) :
      Moves c (.resume i) (c.update i { call with stage := .ended (.response message) })
  | timer {i : Nat} {call : Call} (hcall : c.calls[i]? = some call)
      (hstage : call.stage = .wait_for) :
      Moves c (.timer i) (c.update i { call.cancel_future with stage := .timed_out })
  | timeout {i : Nat} {call : Call} (hcall : c.calls[i]? = some call)
      (hstage : call.stage = .timed_out) :
      Moves c (.timeout i)
        ((c.pop call.correlation_id).update i { call with stage := .ended .TIMEOUT })
  | cancel_wait {i : Nat} {call : Call} (hcall : c.calls[i]? = some call)
      (hstage : call.stage = .wait_for) :
      Moves c (.cancel i) (c.update i { call.cancel_future with stage := .ended .cancelled })
  | cancel {i : Nat} {call : Call} (hcall : c.calls[i]? = some call)
      (hstage : ∀ ending, call.stage ≠ .ended ending) :
      Moves c (.cancel i) (c.update i { call with stage := .ended .cancelled })

theorem moves_of_step {e : Event} (h : c.step e = some c') : Moves c e c' := by
  cases e with
  | start arguments =>
    cases h
    exact .start arguments
  | queue_found i n id =>
    obtain ⟨call, hcall, ⟨hstage, hnew⟩, rfl⟩ := guarded_eq_some h
    unfold RPCClient.queue_found
    by_cases hn : call.arguments.threshold < n
    · rw [if_pos hn]
      exact .overloaded hcall hstage hn
    · rw [if_neg hn]
      exact .registers hcall hstage hnew
  | queue_raises i =>
    obtain ⟨call, hcall, hstage, rfl⟩ := guarded_eq_some h
    exact .queue_raises hcall hstage
  | published i =>
    obtain ⟨call, hcall, h⟩ := Option.bind_eq_some_iff.mp h
    obtain ⟨hstage, h⟩ := Option.ite_none_right_eq_some.mp h
    obtain ⟨message, hm, rfl⟩ := Option.map_eq_some_iff.mp h
    exact .published hcall hstage hm
  | publish_raises i =>
    obtain ⟨call, hcall, hstage, rfl⟩ := guarded_eq_some h
    exact .publish_raises hcall hstage
  | on_response message =>
    cases h
    exact .on_response message
  | resume i =>
    obtain ⟨call, hcall, h⟩ := Option.bind_eq_some_iff.mp h
    split at h
    · rename_i message hstage hdone
      cases h
      exact .resume hcall hstage hdone
    · cases h
  | timer i =>
    obtain ⟨call, hcall, hstage, rfl⟩ := guarded_eq_some h
    exact .timer hcall hstage
  | timeout i =>
    obtain ⟨call, hcall, hstage, rfl⟩ := guarded_eq_some h
    exact .timeout hcall hstage
  | cancel i =>
    obtain ⟨call, hcall, h⟩ := Option.bind_eq_some_iff.mp h
    split at h
    · cases h
    · rename_i hstage
      cases h
      exact .cancel_wait hcall hstage
    · rename_i hlive _
      cases h
      exact .cancel hcall hlive

/-! ## A call that goes on -/

/-- A call at a place after one call went on: the one that did, or one of before. -/
theorem getElem?_update {i j : Nat} {call' other : Call}
    (h : (c.update i call').calls[j]? = some other) :
    (i = j ∧ other = call') ∨ (i ≠ j ∧ c.calls[j]? = some other) :=
  getElem?_set_cases h

theorem getElem?_update_self {i : Nat} {call call' : Call} (hi : c.calls[i]? = some call) :
    (c.update i call').calls[i]? = some call' :=
  getElem?_set_place hi

theorem mem_update {i : Nat} {call' other : Call} (h : other ∈ (c.update i call').calls) :
    other ∈ c.calls ∨ other = call' :=
  List.mem_or_eq_of_mem_set h

theorem mem_update_self {i : Nat} {call call' : Call} (hi : c.calls[i]? = some call) :
    call' ∈ (c.update i call').calls :=
  List.mem_set (List.getElem?_eq_some_iff.mp hi).1 _

theorem cancel_future_keeps (call : Call) :
    call.cancel_future.correlation_id = call.correlation_id ∧
      call.cancel_future.future ≠ .pending ∧
      (call.cancel_future.future = call.future ∨ call.cancel_future.future = .cancelled) := by
  unfold Call.cancel_future
  split
  · exact ⟨rfl, by simp, .inr rfl⟩
  · rename_i hp
    exact ⟨rfl, hp, .inl rfl⟩

/-! ## An entry that is taken out -/

theorem mem_pop {correlation_id : Option String} {id : String}
    (h : id ∈ (c.pop correlation_id).futures) : id ∈ c.futures := by
  unfold RPCClient.pop at h
  split at h
  · exact h
  · exact (AList.mem_erase.mp h).2

theorem notMem_pop (c : RPCClient) (id : String) : id ∉ (c.pop (some id)).futures := by
  simp [RPCClient.pop]

@[simp] theorem calls_pop (c : RPCClient) (correlation_id : Option String) :
    (c.pop correlation_id).calls = c.calls := by
  unfold RPCClient.pop
  split <;> rfl

theorem lookup_pop {correlation_id : Option String} {id : String} {i : Nat}
    (h : (c.pop correlation_id).futures.lookup id = some i) : c.futures.lookup id = some i := by
  unfold RPCClient.pop at h
  split at h
  · exact h
  · rename_i popped
    by_cases heq : id = popped
    · subst heq
      rw [AList.lookup_erase] at h
      cases h
    · rwa [AList.lookup_erase_ne heq] at h

theorem lookup_pop_of_ne {correlation_id : Option String} {id : String}
    (h : correlation_id ≠ some id) :
    (c.pop correlation_id).futures.lookup id = c.futures.lookup id := by
  unfold RPCClient.pop
  split
  · rfl
  · exact AList.lookup_erase_ne fun heq => h (heq ▸ rfl)

/-! ## The invariant -/

/-- What a call keeps by itself. -/
structure Call.Sound (call : Call) : Prop where
  nameless : call.stage = .get_queue → call.correlation_id = none
  answered : ∀ message, call.future = .done message →
    message.correlation_id = call.correlation_id
  returned : ∀ message, call.stage = .ended (.response message) → call.future = .done message
  expired : call.stage = .timed_out → call.future ≠ .pending

/-- No two calls have one id. -/
def Distinct (calls : List Call) : Prop :=
  ∀ (i j : Nat) (call other : Call), calls[i]? = some call → calls[j]? = some other →
    ∀ id, call.correlation_id = some id → other.correlation_id = some id → i = j

/-- What every client keeps: an entry is that of the one call with its id, a call whose future
is pending has one, and a call whose future is done has none. -/
structure Sound (c : RPCClient) : Prop where
  calls : ∀ call ∈ c.calls, call.Sound
  owned : ∀ id i, c.futures.lookup id = some i →
    ∃ call, c.calls[i]? = some call ∧ call.correlation_id = some id
  distinct : Distinct c.calls
  waiting : ∀ (i : Nat) (call : Call), c.calls[i]? = some call → call.future = .pending →
    ∀ id, call.correlation_id = some id → c.futures.lookup id = some i
  taken : ∀ call ∈ c.calls, ∀ message, call.future = .done message →
    ∀ id, call.correlation_id = some id → id ∉ c.futures

theorem sound_create (callback_queue : String) : Sound (.create callback_queue) :=
  ⟨fun _ h => (by cases h), fun _ _ h => (by cases h), fun _ _ _ _ h => (by cases h),
    fun _ _ h => (by cases h), fun _ h => (by cases h)⟩

theorem distinct_update {i : Nat} {call call' : Call} (h : Distinct c.calls)
    (hcall : c.calls[i]? = some call) (hid : call'.correlation_id = call.correlation_id) :
    Distinct (c.update i call').calls := by
  intro j k one other hj hk id hone hother
  rcases getElem?_update hj with ⟨rfl, rfl⟩ | ⟨_, hj'⟩
  · rcases getElem?_update hk with ⟨rfl, _⟩ | ⟨_, hk'⟩
    · rfl
    · exact h i k call other hcall hk' id (hid ▸ hone) hother
  · rcases getElem?_update hk with ⟨rfl, rfl⟩ | ⟨_, hk'⟩
    · exact h j i one call hj' hcall id hone (hid ▸ hother)
    · exact h j k one other hj' hk' id hone hother

/-- A call goes on with its id, and its future stays or is cancelled. -/
structure Call.GoesOn (call call' : Call) : Prop where
  id : call'.correlation_id = call.correlation_id
  future : call'.future = call.future ∨ call'.future = .cancelled
  sound : call'.Sound

theorem sound_goesOn {i : Nat} {call call' : Call} (h : Sound c) (hcall : c.calls[i]? = some call)
    (hgo : call.GoesOn call') : Sound (c.update i call') := by
  refine ⟨?_, ?_, ?_, ?_, ?_⟩
  · intro other hother
    rcases mem_update hother with hmem | rfl
    · exact h.calls other hmem
    · exact hgo.sound
  · intro id j hj
    obtain ⟨owner, howner, hid⟩ := h.owned id j hj
    by_cases hij : i = j
    · subst hij
      rw [hcall] at howner
      cases howner
      exact ⟨call', getElem?_update_self hcall, hgo.id.trans hid⟩
    · exact ⟨owner, by rw [RPCClient.update, List.getElem?_set_ne hij, howner], hid⟩
  · exact distinct_update h.distinct hcall hgo.id
  · intro j other hj hp id hid
    rcases getElem?_update hj with ⟨rfl, rfl⟩ | ⟨_, hj⟩
    · have hpending : call.future = .pending := by
        rcases hgo.future with heq | heq
        · rw [← heq, hp]
        · rw [hp] at heq
          cases heq
      exact h.waiting i call hcall hpending id (hgo.id ▸ hid)
    · exact h.waiting j other hj hp id hid
  · intro other hother message hdone id hid
    rcases mem_update hother with hmem | rfl
    · exact h.taken other hmem message hdone id hid
    · rcases hgo.future with heq | heq
      · exact h.taken call (List.mem_of_getElem? hcall) message (heq ▸ hdone) id (hgo.id ▸ hid)
      · rw [hdone] at heq
        cases heq

/-- Without the entry of a call that does not wait, the client stays sound. -/
theorem sound_pop {i : Nat} {call : Call} (h : Sound c) (hcall : c.calls[i]? = some call)
    (hp : call.future ≠ .pending) : Sound (c.pop call.correlation_id) := by
  refine ⟨?_, ?_, ?_, ?_, ?_⟩
  · rw [calls_pop]
    exact h.calls
  · intro id j hj
    rw [calls_pop]
    exact h.owned id j (lookup_pop hj)
  · rw [calls_pop]
    exact h.distinct
  · intro j other hj hpending id hid
    rw [calls_pop] at hj
    rw [lookup_pop_of_ne]
    · exact h.waiting j other hj hpending id hid
    · intro heq
      obtain rfl := h.distinct i j call other hcall hj id heq hid
      rw [hcall] at hj
      cases hj
      exact hp hpending
  · intro other hother message hdone id hid hmem
    rw [calls_pop] at hother
    exact h.taken other hother message hdone id hid (mem_pop hmem)

theorem mem_start {arguments : Arguments} {call : Call}
    (h : call ∈ c.calls ++ [⟨arguments, none, .pending, .get_queue⟩]) :
    call ∈ c.calls ∨ call = ⟨arguments, none, .pending, .get_queue⟩ :=
  (List.mem_append.mp h).imp id List.mem_singleton.mp

/-- A new call stands behind the others. -/
theorem getElem?_start {arguments : Arguments} {i : Nat} {call : Call}
    (h : (c.calls ++ [⟨arguments, none, .pending, .get_queue⟩])[i]? = some call) :
    c.calls[i]? = some call ∨ call = ⟨arguments, none, .pending, .get_queue⟩ :=
  (getElem?_snoc h).imp_right And.right

theorem sound_start (h : Sound c) (arguments : Arguments) :
    Sound { c with calls := c.calls ++ [⟨arguments, none, .pending, .get_queue⟩] } := by
  refine ⟨?_, ?_, ?_, ?_, ?_⟩
  · intro call hcall
    rcases mem_start hcall with hmem | rfl
    · exact h.calls call hmem
    · exact ⟨fun _ => rfl, fun _ hd => (by cases hd), fun _ hr => (by cases hr),
        fun hx => (by cases hx)⟩
  · intro id i hi
    obtain ⟨call, hcall, hid⟩ := h.owned id i hi
    exact ⟨call, getElem?_snoc_of_some hcall, hid⟩
  · intro i j call other hi hj id hid hid'
    rcases getElem?_start hi with hi | rfl
    · rcases getElem?_start hj with hj | rfl
      · exact h.distinct i j call other hi hj id hid hid'
      · cases hid'
    · cases hid
  · intro i call hi hp id hid
    rcases getElem?_start hi with hi | rfl
    · exact h.waiting i call hi hp id hid
    · cases hid
  · intro call hcall message hdone
    rcases mem_start hcall with hmem | rfl
    · exact h.taken call hmem message hdone
    · cases hdone

theorem sound_registers {i : Nat} {call : Call} {id : String} (h : Sound c)
    (hcall : c.calls[i]? = some call) (hstage : call.stage = .get_queue)
    (hnew : ∀ other ∈ c.calls, other.correlation_id ≠ some id) :
    Sound { c.update i
        { call with correlation_id := some id, future := .pending, stage := .publish }
      with futures := c.futures.insert id i } := by
  have hnone := (h.calls call (List.mem_of_getElem? hcall)).nameless hstage
  refine ⟨?_, ?_, ?_, ?_, ?_⟩
  · intro other hother
    rcases mem_update hother with hmem | rfl
    · exact h.calls other hmem
    · exact ⟨fun hs => (by cases hs), fun _ hd => (by cases hd), fun _ hr => (by cases hr),
        fun hx => (by cases hx)⟩
  · intro id' j hj
    simp only [Dict.lookup_insert_eq] at hj
    split at hj
    · rename_i heq
      cases hj
      subst heq
      exact ⟨_, getElem?_update_self hcall, rfl⟩
    · obtain ⟨owner, howner, hoid⟩ := h.owned id' j hj
      have hij : i ≠ j := by
        rintro rfl
        rw [hcall] at howner
        cases howner
        rw [hnone] at hoid
        cases hoid
      exact ⟨owner, by simp [RPCClient.update, List.getElem?_set_ne hij, howner], hoid⟩
  · intro j k one other hj hk id' hone hother
    rcases getElem?_update hj with ⟨rfl, rfl⟩ | ⟨_, hj'⟩
    · rcases getElem?_update hk with ⟨rfl, _⟩ | ⟨_, hk'⟩
      · rfl
      · exact absurd (hother.trans hone.symm) (hnew other (List.mem_of_getElem? hk'))
    · rcases getElem?_update hk with ⟨rfl, rfl⟩ | ⟨_, hk'⟩
      · exact absurd (hone.trans hother.symm) (hnew one (List.mem_of_getElem? hj'))
      · exact h.distinct j k one other hj' hk' id' hone hother
  · intro j other hj hp id' hid'
    simp only [Dict.lookup_insert_eq]
    rcases getElem?_update hj with ⟨rfl, rfl⟩ | ⟨_, hj'⟩
    · rw [if_pos (Option.some.inj hid').symm]
    · rw [if_neg]
      · exact h.waiting j other hj' hp id' hid'
      · rintro rfl
        exact hnew other (List.mem_of_getElem? hj') hid'
  · intro other hother message hdone id' hid' hmem'
    have hmem'' : id' = id ∨ id' ∈ c.futures := (AList.mem_insert _).mp hmem'
    rcases mem_update hother with hmem | rfl
    · rcases hmem'' with rfl | hmem''
      · exact hnew other hmem hid'
      · exact h.taken other hmem message hdone id' hid' hmem''
    · cases hdone

/-! ## Responses -/

/-- What a response does: nothing without an id, a KeyError without an entry, a result to the
call with its id that waits, or an error of the future that is cancelled. -/
theorem on_response_cases (h : Sound c) (message : Response) :
    (message.correlation_id = none ∧ c.on_response message = (c, .ok ())) ∨
    ∃ id, message.correlation_id = some id ∧
      ((id ∉ c.futures ∧ c.on_response message = (c, .error .KeyError)) ∨
        ∃ i call, c.calls[i]? = some call ∧ call.correlation_id = some id ∧ id ∈ c.futures ∧
          ((call.future = .pending ∧ c.on_response message =
              ((c.pop (some id)).update i { call with future := .done message }, .ok ())) ∨
            (call.future = .cancelled ∧ c.on_response message =
              (c.pop (some id), .error .InvalidStateError)))) := by
  unfold RPCClient.on_response
  cases hm : message.correlation_id with
  | none => exact .inl ⟨rfl, rfl⟩
  | some id =>
    refine .inr ⟨id, rfl, ?_⟩
    cases hl : c.futures.lookup id with
    | none => exact .inl ⟨AList.lookup_eq_none.mp hl, by simp only [hl]⟩
    | some i =>
      obtain ⟨call, hcall, hid⟩ := h.owned id i hl
      have hmem : id ∈ c.futures := Dict.mem_of_lookup hl
      refine .inr ⟨i, call, hcall, hid, hmem, ?_⟩
      cases hf : call.future with
      | pending => exact .inl ⟨rfl, by simp only [hl, hcall, Option.map_some, Call.set_result, hf]⟩
      | cancelled =>
        exact .inr ⟨rfl, by simp only [hl, hcall, Option.map_some, Call.set_result, hf]⟩
      | done first =>
        exact absurd hmem (h.taken call (List.mem_of_getElem? hcall) first hf id hid)

/-- The call that waits for a response has it after it. -/
theorem on_response_answers (h : Sound c) {message : Response} {k : Nat} {call : Call} {id : String}
    (hcall : c.calls[k]? = some call) (hid : call.correlation_id = some id)
    (hm : message.correlation_id = some id) (hp : call.future = .pending) :
    (c.on_response message).1.calls[k]? = some { call with future := .done message } := by
  rcases on_response_cases h message with ⟨hnone, _⟩ | ⟨id', hm', ⟨hno, _⟩ |
    ⟨i, one, hone, hid', _, hcase⟩⟩
  · rw [hm] at hnone
    cases hnone
  · cases hm.symm.trans hm'
    exact absurd (Dict.mem_of_lookup (h.waiting k call hcall hp id hid)) hno
  · cases hm.symm.trans hm'
    obtain rfl := h.distinct i k one call hone hcall id hid' hid
    cases hcall.symm.trans hone
    rcases hcase with ⟨_, heq⟩ | ⟨hf, _⟩
    · rw [heq]
      exact getElem?_update_self (by rwa [calls_pop])
    · rw [hp] at hf
      cases hf

/-- The call that waits takes the response. -/
theorem sound_answered {i : Nat} {call : Call} {id : String} {message : Response} (h : Sound c)
    (hcall : c.calls[i]? = some call) (hid : call.correlation_id = some id)
    (hp : call.future = .pending) (hm : message.correlation_id = some id) :
    Sound ((c.pop (some id)).update i { call with future := .done message }) := by
  have hpop : (c.pop (some id)).calls[i]? = some call := by rwa [calls_pop]
  have hsound := h.calls call (List.mem_of_getElem? hcall)
  refine ⟨?_, ?_, ?_, ?_, ?_⟩
  · intro other hother
    rcases mem_update hother with hmem | rfl
    · exact h.calls other (calls_pop c (some id) ▸ hmem)
    · refine ⟨hsound.nameless, ?_, ?_, fun _ hx => (by cases hx)⟩
      · intro _ hdone
        cases hdone
        exact hm.trans hid.symm
      · intro _ hr
        have hdone := hsound.returned _ hr
        rw [hp] at hdone
        cases hdone
  · intro id' j hj
    obtain ⟨owner, howner, hoid⟩ := h.owned id' j (lookup_pop hj)
    have hij : i ≠ j := by
      rintro rfl
      rw [hcall] at howner
      cases howner
      rw [hid] at hoid
      cases hoid
      exact notMem_pop c id (Dict.mem_of_lookup hj)
    exact ⟨owner, by simp [RPCClient.update, List.getElem?_set_ne hij, howner], hoid⟩
  · exact distinct_update (calls_pop c (some id) ▸ h.distinct) hpop rfl
  · intro j other hj hpending id' hid'
    rcases getElem?_update hj with ⟨rfl, rfl⟩ | ⟨hij, hj'⟩
    · cases hpending
    · rw [calls_pop] at hj'
      have hne : some id ≠ some id' := fun heq =>
        hij (h.distinct i j call other hcall hj' id' (heq ▸ hid) hid')
      exact (lookup_pop_of_ne hne).trans (h.waiting j other hj' hpending id' hid')
  · intro other hother message' hdone id' hid' hmem
    rcases mem_update hother with hmem' | rfl
    · exact h.taken other (calls_pop c (some id) ▸ hmem') message' hdone id' hid' (mem_pop hmem)
    · rw [hid] at hid'
      cases hid'
      exact notMem_pop c id hmem

theorem sound_on_response (h : Sound c) (message : Response) :
    Sound (c.on_response message).1 := by
  rcases on_response_cases h message with ⟨_, heq⟩ | ⟨id, hm, ⟨_, heq⟩ |
    ⟨i, call, hcall, hid, _, ⟨hp, heq⟩ | ⟨hp, heq⟩⟩⟩
  · rw [heq]
    exact h
  · rw [heq]
    exact h
  · rw [heq]
    exact sound_answered h hcall hid hp hm
  · rw [heq, ← hid]
    exact sound_pop h hcall (by simp [hp])

/-- A call that goes on without its future. -/
theorem goesOn_stage {call : Call} {stage : Stage} (h : call.Sound) (hq : stage ≠ .get_queue)
    (hr : ∀ message, stage = .ended (.response message) → call.future = .done message)
    (hx : stage = .timed_out → call.future ≠ .pending) :
    call.GoesOn { call with stage := stage } :=
  ⟨rfl, .inl rfl, fun hs => absurd hs hq, h.answered, hr, hx⟩

/-- A call whose future is cancelled, if it waits for it. -/
theorem goesOn_cancelled {call : Call} {stage : Stage} (h : call.Sound) (hq : stage ≠ .get_queue)
    (hr : ∀ message, stage ≠ .ended (.response message)) :
    call.GoesOn { call.cancel_future with stage := stage } := by
  obtain ⟨hid, hp, hf⟩ := cancel_future_keeps call
  refine ⟨hid, hf, fun hs => absurd hs hq, ?_, fun m hs => absurd hs (hr m), fun _ => hp⟩
  intro message hdone
  rcases hf with hf | hf
  · exact (h.answered message (hf ▸ hdone)).trans hid.symm
  · rw [hf] at hdone
    cases hdone

theorem sound_step {e : Event} (h : Sound c) (hs : c.step e = some c') : Sound c' := by
  have hsound : ∀ {i : Nat} {call : Call}, c.calls[i]? = some call → call.Sound :=
    fun hcall => h.calls _ (List.mem_of_getElem? hcall)
  cases moves_of_step hs with
  | start arguments => exact sound_start h arguments
  | registers hcall hstage hnew => exact sound_registers h hcall hstage hnew
  | on_response message => exact sound_on_response h message
  | overloaded hcall hstage hn =>
    exact sound_goesOn h hcall (goesOn_stage (hsound hcall) (by simp) (by simp) (by simp))
  | queue_raises hcall hstage =>
    exact sound_goesOn h hcall (goesOn_stage (hsound hcall) (by simp) (by simp) (by simp))
  | published hcall hstage hm =>
    rename_i i call message
    have hupdate : Sound (c.update i { call with stage := .wait_for }) :=
      sound_goesOn h hcall (goesOn_stage (hsound hcall) (by simp) (by simp) (by simp))
    exact ⟨hupdate.calls, hupdate.owned, hupdate.distinct, hupdate.waiting, hupdate.taken⟩
  | publish_raises hcall hstage =>
    exact sound_goesOn h hcall (goesOn_stage (hsound hcall) (by simp) (by simp) (by simp))
  | resume hcall hstage hdone =>
    refine sound_goesOn h hcall (goesOn_stage (hsound hcall) (by simp) ?_ (by simp))
    intro _ heq
    cases heq
    exact hdone
  | timer hcall hstage =>
    exact sound_goesOn h hcall (goesOn_cancelled (hsound hcall) (by simp) (by simp))
  | timeout hcall hstage =>
    have hp := (hsound hcall).expired hstage
    refine sound_goesOn (sound_pop h hcall hp) (by rwa [calls_pop]) ?_
    exact goesOn_stage (hsound hcall) (by simp) (by simp) (by simp)
  | cancel_wait hcall hstage =>
    exact sound_goesOn h hcall (goesOn_cancelled (hsound hcall) (by simp) (by simp))
  | cancel hcall hstage =>
    exact sound_goesOn h hcall (goesOn_stage (hsound hcall) (by simp) (by simp) (by simp))

theorem sound_run {ok : RPCClient → Event → Prop} {callback_queue : String} {es : List Event}
    (h : Run RPCClient.step ok (.create callback_queue) es c) : Sound c :=
  h.invariant (sound_create callback_queue) fun _ _ _ hi _ hs => sound_step hi hs

/-! ## One call in a step -/

/-- What a step does with the call at a place, if it touches it. -/
inductive Turn (k : Nat) (call : Call) : Event → Call → Prop
  | overloaded {n : Nat} {id : String} (hstage : call.stage = .get_queue) :
      Turn k call (.queue_found k n id) { call with stage := .ended .QUEUE_OVERLOADED }
  | registers {n : Nat} {id : String} (hstage : call.stage = .get_queue)
      (hnone : call.correlation_id = none) : Turn k call (.queue_found k n id)
        { call with correlation_id := some id, future := .pending, stage := .publish }
  | queue_raises (hstage : call.stage = .get_queue) :
      Turn k call (.queue_raises k) { call with stage := .ended .raised }
  | published (hstage : call.stage = .publish) :
      Turn k call (.published k) { call with stage := .wait_for }
  | publish_raises (hstage : call.stage = .publish) :
      Turn k call (.publish_raises k) { call with stage := .ended .raised }
  | answered {message : Response} {id : String} (hid : call.correlation_id = some id)
      (hm : message.correlation_id = some id) (hp : call.future = .pending) :
      Turn k call (.on_response message) { call with future := .done message }
  | resume {message : Response} (hstage : call.stage = .wait_for)
      (hdone : call.future = .done message) :
      Turn k call (.resume k) { call with stage := .ended (.response message) }
  | timer (hstage : call.stage = .wait_for) :
      Turn k call (.timer k) { call.cancel_future with stage := .timed_out }
  | timeout (hstage : call.stage = .timed_out) :
      Turn k call (.timeout k) { call with stage := .ended .TIMEOUT }
  | cancel_wait (hstage : call.stage = .wait_for) :
      Turn k call (.cancel k) { call.cancel_future with stage := .ended .cancelled }
  | cancel (hstage : ∀ ending, call.stage ≠ .ended ending) :
      Turn k call (.cancel k) { call with stage := .ended .cancelled }

/-- A call after a step: untouched, new, or one that the step touches. -/
theorem turn_of_step (h : Sound c) {e : Event} (hs : c.step e = some c') {k : Nat} {call' : Call}
    (hcall : c'.calls[k]? = some call') : c.calls[k]? = some call' ∨
      (c.calls[k]? = none ∧ ∃ arguments, e = .start arguments ∧
        call' = ⟨arguments, none, .pending, .get_queue⟩) ∨
      ∃ call, c.calls[k]? = some call ∧ Turn k call e call' := by
  have hupdate : ∀ {i : Nat} {one one' : Call}, c.calls[i]? = some one → Turn i one e one' →
      (c.update i one').calls[k]? = some call' →
      c.calls[k]? = some call' ∨ (c.calls[k]? = none ∧ ∃ arguments, e = .start arguments ∧
        call' = ⟨arguments, none, .pending, .get_queue⟩) ∨
      ∃ call, c.calls[k]? = some call ∧ Turn k call e call' := by
    intro i one one' hone hturn hk
    rcases getElem?_update hk with ⟨rfl, rfl⟩ | ⟨_, hk⟩
    · exact .inr (.inr ⟨one, hone, hturn⟩)
    · exact .inl hk
  cases moves_of_step hs with
  | start arguments =>
    rcases getElem?_snoc hcall with hcall | ⟨hle, rfl⟩
    · exact .inl hcall
    · exact .inr (.inl ⟨List.getElem?_eq_none hle, arguments, rfl, rfl⟩)
  | on_response message =>
    rcases on_response_cases h message with ⟨_, heq⟩ | ⟨id, hm, ⟨_, heq⟩ |
      ⟨i, one, hone, hid, _, ⟨hp, heq⟩ | ⟨_, heq⟩⟩⟩
    · rw [heq] at hcall
      exact .inl hcall
    · rw [heq] at hcall
      exact .inl hcall
    · rw [heq] at hcall
      refine hupdate hone (.answered hid hm hp) ?_
      simpa only [RPCClient.update, calls_pop] using hcall
    · rw [heq, calls_pop] at hcall
      exact .inl hcall
  | registers hone hstage hnew =>
    have hnone := (h.calls _ (List.mem_of_getElem? hone)).nameless hstage
    exact hupdate hone (.registers hstage hnone) hcall
  | overloaded hone hstage hn => exact hupdate hone (.overloaded hstage) hcall
  | queue_raises hone hstage => exact hupdate hone (.queue_raises hstage) hcall
  | published hone hstage hm => exact hupdate hone (.published hstage) hcall
  | publish_raises hone hstage => exact hupdate hone (.publish_raises hstage) hcall
  | resume hone hstage hdone => exact hupdate hone (.resume hstage hdone) hcall
  | timer hone hstage => exact hupdate hone (.timer hstage) hcall
  | timeout hone hstage =>
    refine hupdate hone (.timeout hstage) ?_
    simpa only [RPCClient.update, calls_pop] using hcall
  | cancel_wait hone hstage => exact hupdate hone (.cancel_wait hstage) hcall
  | cancel hone hstage => exact hupdate hone (.cancel hstage) hcall

theorem length_step (h : Sound c) {e : Event} (hs : c.step e = some c') :
    c'.calls.length = c.calls.length ∨
      ((∃ arguments, e = .start arguments) ∧ c'.calls.length = c.calls.length + 1) := by
  cases moves_of_step hs with
  | start arguments => exact .inr ⟨⟨arguments, rfl⟩, by simp⟩
  | on_response message =>
    left
    rcases on_response_cases h message with ⟨_, heq⟩ | ⟨id, hm, ⟨_, heq⟩ |
      ⟨i, one, hone, hid, _, ⟨hp, heq⟩ | ⟨_, heq⟩⟩⟩ <;> simp [heq, RPCClient.update]
  | _ => exact .inl (by simp [RPCClient.update])

/-- A call before a step is there after it, untouched or touched. -/
theorem turn_to_step (h : Sound c) {e : Event} (hs : c.step e = some c') {k : Nat} {call : Call}
    (hcall : c.calls[k]? = some call) :
    ∃ call', c'.calls[k]? = some call' ∧ (call' = call ∨ Turn k call e call') := by
  have hlt := (List.getElem?_eq_some_iff.mp hcall).1
  have hlen : k < c'.calls.length := by
    rcases length_step h hs with heq | ⟨_, heq⟩ <;> omega
  refine ⟨_, List.getElem?_eq_getElem hlen, ?_⟩
  rcases turn_of_step h hs (List.getElem?_eq_getElem hlen) with hsame | ⟨hnone, _⟩ |
    ⟨one, hone, hturn⟩
  · rw [hcall] at hsame
    exact .inl (Option.some.inj hsame).symm
  · rw [hcall] at hnone
    cases hnone
  · rw [hcall] at hone
    cases hone
    exact .inr hturn

/-- A call goes on as the same one: with its arguments, with its id once it has one, and with
its end once it has ended. -/
structure SameCall (call call' : Call) : Prop where
  arguments : call'.arguments = call.arguments
  id : ∀ id, call.correlation_id = some id → call'.correlation_id = some id
  ended : ∀ ending, call.stage = .ended ending → call'.stage = .ended ending

theorem SameCall.refl (call : Call) : SameCall call call :=
  ⟨rfl, fun _ h => h, fun _ h => h⟩

theorem SameCall.trans {call call' call'' : Call} (h : SameCall call call')
    (h' : SameCall call' call'') : SameCall call call'' :=
  ⟨h'.arguments.trans h.arguments, fun id hid => h'.id id (h.id id hid),
    fun ending he => h'.ended ending (h.ended ending he)⟩

theorem cancel_future_arguments (call : Call) :
    call.cancel_future.arguments = call.arguments := by
  unfold Call.cancel_future
  split <;> rfl

theorem Turn.sameCall {k : Nat} {call call' : Call} {e : Event} (h : Turn k call e call') :
    SameCall call call' := by
  have hcancelled : call.cancel_future.correlation_id = call.correlation_id :=
    (cancel_future_keeps call).1
  -- each of the others takes the call from a stage that is no end
  cases h with
  | registers hstage hnone => exact ⟨rfl, by simp [hnone], by simp [hstage]⟩
  | answered hid hm hp => exact ⟨rfl, fun _ h => h, fun _ h => h⟩
  | timer hstage =>
    exact ⟨cancel_future_arguments call, fun id hid => hcancelled.trans hid, by simp [hstage]⟩
  | cancel_wait hstage =>
    exact ⟨cancel_future_arguments call, fun id hid => hcancelled.trans hid, by simp [hstage]⟩
  | cancel hstage => exact ⟨rfl, fun _ h => h, fun ending he => absurd he (hstage ending)⟩
  | overloaded hstage => exact ⟨rfl, fun _ h => h, by simp [hstage]⟩
  | queue_raises hstage => exact ⟨rfl, fun _ h => h, by simp [hstage]⟩
  | published hstage => exact ⟨rfl, fun _ h => h, by simp [hstage]⟩
  | publish_raises hstage => exact ⟨rfl, fun _ h => h, by simp [hstage]⟩
  | resume hstage hdone => exact ⟨rfl, fun _ h => h, by simp [hstage]⟩
  | timeout hstage => exact ⟨rfl, fun _ h => h, by simp [hstage]⟩

/-- Every call is there after a step, as the same one. -/
theorem sameCall_step (h : Sound c) {e : Event} (hs : c.step e = some c') {k : Nat} {call : Call}
    (hcall : c.calls[k]? = some call) :
    ∃ call', c'.calls[k]? = some call' ∧ SameCall call call' := by
  obtain ⟨call', hcall', rfl | hturn⟩ := turn_to_step h hs hcall
  · exact ⟨call', hcall', .refl call'⟩
  · exact ⟨call', hcall', hturn.sameCall⟩

/-- A result that a call has after its turn it had before, or the turn is that of the
response. -/
theorem Turn.done {k : Nat} {call call' : Call} {e : Event} {message : Response}
    (h : Turn k call e call') (hdone : call'.future = .done message) :
    call.future = .done message ∨
      (e = .on_response message ∧ call.future = .pending ∧
        ∃ id, call.correlation_id = some id ∧ message.correlation_id = some id) := by
  have hcancelled : call.cancel_future.future = .done message → call.future = .done message := by
    intro hf
    rcases (cancel_future_keeps call).2.2 with heq | heq
    · exact heq ▸ hf
    · rw [hf] at heq
      cases heq
  cases h with
  | registers hstage hnone => cases hdone
  | answered hid hm hp =>
    cases hdone
    exact .inr ⟨rfl, hp, _, hid, hm⟩
  | timer hstage => exact .inl (hcancelled hdone)
  | cancel_wait hstage => exact .inl (hcancelled hdone)
  | _ => exact .inl hdone

/-- A call with an id keeps its result. -/
theorem Turn.keeps_done {k : Nat} {call call' : Call} {e : Event} {message : Response}
    {id : String} (h : Turn k call e call') (hid : call.correlation_id = some id)
    (hdone : call.future = .done message) : call'.future = .done message := by
  have hcancelled : call.cancel_future.future = .done message := by
    simp [Call.cancel_future, hdone]
  cases h with
  | registers hstage hnone =>
    rw [hnone] at hid
    cases hid
  | answered hid' hm hp =>
    rw [hdone] at hp
    cases hp
  | timer hstage => exact hcancelled
  | cancel_wait hstage => exact hcancelled
  | _ => exact hdone

/-- A result was there before the step, or comes with it. -/
theorem done_step (h : Sound c) {e : Event} (hs : c.step e = some c') {k : Nat} {call' : Call}
    {message : Response} (hcall : c'.calls[k]? = some call')
    (hdone : call'.future = .done message) :
    (∃ call, c.calls[k]? = some call ∧ call.future = .done message) ∨ e = .on_response message := by
  rcases turn_of_step h hs hcall with hsame | ⟨_, arguments, _, rfl⟩ | ⟨call, hcall, hturn⟩
  · exact .inl ⟨call', hsame, hdone⟩
  · cases hdone
  · rcases hturn.done hdone with hd | ⟨he, _⟩
    · exact .inl ⟨call, hcall, hd⟩
    · exact .inr he

end aristote_dispatcher.rpc_client
