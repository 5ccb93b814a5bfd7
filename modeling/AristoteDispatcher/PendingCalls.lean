-- The entries of `futures`: a call that ends leaves none, unless it ends by an
-- exception or a cancellation at its publish or its wait, before its reply.
import AristoteDispatcher.ClientInvariant

open pydict runs
open aristote_dispatcher.messages

namespace aristote_dispatcher.rpc_client

variable {c c' : RPCClient}

/-- The call has ended. -/
def Call.Ended (call : Call) : Prop := ∃ ending, call.stage = .ended ending

/-- No call that has ended has an entry. -/
def NoLeak (c : RPCClient) : Prop :=
  ∀ call ∈ c.calls, call.Ended → ∀ id, call.correlation_id = some id → id ∉ c.futures

theorem noLeak_create (callback_queue : String) : NoLeak (.create callback_queue) :=
  fun _ h => (by cases h)

/-! ## What keeps a client without leaks -/

/-- A call that goes on leaks nothing exactly if it has not ended or has no entry. -/
theorem noLeak_update_iff {i : Nat} {call call' : Call} (h : NoLeak c)
    (hi : c.calls[i]? = some call) : NoLeak (c.update i call') ↔
      (call'.Ended → ∀ id, call'.correlation_id = some id → id ∉ c.futures) := by
  constructor
  · exact fun hall => hall call' (mem_update_self hi)
  · intro hcall other hother
    rcases mem_update hother with hmem | rfl
    · exact h other hmem
    · exact hcall

theorem noLeak_pop (h : NoLeak c) (correlation_id : Option String) :
    NoLeak (c.pop correlation_id) := by
  intro call hcall hended id hid hmem
  rw [calls_pop] at hcall
  exact h call hcall hended id hid (mem_pop hmem)

theorem noLeak_start (h : NoLeak c) (arguments : Arguments) :
    NoLeak { c with calls := c.calls ++ [⟨arguments, none, .pending, .get_queue⟩] } := by
  intro call hcall hended
  rcases mem_start hcall with hmem | rfl
  · exact h call hmem hended
  · obtain ⟨ending, hending⟩ := hended
    cases hending

theorem noLeak_registers {i : Nat} {call : Call} {id : String} (h : NoLeak c)
    (hnew : ∀ other ∈ c.calls, other.correlation_id ≠ some id) :
    NoLeak { c.update i
        { call with correlation_id := some id, future := .pending, stage := .publish }
      with futures := c.futures.insert id i } := by
  intro other hother hended id' hid' hmem'
  have hmem'' : id' = id ∨ id' ∈ c.futures := (AList.mem_insert _).mp hmem'
  rcases mem_update hother with hmem | rfl
  · rcases hmem'' with rfl | hmem''
    · exact hnew other hmem hid'
    · exact h other hmem hended id' hid' hmem''
  · obtain ⟨ending, hending⟩ := hended
    cases hending

theorem noLeak_on_response (h : Sound c) (hn : NoLeak c) (message : Response) :
    NoLeak (c.on_response message).1 := by
  rcases on_response_cases h message with ⟨_, heq⟩ | ⟨id, hm, ⟨_, heq⟩ |
    ⟨i, call, hcall, hid, _, ⟨hp, heq⟩ | ⟨hp, heq⟩⟩⟩
  · rw [heq]
    exact hn
  · rw [heq]
    exact hn
  · rw [heq]
    refine (noLeak_update_iff (noLeak_pop hn _) (by rwa [calls_pop])).mpr ?_
    intro _ id' hid'
    rw [hid] at hid'
    cases hid'
    exact notMem_pop c id
  · rw [heq]
    exact noLeak_pop hn _

/-! ## The law -/

/-- The call has no id yet, or its reply came. Of a future that the timer has cancelled, a late
reply still takes the entry. -/
def Call.Replied (c : RPCClient) (call : Call) : Prop :=
  match call.future with
  | .pending => call.correlation_id = none
  | .done _ => True
  | .cancelled => ∀ id, call.correlation_id = some id → id ∉ c.futures

/-- A call that an exception or a cancellation ends has its reply before. -/
def RepliedFirst (c : RPCClient) : Event → Prop
  | .publish_raises i | .cancel i => ∀ call, c.calls[i]? = some call → call.Replied c
  | _ => True

/-- Such a call has no entry. -/
theorem replied_iff (h : Sound c) {i : Nat} {call : Call} (hcall : c.calls[i]? = some call) :
    call.Replied c ↔ ∀ id, call.correlation_id = some id → id ∉ c.futures := by
  unfold Call.Replied
  cases hfuture : call.future with
  | pending =>
    constructor
    · intro hnone id hid
      rw [hnone] at hid
      cases hid
    · intro hall
      cases hid : call.correlation_id with
      | none => rfl
      | some id =>
        have hlookup := h.waiting i call hcall hfuture id hid
        exact absurd (AList.lookup_isSome.mp (by simp [hlookup])) (hall id hid)
  | done message =>
    have htaken := h.taken call (List.mem_of_getElem? hcall) message hfuture
    exact ⟨fun _ => htaken, fun _ => trivial⟩
  | cancelled => exact Iff.rfl

/-- The id whose entry an event can change. -/
def RPCClient.idOf (c : RPCClient) : Event → Option String
  | .start _ => none
  | .queue_found _ _ correlation_id => some correlation_id
  | .on_response message => message.correlation_id
  | .queue_raises i | .published i | .publish_raises i | .resume i | .timer i | .timeout i
  | .cancel i => c.calls[i]?.bind Call.correlation_id

/-- A call that ends with no result of its own. -/
theorem noLeak_end_iff {i : Nat} {call call' : Call} (h : Sound c) (hn : NoLeak c)
    (hcall : c.calls[i]? = some call) (hid : call'.correlation_id = call.correlation_id)
    (hended : call'.Ended) : NoLeak (c.update i call') ↔
      ∀ call, c.calls[i]? = some call → call.Replied c := by
  rw [noLeak_update_iff hn hcall, hid]
  constructor
  · intro hall other hother
    rw [hcall] at hother
    cases hother
    exact (replied_iff h hcall).mpr (hall hended)
  · exact fun hall _ => (replied_iff h hcall).mp (hall call hcall)

/-- What one step does with the entries: it leaks nothing exactly under the condition. -/
theorem noLeak_step_iff {e : Event} (h : Sound c) (hn : NoLeak c) (hs : c.step e = some c') :
    NoLeak c' ↔ RepliedFirst c e := by
  cases moves_of_step hs with
  | start arguments => exact iff_of_true (noLeak_start hn arguments) trivial
  | registers hcall hstage hnew => exact iff_of_true (noLeak_registers hn hnew) trivial
  | on_response message => exact iff_of_true (noLeak_on_response h hn message) trivial
  | overloaded hcall hstage hover =>
    refine iff_of_true ((noLeak_update_iff hn hcall).mpr ?_) trivial
    intro _ id hid
    rw [(h.calls _ (List.mem_of_getElem? hcall)).nameless hstage] at hid
    cases hid
  | queue_raises hcall hstage =>
    refine iff_of_true ((noLeak_update_iff hn hcall).mpr ?_) trivial
    intro _ id hid
    rw [(h.calls _ (List.mem_of_getElem? hcall)).nameless hstage] at hid
    cases hid
  | published hcall hstage hm =>
    refine iff_of_true ?_ trivial
    refine (noLeak_update_iff hn hcall).mpr ?_
    rintro ⟨ending, hending⟩
    cases hending
  | publish_raises hcall hstage => exact noLeak_end_iff h hn hcall rfl ⟨_, rfl⟩
  | resume hcall hstage hdone =>
    have htaken := h.taken _ (List.mem_of_getElem? hcall) _ hdone
    exact iff_of_true ((noLeak_update_iff hn hcall).mpr fun _ => htaken) trivial
  | timer hcall hstage =>
    refine iff_of_true ((noLeak_update_iff hn hcall).mpr ?_) trivial
    rintro ⟨ending, hending⟩
    cases hending
  | timeout hcall hstage =>
    have hpop := hcall
    rw [← calls_pop c] at hpop
    refine iff_of_true ((noLeak_update_iff (noLeak_pop hn _) hpop).mpr ?_) trivial
    intro _ id hid
    rw [show _ = some id from hid]
    exact notMem_pop c id
  | cancel_wait hcall hstage =>
    exact noLeak_end_iff h hn hcall (cancel_future_keeps _).1 ⟨_, rfl⟩
  | cancel hcall hstage => exact noLeak_end_iff h hn hcall rfl ⟨_, rfl⟩

/-- A step leaves the entries of all ids but that of its call. -/
theorem lookup_step {e : Event} (h : Sound c) (hs : c.step e = some c') {id : String}
    (hne : c.idOf e ≠ some id) : c'.futures.lookup id = c.futures.lookup id := by
  cases moves_of_step hs with
  | registers hcall hstage hnew => exact AList.lookup_insert_ne fun heq => hne (heq ▸ rfl)
  | on_response message =>
    rcases on_response_cases h message with ⟨_, heq⟩ | ⟨id', hm, ⟨_, heq⟩ |
      ⟨i, call, _, _, _, ⟨_, heq⟩ | ⟨_, heq⟩⟩⟩
    · rw [heq]
    · rw [heq]
    · rw [heq]
      exact lookup_pop_of_ne (hm ▸ hne)
    · rw [heq]
      exact lookup_pop_of_ne (hm ▸ hne)
  | timeout hcall hstage =>
    rw [RPCClient.idOf, hcall, Option.bind_some] at hne
    exact lookup_pop_of_ne hne
  | _ => rfl

/-- No call that has ended has an entry, in every run in which the calls that an exception or
a cancellation ends have their replies. And a step of one call, or the end of it, leaves the
entries of all others. -/
theorem no_entry_is_left_when_the_reply_comes_first (callback_queue : String) {es : List Event}
    {c : RPCClient} (h : Run RPCClient.step RepliedFirst (.create callback_queue) es c) :
    NoLeak c ∧ ∀ e c', c.step e = some c' → (NoLeak c' ↔ RepliedFirst c e) ∧
      ∀ id, c.idOf e ≠ some id → c'.futures.lookup id = c.futures.lookup id := by
  have hinv : Sound c ∧ NoLeak c := by
    refine h.invariant (I := fun c => Sound c ∧ NoLeak c)
      ⟨sound_create callback_queue, noLeak_create callback_queue⟩ ?_
    intro c e c' ⟨hs, hn⟩ hok hstep
    exact ⟨sound_step hs hstep, (noLeak_step_iff hs hn hstep).mpr hok⟩
  refine ⟨hinv.2, fun e c' hstep => ⟨noLeak_step_iff hinv.1 hinv.2 hstep, ?_⟩⟩
  exact fun id hne => lookup_step hinv.1 hstep hne

/-- A call with a priority that the encoder refuses. -/
def belowZero : Arguments := ⟨-1, 10, "model", "org", "any"⟩

/-- A call up to its wait. -/
def waits (i : Nat) (id : String) : List Event :=
  [.start ⟨0, 10, "model", "org", "any"⟩, .queue_found i 0 id, .published i]

/-- The reply of the first call is there when it is cancelled, and the second one takes its own. -/
def answered : List Event :=
  waits 0 "1" ++ waits 1 "2" ++ [.on_response ⟨some "1", "{}".toUTF8⟩, .cancel 0,
    .on_response ⟨some "2", "{}".toUTF8⟩, .resume 1]

def FutureState.isDone : FutureState → Bool
  | .done _ => true
  | _ => false

/-- The events that find the reply of their call. -/
def isReplied (c : RPCClient) : Event → Bool
  | .publish_raises i | .cancel i => c.calls[i]?.all (·.future.isDone)
  | _ => true

theorem repliedFirst_of_isReplied {e : Event} (h : isReplied c e = true) : RepliedFirst c e := by
  have hreplied : ∀ i : Nat, c.calls[i]?.all (·.future.isDone) = true →
      ∀ call, c.calls[i]? = some call → call.Replied c := by
    intro i hall call hcall
    rw [hcall, Option.all_some] at hall
    unfold Call.Replied
    cases hfuture : call.future with
    | done message => trivial
    | _ => simp [hfuture, FutureState.isDone] at hall
  cases e with
  | publish_raises i => exact hreplied i h
  | cancel i => exact hreplied i h
  | _ => trivial

theorem no_entry_is_left_by_two_answered_calls : ∃ c,
    Run RPCClient.step RepliedFirst (.create "reply") answered c ∧
    NoLeak c ∧ ∀ e c', c.step e = some c' → (NoLeak c' ↔ RepliedFirst c e) ∧
      ∀ id, c.idOf e ≠ some id → c'.futures.lookup id = c.futures.lookup id := by
  have hsome : (exec (checked RPCClient.step fun c e => isReplied c e = true) (.create "reply")
      answered).isSome = true := by decide +kernel
  obtain ⟨c, hc⟩ := Option.isSome_iff_exists.mp hsome
  have hrun : Run RPCClient.step RepliedFirst (.create "reply") answered c :=
    (run_of_checked hc).weaken fun _ _ h => repliedFirst_of_isReplied h
  exact ⟨c, hrun, no_entry_is_left_when_the_reply_comes_first "reply" hrun⟩

/-- The publish raises, and the entry stays. -/
theorem a_refused_priority_leaks_its_entry :
    ¬∀ (callback_queue : String) (es : List Event) (c : RPCClient),
      Run RPCClient.step Any (.create callback_queue) es c → NoLeak c := by
  intro hall
  have hexec : ((exec RPCClient.step (.create "reply")
      [.start belowZero, .queue_found 0 0 "1", .publish_raises 0]).map fun c =>
        (c.calls, c.futures.keys)) =
      some ([⟨belowZero, some "1", .pending, .ended .raised⟩], ["1"]) := by decide +kernel
  obtain ⟨c, hc, hpair⟩ := Option.map_eq_some_iff.mp hexec
  obtain ⟨hcalls, hkeys⟩ := Prod.mk.inj hpair
  refine hall "reply" _ c (run_of_exec hc) ⟨belowZero, some "1", .pending, .ended .raised⟩
    (by simp [hcalls]) ⟨_, rfl⟩ "1" rfl ?_
  rw [AList.mem_keys, hkeys]
  exact List.mem_singleton.mpr rfl

end aristote_dispatcher.rpc_client
