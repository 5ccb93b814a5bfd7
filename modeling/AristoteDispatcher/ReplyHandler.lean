-- When the handler of responses raises. A response finds its call while the
-- future waits; once the timer or a cancellation took the future, or a first
-- response did, the next one raises, a KeyError or an InvalidStateError.
import AristoteDispatcher.Lib.Logged
import AristoteDispatcher.ClientInvariant

open pydict runs
open aristote_dispatcher.messages

namespace aristote_dispatcher.rpc_client

variable {c c' : RPCClient}

/-- What `on_response` raises in an event. A `set_result` on a future that is done or
cancelled is an InvalidStateError. -/
def RPCClient.errors (c : RPCClient) : Event → List ResponseError
  | .on_response message =>
    match (c.on_response message).2 with
    | .ok () => []
    | .error e => [e]
  | _ => []

/-- A response with an id comes to a call whose future waits: no response came before, and
neither the timer nor a cancellation took it. -/
def Awaited (c : RPCClient) : Event → Prop
  | .on_response message => ∀ id, message.correlation_id = some id →
      ∃ call ∈ c.calls, call.correlation_id = some id ∧ call.future = .pending
  | _ => True

theorem errors_eq_nil_iff (h : Sound c) (e : Event) : c.errors e = [] ↔ Awaited c e := by
  cases e with
  | on_response message =>
    rcases on_response_cases h message with ⟨hm, heq⟩ | ⟨id, hm, ⟨hno, heq⟩ |
      ⟨i, call, hcall, hid, _, ⟨hp, heq⟩ | ⟨hp, heq⟩⟩⟩
    · refine iff_of_true (by simp [RPCClient.errors, heq]) ?_
      intro id hid
      rw [hm] at hid
      cases hid
    · refine iff_of_false (by simp [RPCClient.errors, heq]) ?_
      intro hall
      obtain ⟨call, hmem, hid, hp⟩ := hall id hm
      obtain ⟨i, hi⟩ := List.mem_iff_getElem?.mp hmem
      exact hno (Dict.mem_of_lookup (h.waiting i call hi hp id hid))
    · refine iff_of_true (by simp [RPCClient.errors, heq]) ?_
      intro id' hid'
      rw [hm] at hid'
      cases hid'
      exact ⟨call, List.mem_of_getElem? hcall, hid, hp⟩
    · refine iff_of_false (by simp [RPCClient.errors, heq]) ?_
      intro hall
      obtain ⟨other, hmem, hid', hp'⟩ := hall id hm
      obtain ⟨j, hj⟩ := List.mem_iff_getElem?.mp hmem
      obtain rfl := h.distinct i j call other hcall hj id hid hid'
      rw [hcall] at hj
      cases hj
      rw [hp] at hp'
      cases hp'
  | _ => exact iff_of_true rfl trivial

/-- A future that is done or cancelled stays as it is, whatever response comes. -/
theorem on_response_leaves (h : Sound c) (message : Response) {i : Nat} {call : Call}
    (hcall : c.calls[i]? = some call) (hf : call.future ≠ .pending) :
    (c.on_response message).1.calls[i]? = some call := by
  rcases on_response_cases h message with ⟨_, heq⟩ | ⟨id, _, ⟨_, heq⟩ |
    ⟨j, other, hother, _, _, ⟨hp, heq⟩ | ⟨_, heq⟩⟩⟩
  · rwa [heq]
  · rwa [heq]
  · have hij : j ≠ i := by
      rintro rfl
      rw [hcall] at hother
      cases hother
      exact hf hp
    rw [heq, RPCClient.update, List.getElem?_set_ne hij, calls_pop, hcall]
  · rwa [heq, calls_pop]

/-! ## The law -/

/-- In every run, the handler raised nothing exactly if each response with an id came to a
call whose future waits. And no response changes a future that is done or cancelled. -/
theorem the_handler_raises_nothing_iff_futures_wait (callback_queue : String) {es : List Event}
    {l : Logged RPCClient ResponseError}
    (h : Run (logged RPCClient.step RPCClient.errors) Any (.start (.create callback_queue)) es l) :
    (l.log = [] ↔ Run (logged RPCClient.step RPCClient.errors) (fun l e => Awaited l.state e)
      (.start (.create callback_queue)) es l) ∧
    ∀ (message : Response) (i : Nat) (call : Call), l.state.calls[i]? = some call →
      call.future ≠ .pending → (l.state.on_response message).1.calls[i]? = some call := by
  refine ⟨?_, fun message i call hcall hf =>
    on_response_leaves (sound_run h.state_of_logged) message hcall hf⟩
  rw [h.log_eq_nil_iff]
  constructor
  · exact fun hrun => hrun.weaken_reached fun _ _ e _ hr _ hnil =>
      (errors_eq_nil_iff (sound_run hr.state_of_logged) e).mp hnil
  · exact fun hrun => hrun.weaken_reached fun _ _ e _ hr _ hok =>
      (errors_eq_nil_iff (sound_run hr.state_of_logged) e).mpr hok

/-- A call that is answered in time. -/
def answeredInTime : List Event :=
  [.start ⟨0, 10, "model", "org", "any"⟩, .queue_found 0 0 "1", .published 0,
    .on_response ⟨some "1", "{}".toUTF8⟩, .resume 0]

/-- A call that is not answered before its timer. -/
def answeredLate : List Event :=
  [.start ⟨0, 10, "model", "org", "any"⟩, .queue_found 0 0 "1", .published 0, .timer 0,
    .timeout 0, .on_response ⟨some "1", "{}".toUTF8⟩]

theorem the_handler_takes_an_answer_in_time : ∃ l : Logged RPCClient ResponseError,
    Run (logged RPCClient.step RPCClient.errors) Any (.start (.create "reply")) answeredInTime l ∧
    (l.log = [] ↔ Run (logged RPCClient.step RPCClient.errors) (fun l e => Awaited l.state e)
      (.start (.create "reply")) answeredInTime l) ∧
    ∀ (message : Response) (i : Nat) (call : Call), l.state.calls[i]? = some call →
      call.future ≠ .pending → (l.state.on_response message).1.calls[i]? = some call := by
  have hsome : (exec (logged RPCClient.step RPCClient.errors) (.start (.create "reply"))
      answeredInTime).isSome = true := by decide +kernel
  obtain ⟨l, hl⟩ := Option.isSome_iff_exists.mp hsome
  exact ⟨l, run_of_exec hl, the_handler_raises_nothing_iff_futures_wait "reply" (run_of_exec hl)⟩

/-- A response that comes after the TIMEOUT of its call is a KeyError. -/
theorem a_late_response_raises :
    ¬∀ (callback_queue : String) (es : List Event) (l : Logged RPCClient ResponseError),
      Run (logged RPCClient.step RPCClient.errors) Any (.start (.create callback_queue)) es l →
      l.log = [] := by
  intro hall
  have hexec : ((exec (logged RPCClient.step RPCClient.errors) (.start (.create "reply"))
      answeredLate).map fun l => l.log) = some [.KeyError] := by decide +kernel
  obtain ⟨l, hl, hlog⟩ := Option.map_eq_some_iff.mp hexec
  rw [hall "reply" _ l (run_of_exec hl)] at hlog
  cases hlog

end aristote_dispatcher.rpc_client
