-- The messages between sender and consumer: what `RPCClient.call` publishes
-- (sender/rpc_client.py), the copy that `requeue` makes
-- (quality_of_service_policy/utils.py), and the answer (common/message_data.py).
import AristoteDispatcher.Lib.JsonDumps
import AristoteDispatcher.Settings

open pyfloat json
open aristote_dispatcher.settings

namespace aristote_dispatcher.messages

/-- One way to compare bodies, whatever else is imported. -/
instance (priority := high) decidableEqBytes : DecidableEq ByteArray := ByteArray.instDecidableEq

structure Message where
  body : ByteArray
  headers : List (String × Int)
  content_type : Option String
  delivery_mode : Nat
  correlation_id : Option String
  reply_to : Option String
  /-- One octet on the wire. -/
  priority : Option UInt8
  routing_key : String
  deriving DecidableEq

/-- `str(message.correlation_id)`. -/
def Message.id (m : Message) : String := m.correlation_id.getD "None"

/-- `message.headers.get("x-requeue-count", 0)`. -/
def Message.requeue_count (m : Message) : Int := (m.headers.lookup "x-requeue-count").getD 0

/-- The answer to the sender. -/
structure MessageData where
  llm_url : Option String := none
  llm_token : Option String := none
  llm_organization : Option String := none
  strategy : String
  requeue_count : Int := 0
  max_parallel_requests : Int
  current_parallel_requests : Option Nat := none
  forwarded_priority : Option Int := none
  performance_score : Option PyFloat := none
  deriving DecidableEq

def private_queue (model organization : String) : String :=
  model ++ ("_" ++ (organization ++ "_private"))

/-- Where `send_completion_message` publishes. -/
def completed_queue (model : String) : String := model ++ "_completed"

/-- The payload of a call for a private queue. -/
def payload (routing_mode organization : String) : List (String × String) :=
  [("routing_mode", routing_mode), ("organization", organization)]

/-- What `RPCClient.call` publishes. -/
def call_message (priority : UInt8)
    (model organization routing_mode correlation_id reply_to : String) : Message where
  body := if routing_mode = "any" then "AVAILABLE?".toUTF8
    else (dumps (payload routing_mode organization)).toUTF8
  headers := [("x-requeue-count", 0)]
  content_type := none
  delivery_mode := 2
  correlation_id := some correlation_id
  reply_to := some reply_to
  priority := some priority
  routing_key := if routing_mode = "any" then model else private_queue model organization

/-- The arguments of a `requeue` task. The exchange is the default one, so a queue is its
name. -/
structure RequeueCall where
  message : Message
  queue : Option String
  delay : Option Nat
  deriving DecidableEq

/-- `headers[key] = value`. -/
def setHeader (headers : List (String × Int)) (key : String) (value : Int) :
    List (String × Int) :=
  if headers.any (·.1 = key) then headers.map fun h => if h.1 = key then (key, value) else h
  else headers ++ [(key, value)]

/-- The copy that `requeue` publishes. -/
def RequeueCall.new_msg (call : RequeueCall) : Message :=
  { call.message with
    headers := setHeader call.message.headers "x-requeue-count" (call.message.requeue_count + 1)
    delivery_mode := if call.message.delivery_mode = 0 then 2 else call.message.delivery_mode
    routing_key := call.queue.getD call.message.routing_key }

/-- The routing modes that the sender lets through. -/
def routing_modes : List String := ["any", "private-first", "private-only"]

/-- The messages that come to a queue of the model: those of calls, and the copies of them
that deferrals make, on the same queue or on the queue of the model. -/
inductive Published (model : String) : Message → Prop
  | call (priority : UInt8) (organization routing_mode correlation_id reply_to : String)
      (h : routing_mode ∈ routing_modes) :
      Published model
        (call_message priority model organization routing_mode correlation_id reply_to)
  | requeue (call : RequeueCall) (h : Published model call.message)
      (hq : call.queue = none ∨ call.queue = some model) : Published model call.new_msg

/-- The body that `send_completion_message` publishes after a proxied request. -/
def completion_message (message_id completed_at model user server : String) : ByteArray :=
  (dumps [("message_id", message_id), ("completed_at", completed_at), ("model", model),
    ("user", user), ("server", server)]).toUTF8

/-! ## What every such message has -/

theorem priority_of_published {model : String} {m : Message} (h : Published model m) :
    ∃ p, m.priority = some p := by
  induction h with
  | call p _ _ _ _ _ => exact ⟨p, rfl⟩
  | requeue call _ _ ih => exact ih

theorem private_queue_ne (model organization : String) :
    private_queue model organization ≠ model := by
  intro h
  have hlen := congrArg String.length h
  simp only [private_queue, String.length_append] at hlen
  have h1 : "_".length = 1 := rfl
  omega

theorem private_queue_inj {model o o' : String}
    (h : private_queue model o = private_queue model o') : o = o' := by
  unfold private_queue at h
  simpa [String.append_right_inj, String.append_left_inj] using h

/-- On a private queue there are only the calls for its organization, and their copies. -/
theorem body_of_private {model organization : String} {m : Message} (h : Published model m)
    (hk : m.routing_key = private_queue model organization) :
    ∃ routing_mode, (routing_mode = "private-first" ∨ routing_mode = "private-only") ∧
      m.body = (dumps (payload routing_mode organization)).toUTF8 := by
  induction h with
  | call p o mode _ _ hmode =>
    simp only [call_message] at hk ⊢
    by_cases hany : mode = "any"
    · rw [if_pos hany] at hk
      exact absurd hk.symm (private_queue_ne model organization)
    · rw [if_neg hany] at hk
      rw [private_queue_inj hk, if_neg hany]
      simp only [routing_modes, List.mem_cons, List.not_mem_nil, or_false] at hmode
      exact ⟨mode, hmode.resolve_left hany, rfl⟩
  | requeue call _ hq ih =>
    rcases hq with hq | hq
    · simp only [RequeueCall.new_msg, hq, Option.getD_none] at hk
      exact ih hk
    · simp only [RequeueCall.new_msg, hq, Option.getD_some] at hk
      exact absurd hk.symm (private_queue_ne model organization)

/-- A call is deferred as often as it was copied. -/
theorem requeue_count_new_msg (call : RequeueCall) :
    call.new_msg.requeue_count = call.message.requeue_count + 1 := by
  have hset : ∀ (headers : List (String × Int)) (v : Int),
      (setHeader headers "x-requeue-count" v).lookup "x-requeue-count" = some v := by
    intro headers v
    unfold setHeader
    split
    · rename_i hany
      induction headers with
      | nil => simp at hany
      | cons h hs ih =>
        by_cases hk : h.1 = "x-requeue-count"
        · simp [hk]
        · have hany' : hs.any (·.1 = "x-requeue-count") = true := by
            simpa [hk] using hany
          have hkb : ("x-requeue-count" == h.1) = false := by simpa using Ne.symm hk
          rw [List.map_cons, if_neg hk, List.lookup_cons, hkb]
          exact ih hany'
    · rename_i hany
      have hnone : headers.lookup "x-requeue-count" = none := by
        rw [List.lookup_eq_none_iff]
        intro h hh
        simp only [List.any_eq_true, decide_eq_true_eq, not_exists, not_and] at hany
        simpa using Ne.symm (hany h hh)
      rw [List.lookup_append, hnone]
      rfl
  unfold Message.requeue_count
  rw [RequeueCall.new_msg, hset]
  rfl

/-- A dict of strings comes back from the body that it is dumped to. -/
theorem loads_body (d : List (String × String)) (h : (d.map Prod.fst).Nodup) :
    (String.fromUTF8? (dumps d).toUTF8).bind loads = some (.obj (ofStrings d)) := by
  rw [fromUTF8?_toUTF8, Option.bind_some, loads_dumps d h]

/-- A call for any server. -/
def anyCall (correlation_id : String) : Message :=
  call_message 0 "model" "org" "any" correlation_id "reply"

/-- A call for the servers of one organization. -/
def privateCall (correlation_id : String) : Message :=
  call_message 0 "model" "org" "private-only" correlation_id "reply"

theorem published_anyCall (id : String) : Published "model" (anyCall id) :=
  .call 0 "org" "any" id "reply" (by decide)

theorem published_privateCall (id : String) : Published "model" (privateCall id) :=
  .call 0 "org" "private-only" id "reply" (by decide)

end aristote_dispatcher.messages
