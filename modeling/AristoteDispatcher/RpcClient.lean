-- `RPCClient` of the sender (sender/rpc_client.py): its calls, cut at their
-- awaits, and the responses that come in beside them. A call leaves an entry in
-- `futures` before it publishes.
import AristoteDispatcher.Lib.PyDict
import AristoteDispatcher.Messages

open pydict
open aristote_dispatcher.messages

namespace aristote_dispatcher.rpc_client

/-- The arguments of `call`. -/
structure Arguments where
  priority : Int
  threshold : Int
  model : String
  organization : String
  routing_mode : String
  deriving DecidableEq, Repr

/-- A message that comes to the callback queue. -/
structure Response where
  correlation_id : Option String
  body : ByteArray
  deriving DecidableEq

inductive FutureState
  | pending
  | done (message : Response)
  | cancelled
  deriving DecidableEq

/-- How a call ends. -/
inductive Ending
  | response (message : Response)
  | QUEUE_OVERLOADED
  | TIMEOUT
  | raised
  | cancelled
  deriving DecidableEq

/-- The await at which a call stands. After the timer of `wait_for` the call has not run yet,
and comes to its `except` later. -/
inductive Stage
  | get_queue
  | publish
  | wait_for
  | timed_out
  | ended (ending : Ending)
  deriving DecidableEq

structure Call where
  arguments : Arguments
  correlation_id : Option String
  future : FutureState
  stage : Stage
  deriving DecidableEq

/-- What `on_response` can raise. -/
inductive ResponseError
  | KeyError
  | InvalidStateError
  deriving DecidableEq, Repr

/-- `future.set_result(message)`. It raises on a future that is done or cancelled. -/
def Call.set_result (call : Call) (message : Response) : Except ResponseError Call :=
  match call.future with
  | .pending => .ok { call with future := .done message }
  | _ => .error .InvalidStateError

/-- The future of an await that ends without it. -/
def Call.cancel_future (call : Call) : Call :=
  if call.future = .pending then { call with future := .cancelled } else call

/-- The priority on the wire, if the encoder takes it. -/
def octet (priority : Int) : Option UInt8 :=
  if 0 ≤ priority ∧ priority < 256 then some (UInt8.ofNat priority.toNat) else none

/-- What the call publishes. -/
def Call.message? (call : Call) (callback_queue : String) : Option Message :=
  (octet call.arguments.priority).bind fun priority =>
    call.correlation_id.map fun id =>
      call_message priority call.arguments.model call.arguments.organization
        call.arguments.routing_mode id callback_queue

structure RPCClient where
  callback_queue : String
  /-- The future of an id is that of the call at this place. -/
  futures : Dict String Nat
  calls : List Call
  /-- The messages whose publish was confirmed. -/
  sent : List Message

def RPCClient.create (callback_queue : String) : RPCClient := ⟨callback_queue, ∅, [], []⟩

/-- What happens to a client. The numbers are places in its list of calls. -/
inductive Event
  | start (arguments : Arguments)
  | queue_found (i : Nat) (message_count : Nat) (correlation_id : String)
  | queue_raises (i : Nat)
  | published (i : Nat)
  | publish_raises (i : Nat)
  | on_response (message : Response)
  | resume (i : Nat)
  | timer (i : Nat)
  | timeout (i : Nat)
  | cancel (i : Nat)
  deriving DecidableEq

/-- A call goes on. -/
def RPCClient.update (self : RPCClient) (i : Nat) (call : Call) : RPCClient :=
  { self with calls := self.calls.set i call }

/-- `self.futures.pop(correlation_id, None)`. -/
def RPCClient.pop (self : RPCClient) (correlation_id : Option String) : RPCClient :=
  match correlation_id with
  | none => self
  | some id => { self with futures := self.futures.erase id }

/-- `on_response`. A missing id is only logged, and one without an entry is a KeyError. -/
def RPCClient.on_response (self : RPCClient) (message : Response) :
    RPCClient × Except ResponseError Unit :=
  match message.correlation_id with
  | none => (self, .ok ())
  | some id =>
    match self.futures.lookup id with
    | none => (self, .error .KeyError)
    | some i =>
      match self.calls[i]?.map (Call.set_result · message) with
      | some (.ok call) => ((self.pop (some id)).update i call, .ok ())
      | _ => (self.pop (some id), .error .InvalidStateError)

/-- `call` after `get_queue`, up to its publish. -/
def RPCClient.queue_found (self : RPCClient) (i : Nat) (call : Call) (message_count : Nat)
    (correlation_id : String) : RPCClient :=
  if call.arguments.threshold < message_count then
    self.update i { call with stage := .ended .QUEUE_OVERLOADED }
  else
    { self.update i
        { call with correlation_id := some correlation_id, future := .pending, stage := .publish }
      with futures := self.futures.insert correlation_id i }

def RPCClient.step (self : RPCClient) : Event → Option RPCClient
  | .start arguments =>
    some { self with calls := self.calls ++ [⟨arguments, none, .pending, .get_queue⟩] }
  | .queue_found i message_count correlation_id => self.calls[i]?.bind fun call =>
    -- the ids of `uuid4` are new
    if call.stage = .get_queue ∧
        ∀ other ∈ self.calls, other.correlation_id ≠ some correlation_id then
      some (self.queue_found i call message_count correlation_id)
    else none
  | .queue_raises i => self.calls[i]?.bind fun call =>
    if call.stage = .get_queue then some (self.update i { call with stage := .ended .raised })
    else none
  | .published i => self.calls[i]?.bind fun call =>
    if call.stage = .publish then
      (call.message? self.callback_queue).map fun message =>
        { self.update i { call with stage := .wait_for } with sent := self.sent ++ [message] }
    else none
  | .publish_raises i => self.calls[i]?.bind fun call =>
    if call.stage = .publish then some (self.update i { call with stage := .ended .raised })
    else none
  | .on_response message => some (self.on_response message).1
  | .resume i => self.calls[i]?.bind fun call =>
    match call.stage, call.future with
    | .wait_for, .done message =>
      some (self.update i { call with stage := .ended (.response message) })
    | _, _ => none
  | .timer i => self.calls[i]?.bind fun call =>
    -- a result that the call did not take yet is lost
    if call.stage = .wait_for then
      some (self.update i { call.cancel_future with stage := .timed_out })
    else none
  | .timeout i => self.calls[i]?.bind fun call =>
    if call.stage = .timed_out then
      some ((self.pop call.correlation_id).update i { call with stage := .ended .TIMEOUT })
    else none
  | .cancel i => self.calls[i]?.bind fun call =>
    -- the call does not catch a cancellation
    match call.stage with
    | .ended _ => none
    | .wait_for => some (self.update i { call.cancel_future with stage := .ended .cancelled })
    | _ => some (self.update i { call with stage := .ended .cancelled })

end aristote_dispatcher.rpc_client
