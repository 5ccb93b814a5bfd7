-- The broker with a clock: when each message came to its queue, how long the queue
-- keeps it (`x-message-ttl`, consumer/rpc_server.py: `first_connect`), and when the
-- call of a request gives up (sender/rpc_client.py: `MESSAGE_TIMEOUT`).
import AristoteDispatcher.Copies
import AristoteDispatcher.Queues

open runs
open json (Json PyStr)
open aristote_dispatcher.settings aristote_dispatcher.messages aristote_dispatcher.queues

namespace aristote_dispatcher.broker

open aristote_dispatcher.rpc_server

/-- The `x-message-ttl` of the declared queue with that name. -/
def x_message_ttl (cfg : Settings) (q : QueueSettings) (name : String) : Option Nat :=
  ((first_connect cfg q).find? fun s => s.queue.name = name).bind (·.queue.x_message_ttl)

/-- A system and its clock, in milliseconds. What happened stands with its time. -/
structure Clocked where
  system : System
  now : Nat
  /-- When each message came to its queue. A delivery that goes back keeps its time. -/
  arrivals : List (Message × Nat)
  /-- The requests that were published, delivered, and given a slot, and the calls that
  returned TIMEOUT. -/
  called : List (String × Nat)
  delivered : List (String × Nat)
  granted : List (String × Nat)
  timed_out : List (String × Nat)

def Clocked.create (cfg : Settings) : Clocked := ⟨.create cfg, 0, [], [], [], [], []⟩

/-- Time passes, the system goes on, or a call returns TIMEOUT. -/
inductive ClockedEvent
  | tick (n : Nat)
  | system (e : SystemEvent)
  | timeout (id : String)

variable (cfg : Settings) (q : QueueSettings)

/-- The time to live of the message is not over. A queue without the argument has none. -/
def Clocked.lives (c : Clocked) (m : Message) : Bool :=
  match x_message_ttl cfg q m.routing_key with
  | none => true
  | some ttl => c.arrivals.any fun a => a.1 = m && c.now ≤ a.2 + ttl

/-- The time to live of the message is over. -/
def Clocked.isOver (c : Clocked) (m : Message) : Bool :=
  match x_message_ttl cfg q m.routing_key with
  | none => false
  | some ttl => c.arrivals.all fun a => a.1 ≠ m || a.2 + ttl ≤ c.now

/-- The broker delivers what lives, and drops what does not. -/
def Clocked.allows (c : Clocked) : SystemEvent → Bool
  | .consumer (.deliver _ message _) => c.lives cfg q message
  | .expire i => c.system.ready[i]?.all (c.isOver cfg q)
  | _ => true

/-- The messages that an event puts into queues. -/
def System.arrives (b : System) : SystemEvent → List Message
  | .call priority organization routing_mode correlation_id reply_to =>
    [call_message priority cfg.MODEL organization routing_mode correlation_id reply_to]
  | .consumer e => (b.consumer.operations e).filterMap Operation.copy?
  | _ => []

def SystemEvent.delivers? : SystemEvent → Option String
  | .consumer (.deliver _ message _) => some message.id
  | _ => none

/-- The id that an event adds to the set of a server. -/
def System.grants? (b : System) : SystemEvent → Option String
  | .consumer (.resume i) => b.consumer.callbacks[i]?.bind fun c =>
    c.vllm_server.map fun _ => c.message.id
  | _ => none

def Clocked.after (c : Clocked) (e : SystemEvent) (system : System) : Clocked :=
  { c with
    system := system
    arrivals := c.arrivals ++ (c.system.arrives cfg e).map (·, c.now)
    called := c.called ++ (e.call?.map (·, c.now)).toList
    delivered := c.delivered ++ (e.delivers?.map (·, c.now)).toList
    granted := c.granted ++ ((c.system.grants? e).map (·, c.now)).toList }

/-- The timer of a call starts at the confirm of its publish, when the broker has the message.
`MESSAGE_TIMEOUT` is in seconds. -/
def Clocked.step (repr : Json → PyStr) (MESSAGE_TIMEOUT : Nat) (c : Clocked) :
    ClockedEvent → Option Clocked
  | .tick n => some { c with now := c.now + n }
  | .system e =>
    if c.allows cfg q e then (c.system.step cfg repr e).map (c.after cfg e) else none
  | .timeout id =>
    if c.called.any fun r => r.1 = id && r.2 + 1000 * MESSAGE_TIMEOUT < c.now then
      some { c with timed_out := c.timed_out ++ [(id, c.now)] }
    else none

variable {cfg q}

/-! ## The queues of requests -/

theorem x_message_ttl_main : x_message_ttl cfg q cfg.MODEL = some q.RPC_MESSAGE_EXPIRATION := by
  simp [x_message_ttl, first_connect, main_queue]

/-- A private queue keeps its messages. -/
theorem x_message_ttl_private (organization : String) :
    x_message_ttl cfg q (private_queue cfg.MODEL organization) = none := by
  unfold x_message_ttl
  rw [Option.bind_eq_none_iff]
  intro s hs
  have hmem := List.mem_of_find?_eq_some hs
  have hname := List.find?_some hs
  simp only [first_connect, List.cons_append, List.nil_append, List.mem_cons, List.mem_map] at hmem
  rcases hmem with rfl | rfl | ⟨server, _, rfl⟩
  · exact absurd (of_decide_eq_true hname).symm (private_queue_ne _ _)
  · rfl
  · rfl

end aristote_dispatcher.broker
