-- The queues that a consumer declares and consumes (consumer/rpc_server.py:
-- `first_connect`, `reconnect_callback`), and which of their names can be equal.
import AristoteDispatcher.Messages

open aristote_dispatcher.settings aristote_dispatcher.messages

namespace aristote_dispatcher.queues

/-- The settings of the queues, in milliseconds. -/
structure QueueSettings where
  RPC_QUEUE_EXPIRATION : Nat
  RPC_MESSAGE_EXPIRATION : Nat
  RPC_MAX_PRIORITY : Nat
  deriving DecidableEq, Repr

/-- A durable queue, with the arguments of its declaration. -/
structure Queue where
  name : String
  x_expires : Nat
  x_message_ttl : Option Nat
  x_max_priority : Option Nat
  deriving DecidableEq, Repr

inductive Handler
  | on_message_callback
  | on_completion_callback
  | server_specific_callback
  deriving DecidableEq, Repr

/-- `queue.consume(callback)`. -/
structure Subscribed where
  queue : Queue
  callback : Handler
  deriving DecidableEq, Repr

def main_queue (cfg : Settings) (q : QueueSettings) : Queue :=
  ⟨cfg.MODEL, q.RPC_QUEUE_EXPIRATION, some q.RPC_MESSAGE_EXPIRATION, some q.RPC_MAX_PRIORITY⟩

def completion_queue (cfg : Settings) (q : QueueSettings) : Queue :=
  ⟨completed_queue cfg.MODEL, q.RPC_QUEUE_EXPIRATION, none, none⟩

def server_queue (cfg : Settings) (q : QueueSettings) (server : VLLMServer) : Queue :=
  ⟨private_queue cfg.MODEL server.organization, q.RPC_QUEUE_EXPIRATION, none, none⟩

/-- What `first_connect` consumes on its channel. -/
def first_connect (cfg : Settings) (q : QueueSettings) : List Subscribed :=
  [⟨main_queue cfg q, .on_message_callback⟩, ⟨completion_queue cfg q, .on_completion_callback⟩] ++
    cfg.VLLM_SERVERS.map fun server => ⟨server_queue cfg q server, .server_specific_callback⟩

/-- What `reconnect_callback` consumes on a new channel. -/
def reconnect_callback (cfg : Settings) (q : QueueSettings) : List Subscribed :=
  [⟨main_queue cfg q, .on_message_callback⟩]

/-- The names of the queues of a consumer. -/
def queue_names (cfg : Settings) : List String :=
  [cfg.MODEL, completed_queue cfg.MODEL] ++
    cfg.VLLM_SERVERS.map fun server => private_queue cfg.MODEL server.organization

theorem mem_queue_names {cfg : Settings} {name : String} : name ∈ queue_names cfg ↔
    name = cfg.MODEL ∨ name = completed_queue cfg.MODEL ∨
      ∃ server ∈ cfg.VLLM_SERVERS, private_queue cfg.MODEL server.organization = name := by
  simp [queue_names]

/-! ## Equal names -/

theorem completed_queue_inj {model model' : String}
    (h : completed_queue model = completed_queue model') : model = model' := by
  simpa [completed_queue, String.append_left_inj] using h

/-- The names of private queues end otherwise. -/
theorem completed_queue_ne_private (model model' organization : String) :
    completed_queue model ≠ private_queue model' organization := by
  intro h
  have hassoc : private_queue model' organization =
      (model' ++ ("_" ++ organization)) ++ "_private" := by
    simp [private_queue, String.append_assoc]
  have hlast := congrArg (fun s : String => s.toList.getLast?) (h.trans hassoc)
  simp only [completed_queue, String.toList_append, List.getLast?_append] at hlast
  exact absurd hlast (by simp)

/-- The default arguments of the queues. -/
def defaultQueues : QueueSettings := ⟨30000, 570000, 5⟩

end aristote_dispatcher.queues
