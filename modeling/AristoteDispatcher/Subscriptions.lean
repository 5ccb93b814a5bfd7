-- The subscriptions of a consumer over losses of its connection. The robust
-- connection restores the channels that were opened on it with their consumers,
-- and then runs `reconnect_callback`, which opens one more.
import AristoteDispatcher.Lib.Runs
import AristoteDispatcher.Queues
import AristoteDispatcher.ParallelLimit

open runs
open aristote_dispatcher.settings aristote_dispatcher.messages

namespace aristote_dispatcher.queues

open aristote_dispatcher.rpc_server (roundRobinSettings)

/-- A robust connection, with the consumers of each channel and the places of those that have
an unsettled delivery. -/
structure Connection where
  channels : List (List Subscribed)
  is_open : Bool
  unsettled : List Nat
  deriving DecidableEq

/-- After `first_connect`. -/
def Connection.create (cfg : Settings) (q : QueueSettings) : Connection :=
  ⟨[first_connect cfg q], true, []⟩

/-- The subscriptions that the broker delivers to. -/
def Connection.active (c : Connection) : List Subscribed :=
  if c.is_open then c.channels.flatten else []

inductive ConnectionEvent
  | lost
  | reconnect
  | deliver (place : Nat)
  | settle (place : Nat)
  deriving DecidableEq, Repr

def Connection.step (cfg : Settings) (q : QueueSettings) (c : Connection) :
    ConnectionEvent → Option Connection
  | .lost => if c.is_open then some { c with is_open := false, unsettled := [] } else none
  | .reconnect =>
    if c.is_open then none
    else some { c with is_open := true, channels := c.channels ++ [reconnect_callback cfg q] }
  | .deliver place =>
    -- `prefetch_count=1` of each channel holds for each of its consumers
    if place < c.active.length ∧ place ∉ c.unsettled then
      some { c with unsettled := c.unsettled ++ [place] }
    else none
  | .settle place =>
    if place ∈ c.unsettled then some { c with unsettled := c.unsettled.erase place } else none

/-- How many unsettled deliveries of a queue there are. -/
def Connection.unsettledOf (c : Connection) (name : String) : Nat :=
  c.unsettled.countP fun place => c.active[place]?.map (·.queue.name) = some name

variable {cfg : Settings} {q : QueueSettings} {c c' : Connection} {es : List ConnectionEvent}

/-! ## The names that are subscribed -/

end aristote_dispatcher.queues
