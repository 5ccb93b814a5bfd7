-- The life of a consumer (consumer/main.py: `main_consumer`) with the task of its pinger
-- (consumer/server_pinger.py). Whatever the pings answer the pinger goes on up to the shutdown,
-- and the shutdown ends whenever it comes, with the pinger and the tracker stopped.
import AristoteDispatcher.Lib.Draining
import AristoteDispatcher.Fairness
import AristoteDispatcher.HealthyServers
import AristoteDispatcher.Selection

open runs
open aristote_dispatcher.settings aristote_dispatcher.metrics_tracker
open aristote_dispatcher.strategy
open aristote_dispatcher.rpc_server (servers)

namespace aristote_dispatcher.main_consumer

/-! ## The pinger -/

/-- Where the task of `_monitor_servers` stands. -/
inductive PingTask
  | starting
  | pinging
  | updating
  | sleeping
  deriving DecidableEq, Repr

structure ServerPinger where
  monitoring : Bool
  /-- The `_monitor_task`, while it has not ended. -/
  task : Option PingTask
  cancelled : Bool
  deriving DecidableEq, Repr

def ServerPinger.create : ServerPinger := ⟨false, none, false⟩

/-- The head of the loop `while self.monitoring`. -/
def ServerPinger.loop_head (self : ServerPinger) : ServerPinger :=
  { self with task := if self.monitoring then some .pinging else none }

def ServerPinger.monitor (self : ServerPinger) : ServerPinger :=
  if self.monitoring then self else ⟨true, some .starting, false⟩

/-- `stop_monitor` up to its `gather`. -/
def ServerPinger.stop_monitor (self : ServerPinger) : ServerPinger :=
  if self.monitoring then { self with monitoring := false, cancelled := true } else self

/-! ## The consumer -/

/-- Where `main_consumer` stands: at one of its awaits, or it is over. -/
inductive Main
  | wait_for_vllms
  | first_connect
  | shutdown_signal
  | close
  | stop_pinger
  | stop_tracker
  | returned
  | raised
  deriving DecidableEq, Repr

structure Consumer where
  main : Main
  shutdown_signal : Bool
  /-- The connection to RabbitMQ is open. -/
  connection : Bool
  pinger : ServerPinger
  strategy : Strategy
  /-- The servers that answered the last round of pings. -/
  healthy : Option (List VLLMServer)

def Consumer.create (cfg : Settings) : Consumer :=
  ⟨.wait_for_vllms, false, false, .create, .create cfg, none⟩

inductive PingerEvent
  | start
  | pinged (results : List Bool)
  | updated
  | wake
  | cancelled
  deriving DecidableEq, Repr

/-- What happens in a consumer: `main_consumer` goes on behind an await that ended well or not,
the connection is lost or comes back, the signal comes, the tasks of the pinger and the tracker go
on, and a request has a server chosen. -/
inductive Event
  | vllms (ready : Bool)
  | connected (ok : Bool)
  | connection (up : Bool)
  | shutdown
  | signalled
  | closed (ok : Bool)
  | pinger_ended
  | tracker_ended
  | pinger (e : PingerEvent)
  | tracker (e : TaskEvent)
  | choose_server (random : Nat)
  deriving DecidableEq, Repr

/-- The servers of an `update_servers` that waits for the tasks of the tracker. -/
def updating : Strategy → Option (List VLLMServer)
  | .round_robin _ => none
  | .least_busy s => s.updating

def monitor_tasks : Strategy → List MonitorTask
  | .round_robin _ => []
  | .least_busy s => s.tracker.monitor_tasks

/-- The end of `main_consumer`: only a strategy with metrics has a tracker to stop. -/
def Consumer.stop_tracker (c : Consumer) : Consumer :=
  match c.strategy with
  | .round_robin _ => { c with main := .returned }
  | .least_busy s => { c with
      main := if s.tracker.monitoring then .stop_tracker else .returned
      strategy := .least_busy { s with tracker := s.tracker.stop_monitor } }

/-- What comes behind `p_rpc_server.close()`. -/
def Consumer.stop_pinger (c : Consumer) : Consumer :=
  if c.pinger.monitoring then { c with main := .stop_pinger, pinger := c.pinger.stop_monitor }
  else c.stop_tracker

/-- The task of the pinger goes on from an await, if it was not told to end. -/
def Consumer.goOn (c : Consumer) (task : PingTask) (next : Option Consumer) : Option Consumer :=
  if c.pinger.task = some task ∧ c.pinger.cancelled = false then next else none

def Consumer.pingerStep (cfg : Settings) (c : Consumer) : PingerEvent → Option Consumer
  | .start => c.goOn .starting (some { c with pinger := c.pinger.loop_head })
  | .pinged results => c.goOn .pinging
    ((c.strategy.select cfg (.ping results)).map fun strategy => { c with
      strategy := strategy
      pinger :=
        { c.pinger with task := some (if (updating strategy).isSome then .updating else .sleeping) }
      healthy := some (healthy_servers cfg.VLLM_SERVERS results) })
  | .updated => c.goOn .updating
    (if monitor_tasks c.strategy = [] then
      (c.strategy.select cfg .tasks_ended).map fun strategy => { c with
        strategy := strategy
        pinger := { c.pinger with task := some .sleeping } }
    else none)
  | .wake => c.goOn .sleeping (some { c with pinger := c.pinger.loop_head })
  | .cancelled =>
    if c.pinger.task ≠ none ∧ c.pinger.cancelled = true then
      (c.strategy.select cfg .pinger_cancelled).map fun strategy => { c with
        strategy := strategy
        pinger := { c.pinger with task := none } }
    else none

def Consumer.step (cfg : Settings) (c : Consumer) : Event → Option Consumer
  | .vllms ready =>
    if c.main = .wait_for_vllms then
      some { c with main := if ready then .first_connect else .raised }
    else none
  | .connected ok =>
    if c.main = .first_connect then
      some (if ok then
          { c with main := .shutdown_signal, connection := true, pinger := c.pinger.monitor }
        else { c with main := .raised })
    else none
  | .connection up =>
    if c.main ≠ .wait_for_vllms ∧ c.main ≠ .first_connect then some { c with connection := up }
    else none
  | .shutdown => some { c with shutdown_signal := true }
  | .signalled =>
    if c.main = .shutdown_signal ∧ c.shutdown_signal = true then
      -- without a connection nothing is closed
      some (if c.connection then { c with main := .close } else c.stop_pinger)
    else none
  | .closed ok =>
    if c.main = .close then
      some (Consumer.stop_pinger { c with connection := c.connection && !ok })
    else none
  | .pinger_ended =>
    if c.main = .stop_pinger ∧ c.pinger.task = none then some c.stop_tracker else none
  | .tracker_ended =>
    if c.main = .stop_tracker ∧ monitor_tasks c.strategy = [] then
      some { c with main := .returned }
    else none
  | .pinger e => c.pingerStep cfg e
  | .tracker e =>
    (c.strategy.select cfg (.task e)).map fun strategy => { c with strategy := strategy }
  | .choose_server random =>
    if c.main ≠ .wait_for_vllms ∧ c.main ≠ .first_connect then
      (c.strategy.select cfg (.choose_server random)).map fun strategy =>
        { c with strategy := strategy }
    else none

/-! ## What a step can do -/

variable {cfg : Settings} {c c' : Consumer} {e : Event}

inductive Moves (cfg : Settings) (c : Consumer) : Event → Consumer → Prop
  | vllms {ready : Bool} (hmain : c.main = .wait_for_vllms) :
      Moves cfg c (.vllms ready) { c with main := if ready then .first_connect else .raised }
  | connected (hmain : c.main = .first_connect) :
      Moves cfg c (.connected true)
        { c with main := .shutdown_signal, connection := true, pinger := c.pinger.monitor }
  | refused (hmain : c.main = .first_connect) :
      Moves cfg c (.connected false) { c with main := .raised }
  | connection {up : Bool} : Moves cfg c (.connection up) { c with connection := up }
  | shutdown : Moves cfg c .shutdown { c with shutdown_signal := true }
  | closes (hmain : c.main = .shutdown_signal) : Moves cfg c .signalled { c with main := .close }
  | signalled (hmain : c.main = .shutdown_signal) : Moves cfg c .signalled c.stop_pinger
  | closed {ok : Bool} (hmain : c.main = .close) :
      Moves cfg c (.closed ok)
        (Consumer.stop_pinger { c with connection := c.connection && !ok })
  | pinger_ended (hmain : c.main = .stop_pinger) (htask : c.pinger.task = none) :
      Moves cfg c .pinger_ended c.stop_tracker
  | tracker_ended (hmain : c.main = .stop_tracker) :
      Moves cfg c .tracker_ended { c with main := .returned }
  | start (htask : c.pinger.task = some .starting) (hc : c.pinger.cancelled = false) :
      Moves cfg c (.pinger .start) { c with pinger := c.pinger.loop_head }
  | pinged {results : List Bool} {strategy : Strategy} (htask : c.pinger.task = some .pinging)
      (hc : c.pinger.cancelled = false)
      (hselect : c.strategy.select cfg (.ping results) = some strategy) :
      Moves cfg c (.pinger (.pinged results)) { c with
        strategy := strategy
        pinger := { c.pinger with
          task := some (if (updating strategy).isSome then .updating else .sleeping) }
        healthy := some (healthy_servers cfg.VLLM_SERVERS results) }
  | updated {strategy : Strategy} (htask : c.pinger.task = some .updating)
      (hc : c.pinger.cancelled = false)
      (hselect : c.strategy.select cfg .tasks_ended = some strategy) :
      Moves cfg c (.pinger .updated)
        { c with strategy := strategy, pinger := { c.pinger with task := some .sleeping } }
  | wake (htask : c.pinger.task = some .sleeping) (hc : c.pinger.cancelled = false) :
      Moves cfg c (.pinger .wake) { c with pinger := c.pinger.loop_head }
  | cancelled {strategy : Strategy} (htask : c.pinger.task ≠ none) (hc : c.pinger.cancelled = true)
      (hselect : c.strategy.select cfg .pinger_cancelled = some strategy) :
      Moves cfg c (.pinger .cancelled)
        { c with strategy := strategy, pinger := { c.pinger with task := none } }
  | tracker {e : TaskEvent} {strategy : Strategy}
      (hselect : c.strategy.select cfg (.task e) = some strategy) :
      Moves cfg c (.tracker e) { c with strategy := strategy }
  | choose_server {random : Nat} {strategy : Strategy}
      (hselect : c.strategy.select cfg (.choose_server random) = some strategy) :
      Moves cfg c (.choose_server random) { c with strategy := strategy }

theorem pinger_moves {e : PingerEvent} (h : c.pingerStep cfg e = some c') :
    Moves cfg c (.pinger e) c' := by
  cases e with
  | start =>
    obtain ⟨⟨htask, hc⟩, h⟩ := Option.ite_none_right_eq_some.mp h
    cases h
    exact .start htask hc
  | pinged results =>
    obtain ⟨⟨htask, hc⟩, h⟩ := Option.ite_none_right_eq_some.mp h
    obtain ⟨strategy, hs, rfl⟩ := Option.map_eq_some_iff.mp h
    exact .pinged htask hc hs
  | updated =>
    obtain ⟨⟨htask, hc⟩, h⟩ := Option.ite_none_right_eq_some.mp h
    obtain ⟨_, h⟩ := Option.ite_none_right_eq_some.mp h
    obtain ⟨strategy, hs, rfl⟩ := Option.map_eq_some_iff.mp h
    exact .updated htask hc hs
  | wake =>
    obtain ⟨⟨htask, hc⟩, h⟩ := Option.ite_none_right_eq_some.mp h
    cases h
    exact .wake htask hc
  | cancelled =>
    obtain ⟨⟨htask, hc⟩, h⟩ := Option.ite_none_right_eq_some.mp h
    obtain ⟨strategy, hs, rfl⟩ := Option.map_eq_some_iff.mp h
    exact .cancelled htask hc hs

theorem moves_of_step (h : c.step cfg e = some c') : Moves cfg c e c' := by
  cases e with
  | vllms ready =>
    obtain ⟨hmain, h⟩ := Option.ite_none_right_eq_some.mp h
    cases h
    exact .vllms hmain
  | connected ok =>
    obtain ⟨hmain, h⟩ := Option.ite_none_right_eq_some.mp h
    cases h
    cases ok with
    | true => exact .connected hmain
    | false => exact .refused hmain
  | connection up =>
    obtain ⟨_, h⟩ := Option.ite_none_right_eq_some.mp h
    cases h
    exact .connection
  | shutdown =>
    cases h
    exact .shutdown
  | signalled =>
    obtain ⟨⟨hmain, _⟩, h⟩ := Option.ite_none_right_eq_some.mp h
    cases h
    split
    · exact .closes hmain
    · exact .signalled hmain
  | closed ok =>
    obtain ⟨hmain, h⟩ := Option.ite_none_right_eq_some.mp h
    cases h
    exact .closed hmain
  | pinger_ended =>
    obtain ⟨⟨hmain, htask⟩, h⟩ := Option.ite_none_right_eq_some.mp h
    cases h
    exact .pinger_ended hmain htask
  | tracker_ended =>
    obtain ⟨⟨hmain, _⟩, h⟩ := Option.ite_none_right_eq_some.mp h
    cases h
    exact .tracker_ended hmain
  | pinger e => exact pinger_moves h
  | tracker e =>
    obtain ⟨strategy, hs, rfl⟩ := Option.map_eq_some_iff.mp h
    exact .tracker hs
  | choose_server random =>
    obtain ⟨_, h⟩ := Option.ite_none_right_eq_some.mp h
    obtain ⟨strategy, hs, rfl⟩ := Option.map_eq_some_iff.mp h
    exact .choose_server hs

/-! ## The pinger -/

/-- What the pinger is while `main_consumer` stands there. -/
def Expects (p : ServerPinger) : Main → Prop
  | .wait_for_vllms | .first_connect | .raised => p = .create
  | .shutdown_signal | .close => p.monitoring = true ∧ p.task ≠ none ∧ p.cancelled = false
  | .stop_pinger => p.monitoring = false ∧ p.cancelled = true
  | .stop_tracker | .returned => p.monitoring = false ∧ p.task = none

theorem expects_stop_tracker (hm : c.pinger.monitoring = false) (ht : c.pinger.task = none) :
    Expects c.stop_tracker.pinger c.stop_tracker.main := by
  unfold Consumer.stop_tracker
  split
  · exact ⟨hm, ht⟩
  · dsimp only
    split
    · exact ⟨hm, ht⟩
    · exact ⟨hm, ht⟩

theorem expects_stop_pinger (hm : c.pinger.monitoring = true) :
    Expects c.stop_pinger.pinger c.stop_pinger.main := by
  rw [Consumer.stop_pinger, if_pos hm, ServerPinger.stop_monitor, if_pos hm]
  exact ⟨rfl, rfl⟩

/-- Where `main_consumer` stands while the pinger has a task. -/
theorem expects_cases {p : ServerPinger} {main : Main} (h : Expects p main)
    (htask : p.task ≠ none) :
    ((main = .shutdown_signal ∨ main = .close) ∧ p.monitoring = true ∧ p.cancelled = false) ∨
      (main = .stop_pinger ∧ p.monitoring = false ∧ p.cancelled = true) := by
  cases main with
  | shutdown_signal => exact .inl ⟨.inl rfl, h.1, h.2.2⟩
  | close => exact .inl ⟨.inr rfl, h.1, h.2.2⟩
  | stop_pinger => exact .inr ⟨rfl, h⟩
  | stop_tracker => exact absurd h.2 htask
  | returned => exact absurd h.2 htask
  | _ => exact absurd (congrArg ServerPinger.task h) htask

/-- A task that was not told to end goes on to another await. -/
theorem expects_goOn {p p' : ServerPinger} {main : Main} (h : Expects p main)
    (htask : p.task ≠ none) (hc : p.cancelled = false) (hm : p'.monitoring = p.monitoring)
    (hc' : p'.cancelled = false) (hnext : p.monitoring = true → p'.task ≠ none) :
    Expects p' main := by
  rcases expects_cases h htask with ⟨rfl | rfl, hmonitoring, _⟩ | ⟨_, _, hcancelled⟩
  · exact ⟨hm.trans hmonitoring, hnext hmonitoring, hc'⟩
  · exact ⟨hm.trans hmonitoring, hnext hmonitoring, hc'⟩
  · exact absurd (hc.symm.trans hcancelled) (by simp)

theorem task_loop_head {p : ServerPinger} (h : p.monitoring = true) : p.loop_head.task ≠ none := by
  rw [ServerPinger.loop_head, h]
  simp

theorem expects_step (h : Expects c.pinger c.main) (hs : c.step cfg e = some c') :
    Expects c'.pinger c'.main := by
  cases moves_of_step hs with
  | @vllms ready hmain =>
    rw [hmain] at h
    cases ready <;> exact h
  | connected hmain =>
    rw [hmain] at h
    simp [Expects, show c.pinger = .create from h, ServerPinger.monitor, ServerPinger.create]
  | refused hmain =>
    rw [hmain] at h
    exact h
  | connection => exact h
  | shutdown => exact h
  | closes hmain =>
    rw [hmain] at h
    exact h
  | signalled hmain =>
    rw [hmain] at h
    exact expects_stop_pinger h.1
  | closed hmain =>
    rw [hmain] at h
    exact expects_stop_pinger h.1
  | pinger_ended hmain htask =>
    rw [hmain] at h
    exact expects_stop_tracker h.1 htask
  | tracker_ended hmain =>
    rw [hmain] at h
    exact h
  | start htask hc =>
    exact expects_goOn h (htask ▸ Option.some_ne_none _) hc rfl hc task_loop_head
  | pinged htask hc hs =>
    exact expects_goOn h (htask ▸ Option.some_ne_none _) hc rfl hc fun _ => Option.some_ne_none _
  | updated htask hc hs =>
    exact expects_goOn h (htask ▸ Option.some_ne_none _) hc rfl hc fun _ => Option.some_ne_none _
  | wake htask hc =>
    exact expects_goOn h (htask ▸ Option.some_ne_none _) hc rfl hc task_loop_head
  | cancelled htask hc hs =>
    rcases expects_cases h htask with ⟨_, _, hcancelled⟩ | ⟨hmain, hstopped⟩
    · exact absurd (hc.symm.trans hcancelled) (by simp)
    · dsimp only
      rw [hmain]
      exact hstopped
  | tracker hs => exact h
  | choose_server hs => exact h

/-! ## The strategy -/

variable {s s' : Strategy}

/-- A step does nothing to the strategy, or a step of a selection. -/
theorem select_of_step (hs : c.step cfg e = some c') :
    c'.strategy = c.strategy ∨ ∃ e', c.strategy.select cfg e' = some c'.strategy := by
  have hstop : ∀ c : Consumer, c.stop_tracker.strategy = c.strategy ∨
      ∃ e', c.strategy.select cfg e' = some c.stop_tracker.strategy := by
    intro c
    unfold Consumer.stop_tracker
    split
    · exact .inl rfl
    · rename_i self hself
      exact .inr ⟨.stop_monitor, by rw [hself]; rfl⟩
  have hpinger : ∀ c : Consumer, c.stop_pinger.strategy = c.strategy ∨
      ∃ e', c.strategy.select cfg e' = some c.stop_pinger.strategy := by
    intro c
    unfold Consumer.stop_pinger
    split
    · exact .inl rfl
    · exact hstop c
  cases moves_of_step hs with
  | signalled hmain => exact hpinger c
  | closed hmain => exact hpinger _
  | pinger_ended hmain htask => exact hstop c
  | pinged htask hc hselect => exact .inr ⟨_, hselect⟩
  | updated htask hc hselect => exact .inr ⟨_, hselect⟩
  | cancelled htask hc hselect => exact .inr ⟨_, hselect⟩
  | tracker hselect => exact .inr ⟨_, hselect⟩
  | choose_server hselect => exact .inr ⟨_, hselect⟩
  | _ => exact .inl rfl

theorem select_round_robin {self : RoundRobin} {e : SelectionEvent}
    (h : Strategy.select cfg (.round_robin self) e = some s') :
    ∃ self', self.select cfg.VLLM_SERVERS e = some self' ∧ .round_robin self' = s' :=
  Option.map_eq_some_iff.mp h

theorem select_least_busy {self : LeastBusy} {e : SelectionEvent}
    (h : Strategy.select cfg (.least_busy self) e = some s') :
    ∃ self', self.select cfg.VLLM_SERVERS e = some self' ∧ .least_busy self' = s' :=
  Option.map_eq_some_iff.mp h

/-- A round waits with the servers that answered, or has them already. -/
theorem servers_of_ping {results : List Bool} (h : s.select cfg (.ping results) = some s') :
    updating s' = some (healthy_servers cfg.VLLM_SERVERS results) ∨
      (updating s' = none ∧ servers s' = healthy_servers cfg.VLLM_SERVERS results) := by
  cases s with
  | round_robin self =>
    obtain ⟨self', hself, rfl⟩ := select_round_robin h
    obtain ⟨_, heq⟩ := Option.ite_none_right_eq_some.mp hself
    cases heq
    exact .inr ⟨rfl, rfl⟩
  | least_busy self =>
    obtain ⟨self', hself, rfl⟩ := select_least_busy h
    obtain ⟨⟨hnone, _⟩, heq⟩ := Option.ite_none_right_eq_some.mp hself
    cases heq
    simp only [updating, servers, LeastBusy.round]
    split
    · exact .inr ⟨rfl, rfl⟩
    · unfold LeastBusy.update_servers
      split
      · exact .inl rfl
      · rename_i hsame
        exact .inr ⟨hnone, (not_not.mp hsame).symm⟩

theorem servers_of_tasks_ended (h : s.select cfg .tasks_ended = some s') :
    updating s = some (servers s') ∧ updating s' = none := by
  cases s with
  | round_robin self =>
    obtain ⟨self', hself, _⟩ := select_round_robin h
    cases hself
  | least_busy self =>
    obtain ⟨self', hself, rfl⟩ := select_least_busy h
    obtain ⟨l, hl, rfl⟩ := Option.map_eq_some_iff.mp hself
    exact ⟨hl, rfl⟩

theorem servers_of_cancelled (h : s.select cfg .pinger_cancelled = some s') :
    updating s' = none ∧ servers s' = servers s := by
  cases s with
  | round_robin self =>
    obtain ⟨self', hself, rfl⟩ := select_round_robin h
    cases hself
    exact ⟨rfl, rfl⟩
  | least_busy self =>
    obtain ⟨self', hself, rfl⟩ := select_least_busy h
    cases hself
    exact ⟨rfl, rfl⟩

/-- The tasks of the tracker and the choices leave the servers. -/
theorem servers_of_task {e : TaskEvent} (h : s.select cfg (.task e) = some s') :
    updating s' = updating s ∧ servers s' = servers s := by
  cases s with
  | round_robin self =>
    obtain ⟨self', hself, _⟩ := select_round_robin h
    cases hself
  | least_busy self =>
    obtain ⟨self', hself, rfl⟩ := select_least_busy h
    obtain ⟨tracker, _, rfl⟩ := Option.map_eq_some_iff.mp hself
    exact ⟨rfl, rfl⟩

theorem servers_of_choose_server {random : Nat}
    (h : s.select cfg (.choose_server random) = some s') :
    updating s' = updating s ∧ servers s' = servers s := by
  cases s with
  | round_robin self =>
    obtain ⟨self', hself, rfl⟩ := select_round_robin h
    cases hself
    exact ⟨rfl, rpc_server.servers_choose_server (.round_robin self) random⟩
  | least_busy self =>
    obtain ⟨self', hself, rfl⟩ := select_least_busy h
    cases hself
    exact ⟨rfl, rfl⟩

theorem stop_tracker_keeps (c : Consumer) :
    c.stop_tracker.pinger = c.pinger ∧ c.stop_tracker.healthy = c.healthy ∧
      updating c.stop_tracker.strategy = updating c.strategy ∧
      servers c.stop_tracker.strategy = servers c.strategy := by
  unfold Consumer.stop_tracker
  split
  · exact ⟨rfl, rfl, rfl, rfl⟩
  · rename_i self hself
    rw [hself]
    exact ⟨rfl, rfl, rfl, rfl⟩

theorem stop_pinger_keeps (c : Consumer) :
    c.stop_pinger.pinger.task = c.pinger.task ∧ c.stop_pinger.healthy = c.healthy ∧
      updating c.stop_pinger.strategy = updating c.strategy ∧
      servers c.stop_pinger.strategy = servers c.strategy := by
  unfold Consumer.stop_pinger
  split
  · refine ⟨?_, rfl, rfl, rfl⟩
    unfold ServerPinger.stop_monitor
    split <;> rfl
  · obtain ⟨hp, hrest⟩ := stop_tracker_keeps c
    exact ⟨congrArg ServerPinger.task hp, hrest⟩

/-- The task of the pinger waits exactly for an update that waits, of the servers that answered;
and behind its round the strategy has these. -/
structure Matched (c : Consumer) : Prop where
  waits : (updating c.strategy).isSome = true ↔ c.pinger.task = some .updating
  answered : ∀ l, updating c.strategy = some l → c.healthy = some l
  updated : c.pinger.task = some .sleeping → c.healthy = some (servers c.strategy)

theorem Matched.congr (h : Matched c) (ht : c'.pinger.task = c.pinger.task)
    (hh : c'.healthy = c.healthy) (hu : updating c'.strategy = updating c.strategy)
    (hs : servers c'.strategy = servers c.strategy) : Matched c' := by
  refine ⟨?_, ?_, ?_⟩
  · rw [hu, ht]
    exact h.waits
  · rw [hu, hh]
    exact h.answered
  · rw [hs, hh, ht]
    exact h.updated

/-- A task that neither waits nor sleeps goes with a strategy that has no update. -/
theorem Matched.of_awake (hu : updating c.strategy = none)
    (ht : c.pinger.task ≠ some .updating) (hsleeping : c.pinger.task ≠ some .sleeping) :
    Matched c := by
  refine ⟨?_, fun l hl => ?_, fun h => absurd h hsleeping⟩
  · rw [hu]
    exact iff_of_false (by simp) ht
  · rw [hu] at hl
    cases hl

theorem Matched.updating_eq_none (h : Matched c) (ht : c.pinger.task ≠ some .updating) :
    updating c.strategy = none := by
  cases hu : updating c.strategy with
  | none => rfl
  | some l => exact absurd (h.waits.mp (by rw [hu]; rfl)) ht

theorem matched_step (h : Matched c) (hexpects : Expects c.pinger c.main)
    (hs : c.step cfg e = some c') : Matched c' := by
  cases moves_of_step hs with
  | connected hmain =>
    rw [hmain] at hexpects
    have hcreate : c.pinger = .create := hexpects
    have hnone : updating c.strategy = none :=
      h.updating_eq_none (by simp [hcreate, ServerPinger.create])
    refine .of_awake hnone ?_ ?_ <;> simp [hcreate, ServerPinger.monitor, ServerPinger.create]
  | signalled hmain =>
    obtain ⟨ht, hh, hu, hservers⟩ := stop_pinger_keeps c
    exact h.congr ht hh hu hservers
  | @closed ok hmain =>
    obtain ⟨ht, hh, hu, hservers⟩ :=
      stop_pinger_keeps { c with connection := c.connection && !ok }
    exact h.congr ht hh hu hservers
  | pinger_ended hmain htask =>
    obtain ⟨hp, hh, hu, hservers⟩ := stop_tracker_keeps c
    exact h.congr (congrArg ServerPinger.task hp) hh hu hservers
  | start htask hc =>
    have hnone : updating c.strategy = none := h.updating_eq_none (by simp [htask])
    refine .of_awake hnone ?_ ?_ <;> simp only [ServerPinger.loop_head] <;> split <;> simp
  | wake htask hc =>
    have hnone : updating c.strategy = none := h.updating_eq_none (by simp [htask])
    refine .of_awake hnone ?_ ?_ <;> simp only [ServerPinger.loop_head] <;> split <;> simp
  | pinged htask hc hselect =>
    rcases servers_of_ping hselect with hu | ⟨hu, hservers⟩
    · refine ⟨by simp [hu], fun l hl => ?_, fun ht => ?_⟩
      · rw [hu] at hl
        exact hl
      · simp [hu] at ht
    · refine ⟨by simp [hu], fun l hl => ?_, fun ht => by rw [hservers]⟩
      rw [hu] at hl
      cases hl
  | updated htask hc hselect =>
    obtain ⟨hbefore, hu⟩ := servers_of_tasks_ended hselect
    refine ⟨by simp [hu], fun l hl => ?_, fun _ => h.answered _ hbefore⟩
    rw [hu] at hl
    cases hl
  | cancelled htask hc hselect =>
    obtain ⟨hu, _⟩ := servers_of_cancelled hselect
    exact .of_awake hu (by simp) (by simp)
  | tracker hselect =>
    obtain ⟨hu, hservers⟩ := servers_of_task hselect
    exact h.congr rfl rfl hu hservers
  | choose_server hselect =>
    obtain ⟨hu, hservers⟩ := servers_of_choose_server hselect
    exact h.congr rfl rfl hu hservers
  | _ => exact h.congr rfl rfl rfl rfl

/-! ## The tracker -/

/-- The tasks of the tracker are in order, and an update that waits is one of distinct urls. -/
def InOrder : Strategy → Prop
  | .round_robin _ => True
  | .least_busy s =>
    TasksInOrder s.tracker ∧ ∀ l, s.updating = some l → (l.map (·.url)).Nodup

def monitoring : Strategy → Bool
  | .round_robin _ => false
  | .least_busy s => s.tracker.monitoring

theorem inOrder_create (cfg : Settings) : InOrder (.create cfg) := by
  unfold Strategy.create
  cases cfg.ROUTING_STRATEGY with
  | least_busy =>
    exact ⟨tasksInOrder_monitor (tasksInOrder_create _ cfg.urls_nodup), fun l hl => (by cases hl)⟩
  | round_robin => trivial

theorem nodup_urls_healthy (cfg : Settings) (results : List Bool) :
    ((healthy_servers cfg.VLLM_SERVERS results).map (·.url)).Nodup :=
  ((healthy_sublist cfg.VLLM_SERVERS results).map _).nodup cfg.urls_nodup

theorem tasksInOrder_updated {self : LeastBusy} (h : TasksInOrder self.tracker)
    {l : List VLLMServer} (hl : (l.map (·.url)).Nodup) : TasksInOrder (self.updated l).tracker :=
  tasksInOrder_monitor ⟨hl, h.stopped, h.one_task, h.index_read⟩

theorem inOrder_select {e : SelectionEvent} (h : InOrder s) (hs : s.select cfg e = some s') :
    InOrder s' := by
  cases s with
  | round_robin self =>
    obtain ⟨self', _, rfl⟩ := select_round_robin hs
    trivial
  | least_busy self =>
    obtain ⟨self', hself, rfl⟩ := select_least_busy hs
    obtain ⟨htasks, hnodup⟩ := h
    cases e with
    | task e =>
      obtain ⟨tracker, htracker, rfl⟩ := Option.map_eq_some_iff.mp hself
      exact ⟨tasksInOrder_taskStep htasks htracker, hnodup⟩
    | ping results =>
      obtain ⟨_, heq⟩ := Option.ite_none_right_eq_some.mp hself
      cases heq
      have hhealthy := nodup_urls_healthy cfg results
      unfold LeastBusy.round
      split
      · exact ⟨tasksInOrder_updated htasks hhealthy, fun l hl => (by cases hl)⟩
      · unfold LeastBusy.update_servers
        split
        · refine ⟨tasksInOrder_stop_monitor htasks, fun l hl => ?_⟩
          cases hl
          exact hhealthy
        · exact ⟨htasks, hnodup⟩
    | tasks_ended =>
      obtain ⟨l, hl, rfl⟩ := Option.map_eq_some_iff.mp hself
      exact ⟨tasksInOrder_updated htasks (hnodup l hl), fun l hl => (by cases hl)⟩
    | pinger_cancelled =>
      cases hself
      exact ⟨htasks, fun l hl => (by cases hl)⟩
    | stop_monitor =>
      cases hself
      exact ⟨tasksInOrder_stop_monitor htasks, hnodup⟩
    | choose_server random =>
      cases hself
      exact ⟨htasks, hnodup⟩

theorem monitoring_taskStep {tr tr' : MetricsTracker} {e : TaskEvent}
    (h : tr.taskStep e = some tr') : tr'.monitoring = tr.monitoring := by
  cases e with
  | scrape url i o =>
    obtain ⟨_, heq⟩ := Option.ite_none_right_eq_some.mp h
    cases heq
    unfold MetricsTracker.scraped
    split
    · split
      · rename_i updated hu
        exact (update_all_metrics_tasks hu).2.1
      · rfl
    · rfl
    · rfl
  | _ =>
    obtain ⟨_, heq⟩ := Option.ite_none_right_eq_some.mp h
    cases heq
    rfl

theorem monitoring_of_task {e : TaskEvent} (h : s.select cfg (.task e) = some s') :
    monitoring s' = monitoring s := by
  cases s with
  | round_robin self =>
    obtain ⟨self', hself, _⟩ := select_round_robin h
    cases hself
  | least_busy self =>
    obtain ⟨self', hself, rfl⟩ := select_least_busy h
    obtain ⟨tracker, htracker, rfl⟩ := Option.map_eq_some_iff.mp hself
    exact monitoring_taskStep htracker

theorem monitoring_of_choose_server {random : Nat}
    (h : s.select cfg (.choose_server random) = some s') : monitoring s' = monitoring s := by
  cases s with
  | round_robin self =>
    obtain ⟨self', hself, rfl⟩ := select_round_robin h
    rfl
  | least_busy self =>
    obtain ⟨self', hself, rfl⟩ := select_least_busy h
    cases hself
    rfl

theorem monitoring_stop_monitor (tr : MetricsTracker) : tr.stop_monitor.monitoring = false := by
  unfold MetricsTracker.stop_monitor
  split
  · rfl
  · rename_i hm
    exact Bool.eq_false_of_not_eq_true hm

theorem monitoring_stop_tracker (c : Consumer) : monitoring c.stop_tracker.strategy = false := by
  unfold Consumer.stop_tracker
  split
  · rename_i self hself
    rw [hself]
    rfl
  · exact monitoring_stop_monitor _

/-- The tracker does not monitor any more. -/
def Stopped (c : Consumer) : Prop :=
  c.main = .stop_tracker ∨ c.main = .returned → monitoring c.strategy = false

theorem stopped_stop_pinger (c : Consumer) : Stopped c.stop_pinger := by
  unfold Consumer.stop_pinger
  split
  · rintro (h | h) <;> cases h
  · exact fun _ => monitoring_stop_tracker c

/-- Where the pinger has ended, it takes no step. -/
theorem stopped_of_task (hexpects : Expects c.pinger c.main) (htask : c.pinger.task ≠ none)
    (hmain : c'.main = c.main) : Stopped c' := by
  rintro h
  rw [hmain] at h
  rcases h with h | h
  · rw [h] at hexpects
    exact absurd hexpects.2 htask
  · rw [h] at hexpects
    exact absurd hexpects.2 htask

theorem stopped_step (h : Stopped c) (hexpects : Expects c.pinger c.main)
    (hs : c.step cfg e = some c') : Stopped c' := by
  cases moves_of_step hs with
  | @vllms ready hmain => cases ready <;> (rintro (h | h) <;> cases h)
  | connected hmain => rintro (h | h) <;> cases h
  | refused hmain => rintro (h | h) <;> cases h
  | closes hmain => rintro (h | h) <;> cases h
  | connection => exact h
  | shutdown => exact h
  | signalled hmain => exact stopped_stop_pinger c
  | closed hmain => exact stopped_stop_pinger _
  | pinger_ended hmain htask => exact fun _ => monitoring_stop_tracker c
  | tracker_ended hmain => exact fun _ => h (.inl hmain)
  | start htask hc => exact stopped_of_task hexpects (htask ▸ Option.some_ne_none _) rfl
  | pinged htask hc hselect => exact stopped_of_task hexpects (htask ▸ Option.some_ne_none _) rfl
  | updated htask hc hselect => exact stopped_of_task hexpects (htask ▸ Option.some_ne_none _) rfl
  | wake htask hc => exact stopped_of_task hexpects (htask ▸ Option.some_ne_none _) rfl
  | cancelled htask hc hselect => exact stopped_of_task hexpects htask rfl
  | tracker hselect => exact fun hmain => (monitoring_of_task hselect).trans (h hmain)
  | choose_server hselect =>
    exact fun hmain => (monitoring_of_choose_server hselect).trans (h hmain)

/-! ## The whole consumer -/

structure Sound (cfg : Settings) (c : Consumer) : Prop where
  expects : Expects c.pinger c.main
  matched : Matched c
  stopped : Stopped c
  inOrder : InOrder c.strategy
  selection : SelectionSound cfg c.strategy

theorem sound_create (cfg : Settings) : Sound cfg (.create cfg) where
  expects := rfl
  matched := by
    refine .of_awake ?_ (by simp [Consumer.create, ServerPinger.create])
      (by simp [Consumer.create, ServerPinger.create])
    simp only [Consumer.create, Strategy.create]
    cases cfg.ROUTING_STRATEGY <;> rfl
  stopped := by rintro (h | h) <;> cases h
  inOrder := inOrder_create cfg
  selection := selectionSound_create cfg

theorem sound_step (h : Sound cfg c) (hs : c.step cfg e = some c') : Sound cfg c' := by
  obtain ⟨hinOrder, hselection⟩ : InOrder c'.strategy ∧ SelectionSound cfg c'.strategy := by
    rcases select_of_step hs with heq | ⟨e', hselect⟩
    · rw [heq]
      exact ⟨h.inOrder, h.selection⟩
    · exact ⟨inOrder_select h.inOrder hselect, selectionSound_select h.selection hselect⟩
  exact ⟨expects_step h.expects hs, matched_step h.matched h.expects hs,
    stopped_step h.stopped h.expects hs, hinOrder, hselection⟩

theorem sound_run {es : List Event} (h : Run (Consumer.step cfg) Any (.create cfg) es c) :
    Sound cfg c :=
  h.invariant (sound_create cfg) fun _ _ _ hi _ hs => sound_step hi hs

/-- Whatever the pings answer and whatever else goes on, the pinger has a task from the
subscriptions on up to its stop; an update that waits is one that this task waits for; and behind
each round the strategy has the servers that answered it. -/
theorem the_pinger_goes_on {es : List Event}
    (h : Run (Consumer.step cfg) Any (.create cfg) es c) :
    (c.main = .wait_for_vllms ∨ c.main = .first_connect → c.pinger.task = none) ∧
    (c.main = .shutdown_signal ∨ c.main = .close →
      c.pinger.task ≠ none ∧ c.pinger.cancelled = false) ∧
    ((updating c.strategy).isSome = true ↔ c.pinger.task = some .updating) ∧
    (c.pinger.task = some .sleeping → c.healthy = some (servers c.strategy)) ∧
    Consistent cfg c.strategy := by
  have hsound := sound_run h
  have hexpects := hsound.expects
  refine ⟨?_, ?_, hsound.matched.waits, hsound.matched.updated,
    consistent_of_sound hsound.selection⟩
  · rintro (hmain | hmain)
    · rw [hmain] at hexpects
      exact congrArg ServerPinger.task hexpects
    · rw [hmain] at hexpects
      exact congrArg ServerPinger.task hexpects
  · rintro (hmain | hmain)
    · rw [hmain] at hexpects
      exact hexpects.2
    · rw [hmain] at hexpects
      exact hexpects.2

/-- The one server fails its ping: the round waits for the task of the tracker, and leaves no
server to choose. -/
def noneAnswers : List Event :=
  [.vllms true, .connected true, .pinger .start, .tracker (.start "http://a"),
    .pinger (.pinged [false]), .tracker (.cancelled ⟨"http://a", .fetching 0, true⟩),
    .pinger .updated]

def leastBusySettings : Settings := oneServerSettings .least_busy .warning_log

theorem a_round_without_answers_leaves_no_server : ∃ c,
    Run (Consumer.step leastBusySettings) Any (.create leastBusySettings) noneAnswers c ∧
    c.pinger.task = some .sleeping ∧ c.healthy = some (servers c.strategy) ∧
    servers c.strategy = [] := by
  have hexec : ((exec (Consumer.step leastBusySettings) (.create leastBusySettings)
      noneAnswers).map fun c => (c.pinger.task, servers c.strategy)) =
      some (some .sleeping, []) := by decide +kernel
  obtain ⟨c, hc, hpair⟩ := Option.map_eq_some_iff.mp hexec
  obtain ⟨htask, hservers⟩ := Prod.mk.inj hpair
  exact ⟨c, run_of_exec hc, htask,
    (the_pinger_goes_on (run_of_exec hc)).2.2.2.1 htask, hservers⟩

end aristote_dispatcher.main_consumer
