-- The consumer (consumer/rpc_server.py): its callbacks, cut at their awaits,
-- and the steps that the event loop can take with them. Each step is what runs
-- from one await to the next, or what the broker does with a publish or an ack.
import Mathlib.Data.Finset.Basic
import AristoteDispatcher.Policies
import AristoteDispatcher.Strategy

open pydict pyfloat json
open aristote_dispatcher.settings aristote_dispatcher.messages
open aristote_dispatcher.policies aristote_dispatcher.strategy

namespace aristote_dispatcher.rpc_server

/-- `current_parallel_requests`. -/
abbrev Requests (T : Type := ServerToken) (O : Type := String) (L : Type := Int)
    (U : Type := String) :=
  Dict (VLLMServer T O L U) (Finset String)

/-- How a callback ends its first segment: with an exception, by returning, or at the
publish of an answer. Without a server the answer says that none was found. -/
inductive Stop (T : Type := ServerToken) (O : Type := String) (L : Type := Int)
    (U : Type := String)
  | raises (e : Exn)
  | returns
  | publishes (server : Option (VLLMServer T O L U)) (llm_params : MessageData)
  deriving DecidableEq

/-- What a callback does before its first await. -/
structure Segment (T : Type := ServerToken) (O : Type := String) (L : Type := Int)
    (U : Type := String) where
  /-- The `requeue` tasks that it started. -/
  tasks : List RequeueCall
  stop : Stop T O L U
  deriving DecidableEq

/-! ## The callbacks up to their first await -/

variable {T O L U : Type} [DecidableEq T] [DecidableEq O] [DecidableEq L] [DecidableEq U]
  [TokenField T] [OrganizationField O] [LimitField L] [UrlField U]

/-- The answer that names a server, unless one of its fields is refused. -/
def message_data (cfg : Settings T O L U) (vllm_server : VLLMServer T O L U)
    (current_parallel_requests : Nat) (performance_indicator : Option PyFloat)
    (priority_to_forward : Option Int) (message : Message) : Option MessageData := do
  let llm_url ← UrlField.llm_url vllm_server.url
  let llm_token ← TokenField.llm_token vllm_server.token
  let llm_organization ← OrganizationField.llm_organization vllm_server.organization
  let max_parallel_requests ← LimitField.max_parallel_requests vllm_server.max_parallel_requests
  return {
    llm_url := llm_url
    llm_token := llm_token
    llm_organization := llm_organization
    strategy := cfg.ROUTING_STRATEGY.name
    requeue_count := message.requeue_count
    max_parallel_requests := max_parallel_requests
    current_parallel_requests := some current_parallel_requests
    forwarded_priority := priority_to_forward
    performance_score := performance_indicator }

/-- The policy, and the answer when it lets the request through. -/
def letThrough (cfg : Settings T O L U) (current_parallel_requests : Requests T O L U)
    (vllm_server : VLLMServer T O L U) (performance_indicator : Option PyFloat)
    (priority_to_forward : Option Int) (call : RequeueCall) : Except Exn (Segment T O L U) :=
  match current_parallel_requests.lookup vllm_server with
  | none => .error .KeyError
  | some ids =>
    match apply_policy cfg performance_indicator ids.card
        vllm_server.max_parallel_requests call with
    | .error e => .error e
    | .ok (false, tasks) => .ok ⟨tasks, .returns⟩
    | .ok (true, tasks) =>
      match message_data cfg vllm_server ids.card performance_indicator priority_to_forward
          call.message with
      | none => .error .ValidationError
      | some llm_params => .ok ⟨tasks, .publishes (some vllm_server) llm_params⟩

/-- The `try` of `on_message_callback`, after the choice of a server. -/
def route (cfg : Settings T O L U) (current_parallel_requests : Requests T O L U)
    (message : Message)
    (chosen : Except Exn (VLLMServer T O L U × Option PyFloat)) : Except Exn (Segment T O L U) :=
  match chosen with
  | .error e => .error e
  | .ok (vllm_server, performance_indicator) =>
    match apply_priority cfg.PRIORITY_HANDLER cfg.BEST_PRIORITY message.priority with
    | .error e => .error e
    | .ok priority_to_forward =>
      letThrough cfg current_parallel_requests vllm_server performance_indicator priority_to_forward
        ⟨message, none, some cfg.METRICS_REFRESH_RATE⟩

/-- `on_message_callback`: of its exceptions, only ServerNotFound is caught. -/
def on_message_callback (cfg : Settings T O L U) (strategy : Strategy T O L U)
    (current_parallel_requests : Requests T O L U) (message : Message) (random : Nat) :
    Segment T O L U × Strategy T O L U :=
  let (chosen, strategy') := strategy.choose_server random
  (match route cfg current_parallel_requests message chosen with
    | .ok segment => segment
    | .error .ServerNotFound => ⟨[], .publishes none {
        strategy := cfg.ROUTING_STRATEGY.name
        requeue_count := message.requeue_count
        max_parallel_requests := cfg.DEFAULT_MAX_PARALLEL_REQUESTS }⟩
    | .error e => ⟨[], .raises e⟩,
    strategy')

/-- `json.loads(message.body.decode("utf-8"))`, for a value with a method `get`. -/
def readMembers (body : ByteArray) : Except Exn (List (PyStr × Json)) :=
  match String.fromUTF8? body with
  | none => .error .UnicodeDecodeError
  | some text =>
    match loads text with
    | none => .error .JSONDecodeError
    | some (.obj members) => .ok members
    | some _ => .error .AttributeError

theorem readMembers_dumps (d : List (String × String)) (h : (d.map Prod.fst).Nodup) :
    readMembers (dumps d).toUTF8 = .ok (ofStrings d) := by
  obtain ⟨text, htext, hobj⟩ := Option.bind_eq_some_iff.mp (loads_body d h)
  unfold readMembers
  simp only [htext, hobj]

/-- The loop of `choose_among_duplicates`: the first server without a score, or all
scores. -/
def scoreDuplicates (strategy : Strategy T O L U) :
    List (VLLMServer T O L U) → Dict (VLLMServer T O L U) (Option PyFloat) →
    Except Exn (VLLMServer T O L U ⊕ Dict (VLLMServer T O L U) (Option PyFloat))
  | [], scores => .ok (.inr scores)
  | server :: duplicates, scores =>
    match strategy.get_server_score server.url with
    | .error e => .error e
    | .ok score =>
      if score.any fun v => v.eq (.fin (-1)) then .ok (.inl server)
      else scoreDuplicates strategy duplicates (scores.insert server score)

/-- What `choose_among_duplicates` does with the scores of all servers. -/
def chooseScored (scores : Dict (VLLMServer T O L U) (Option PyFloat)) (random : Nat) :
    Except Exn (VLLMServer T O L U × Option PyFloat) :=
  if scores.items.any (·.2 = none) then
    match choice (scores.items.map (·.1)) random with
    | .error e => .error e
    | .ok server => .ok (server, none)
  else
    match minimum (scores.items.filterMap (·.2)) with
    | none => .error .ValueError
    | some min_value =>
      match choice ((scores.items.filter fun e =>
          e.2.any fun v => v.eq min_value).map (·.1)) random with
      | .error e => .error e
      | .ok server => .ok (server, some min_value)

def choose_among_duplicates (strategy : Strategy T O L U) (duplicates : List (VLLMServer T O L U))
    (random : Nat) : Except Exn (VLLMServer T O L U × Option PyFloat) :=
  match scoreDuplicates strategy duplicates ∅ with
  | .error e => .error e
  | .ok (.inl server) => .ok (server, some (.fin (-1)))
  | .ok (.inr scores) => chooseScored scores random

/-- The queue that a deferral goes to: the queue of the model, or its own one. -/
def target_requeue (cfg : Settings T O L U) (routing_mode : Json) : Except Exn (Option String) :=
  if isStr routing_mode "private-first" then .ok (some cfg.MODEL)
  else if isStr routing_mode "private-only" then .ok none
  else .error .UnknownLocalPriorityModel

/-- The servers of an organization. -/
def matching_servers (cfg : Settings T O L U) (organization : Json) : List (VLLMServer T O L U) :=
  cfg.VLLM_SERVERS.filter fun server => OrganizationField.equals server.organization organization

/-- The `try` of `server_specific_callback`. -/
def routePrivate (cfg : Settings T O L U) (strategy : Strategy T O L U)
    (current_parallel_requests : Requests T O L U) (message : Message) (random : Nat) :
    Except Exn (Segment T O L U) := do
  let data ← readMembers message.body
  let priority_to_forward ←
    apply_priority cfg.PRIORITY_HANDLER cfg.BEST_PRIORITY message.priority
  let (target_server, score) ← choose_among_duplicates strategy
    (matching_servers cfg (getMember data "organization")) random
  let queue ← target_requeue cfg (getMember data "routing_mode")
  letThrough cfg current_parallel_requests target_server score priority_to_forward
    ⟨message, queue, some cfg.METRICS_REFRESH_RATE⟩

/-- `server_specific_callback`: every exception is caught and only logged. -/
def server_specific_callback (cfg : Settings T O L U) (strategy : Strategy T O L U)
    (current_parallel_requests : Requests T O L U) (message : Message) (random : Nat) :
    Segment T O L U :=
  match routePrivate cfg strategy current_parallel_requests message random with
  | .ok segment => segment
  | .error e => ⟨[], .raises e⟩

/-! ## Completions -/

/-- `str(value)`. `repr` gives the text of a float, a list or a dict. -/
def strOf (repr : Json → PyStr) : Json → PyStr
  | .null => .ofString "None"
  | .bool true => .ofString "True"
  | .bool false => .ofString "False"
  | .int i => .ofString (toString i)
  | .str s => s
  | value => repr value

/-- `ids.discard(id)`. -/
def discard (ids : Finset String) (id : PyStr) : Finset String :=
  match id.toString? with
  | some id => ids.erase id
  | none => ids

/-- The last configured server with that url. -/
def used_server (cfg : Settings T O L U) (server_url : Json) : Option (VLLMServer T O L U) :=
  (cfg.VLLM_SERVERS.filter fun server => UrlField.equals server.url server_url).getLast?

/-- `on_completion_callback` up to its ack. An exception before the ack is only logged. -/
def on_completion_callback (cfg : Settings T O L U) (repr : Json → PyStr)
    (current_parallel_requests : Requests T O L U) (body : ByteArray) :
    Requests T O L U × Except Exn Unit :=
  match readMembers body with
  | .error e => (current_parallel_requests, .error e)
  | .ok data =>
    match used_server cfg (getMember data "server") with
    -- the log line reads the length at the key None
    | none => (current_parallel_requests, .error .KeyError)
    | some server =>
      match current_parallel_requests.lookup server with
      | none => (current_parallel_requests, .error .KeyError)
      | some ids =>
        (current_parallel_requests.insert server
          (discard ids (strOf repr (getMember data "message_id"))), .ok ())

/-! ## The state of a consumer -/

/-- The subscriptions of `first_connect` that take requests. Each takes one unsettled
delivery at most (`prefetch_count=1`), and so does that of the completions. -/
inductive Subscription
  | main
  | server_queue (i : Nat)
  deriving DecidableEq, Repr

/-- The organization in the name of the queue of a server. -/
def queue_organization (cfg : Settings T O L U) (i : Nat) : Option String :=
  cfg.VLLM_SERVERS[i]?.bind fun server => OrganizationField.format server.organization

def Subscription.queue (cfg : Settings T O L U) : Subscription → Option String
  | .main => some cfg.MODEL
  | .server_queue i => (queue_organization cfg i).map (private_queue cfg.MODEL)

/-- Where a callback that answers stands: the answer is not out yet, it is out and the
confirm or the ack is awaited, or the broker has the ack. -/
inductive Phase
  | publishing
  | confirming
  | acked
  deriving DecidableEq, Repr

structure Callback (T : Type := ServerToken) (O : Type := String) (L : Type := Int)
    (U : Type := String) where
  subscription : Subscription
  message : Message
  vllm_server : Option (VLLMServer T O L U)
  llm_params : MessageData
  phase : Phase
  deriving DecidableEq

/-- The message of the answer: its body are the params, and it goes to the queue that the
request names. -/
structure Reply where
  llm_params : MessageData
  correlation_id : String
  routing_key : Option String
  deriving DecidableEq

def Callback.reply (c : Callback T O L U) : Reply :=
  ⟨c.llm_params, c.message.id, c.message.reply_to⟩

/-- A `requeue` task awaits its ack, or sleeps after it and then publishes. -/
structure RequeueTask where
  subscription : Subscription
  call : RequeueCall
  acked : Bool
  deriving DecidableEq

structure State (T : Type := ServerToken) (O : Type := String) (L : Type := Int)
    (U : Type := String) where
  strategy : Strategy T O L U
  current_parallel_requests : Requests T O L U
  /-- The deliveries that the broker waits to see settled. -/
  unsettled : List (Subscription × Message)
  callbacks : List (Callback T O L U)
  requeues : List RequeueTask
  /-- The `_expire_request` tasks. -/
  timers : List (VLLMServer T O L U × String)
  /-- The completion that was not acked. -/
  unsettled_completion : Option ByteArray

def State.create (cfg : Settings T O L U) : State T O L U where
  strategy := .create cfg
  current_parallel_requests := Dict.ofKeys cfg.VLLM_SERVERS fun _ => ∅
  unsettled := []
  callbacks := []
  requeues := []
  timers := []
  unsettled_completion := none

/-- What happens in a consumer. The numbers are places in its lists. -/
inductive Event (U : Type := String)
  | deliver (subscription : Subscription) (message : Message) (random : Nat)
  | publish (i : Nat)
  | publish_raises (i : Nat)
  | ack (i : Nat)
  | ack_raises (i : Nat)
  | resume (i : Nat)
  | requeue_ack (i : Nat)
  | requeue_ack_raises (i : Nat)
  | requeue_publish (i : Nat)
  | requeue_publish_raises (i : Nat)
  | completion (body : ByteArray)
  | expire (i : Nat)
  | strategy (e : StrategyEvent U)

/-- The first segment of the callback of a delivery. -/
def State.segment (cfg : Settings T O L U) (s : State T O L U) (subscription : Subscription)
    (message : Message) (random : Nat) : Segment T O L U × Strategy T O L U :=
  match subscription with
  | .main => on_message_callback cfg s.strategy s.current_parallel_requests message random
  | .server_queue _ =>
    (server_specific_callback cfg s.strategy s.current_parallel_requests message random,
      s.strategy)

/-- The callback that awaits the publish of its answer, if there is one. -/
def suspended (subscription : Subscription) (message : Message) :
    Stop T O L U → List (Callback T O L U)
  | .publishes server llm_params => [⟨subscription, message, server, llm_params, .publishing⟩]
  | _ => []

def State.deliver (cfg : Settings T O L U) (s : State T O L U) (subscription : Subscription)
    (message : Message) (random : Nat) : State T O L U :=
  let (segment, strategy) := s.segment cfg subscription message random
  { s with
    strategy := strategy
    unsettled := s.unsettled ++ [(subscription, message)]
    callbacks := s.callbacks ++ suspended subscription message segment.stop
    requeues := s.requeues ++ segment.tasks.map fun call => ⟨subscription, call, false⟩ }

/-- The end of a callback: its id is counted, and the timer of the id starts. -/
def State.add (s : State T O L U) (server : VLLMServer T O L U) (id : String) : State T O L U :=
  match s.current_parallel_requests.lookup server with
  | none => s
  | some ids => { s with
      current_parallel_requests := s.current_parallel_requests.insert server (insert id ids)
      timers := s.timers ++ [(server, id)] }

/-- `_expire_request`. -/
def State.expire (s : State T O L U) (server : VLLMServer T O L U) (id : String) : State T O L U :=
  match s.current_parallel_requests.lookup server with
  | none => s
  | some ids => { s with
      current_parallel_requests := s.current_parallel_requests.insert server (ids.erase id) }

/-- The whole callback of a completion, its ack included. -/
def State.complete (cfg : Settings T O L U) (repr : Json → PyStr) (s : State T O L U)
    (body : ByteArray) : State T O L U :=
  let (current_parallel_requests, result) :=
    on_completion_callback cfg repr s.current_parallel_requests body
  { s with
    current_parallel_requests := current_parallel_requests
    unsettled_completion :=
      match result with
      | .ok () => none
      | .error _ => some body }

/-- A delivery is settled. -/
def State.settle (s : State T O L U) (subscription : Subscription) (message : Message) :
    State T O L U :=
  { s with unsettled := s.unsettled.erase (subscription, message) }

/-- A callback goes on from one phase to another. -/
def State.goOn (s : State T O L U) (i : Nat) (c : Callback T O L U) (phase : Phase) :
    State T O L U :=
  { s with callbacks := s.callbacks.set i { c with phase := phase } }

/-- A callback ends. -/
def State.finish (s : State T O L U) (i : Nat) : State T O L U :=
  { s with callbacks := s.callbacks.eraseIdx i }

/-- A `requeue` task ends. -/
def State.finishRequeue (s : State T O L U) (i : Nat) : State T O L U :=
  { s with requeues := s.requeues.eraseIdx i }

def State.step (cfg : Settings T O L U) (repr : Json → PyStr) (s : State T O L U) :
    Event U → Option (State T O L U)
  | .deliver subscription message random =>
    if subscription.queue cfg = some message.routing_key ∧
        ∀ d ∈ s.unsettled, d.1 ≠ subscription then
      some (s.deliver cfg subscription message random)
    else none
  | .publish i => s.callbacks[i]?.bind fun c =>
    if c.phase = .publishing then some (s.goOn i c .confirming) else none
  | .publish_raises i => s.callbacks[i]?.bind fun c =>
    -- the answer may be out when the confirm fails
    if c.phase ≠ .acked then some (s.finish i) else none
  | .ack i => s.callbacks[i]?.bind fun c =>
    if c.phase = .confirming then some ((s.settle c.subscription c.message).goOn i c .acked)
    else none
  | .ack_raises i => s.callbacks[i]?.bind fun c =>
    if c.phase ≠ .publishing then some (s.finish i) else none
  | .resume i => s.callbacks[i]?.bind fun c =>
    if c.phase = .acked then
      match c.vllm_server with
      | some server => some ((s.finish i).add server c.message.id)
      | none => some (s.finish i)
    else none
  | .requeue_ack i => s.requeues[i]?.bind fun t =>
    if t.acked = false then
      some { s.settle t.subscription t.call.message with
        requeues := s.requeues.set i { t with acked := true } }
    else none
  | .requeue_ack_raises i => s.requeues[i]?.bind fun t =>
    if t.acked = false then some (s.finishRequeue i) else none
  | .requeue_publish i => s.requeues[i]?.bind fun t =>
    if t.acked = true then some (s.finishRequeue i) else none
  | .requeue_publish_raises i => s.requeues[i]?.bind fun t =>
    if t.acked = true then some (s.finishRequeue i) else none
  | .completion body =>
    if s.unsettled_completion = none then some (s.complete cfg repr body) else none
  | .expire i => s.timers[i]?.map fun t =>
    { s with timers := s.timers.eraseIdx i }.expire t.1 t.2
  | .strategy e =>
    (s.strategy.step cfg.VLLM_SERVERS e).map fun strategy => { s with strategy := strategy }

end aristote_dispatcher.rpc_server
