-- The handler of a proxied request, from `rpc_client.call` on (sender/main.py:
-- `proxy`, `stream_and_accumulate_response`), cut at its awaits, and all the
-- handlers of one sender beside its client. The completion message is one of the
-- background tasks of the response.
import AristoteDispatcher.Lib.Http
import AristoteDispatcher.RpcClient

open http
open json (Json PyStr getMember setMember loads)
open aristote_dispatcher.messages aristote_dispatcher.rpc_client

namespace aristote_dispatcher.proxy

/-- The user of a request, as far as the handler reads it. -/
structure User where
  name : String
  organization : Option String
  threshold : Option Int
  client_type : Option String
  deriving DecidableEq

/-- A request that is past the checks, with the members of its body. -/
structure Request where
  method : String
  path : String
  content_type : Option String
  body : ByteArray
  json_body : List (PyStr × Json)
  model : String
  routing_mode : String
  priority : Int
  stream : Bool

/-- What goes into `rpc_client.call`. A user without an organization has only requests for any
server, which do not name it. -/
def call_arguments (user : User) (request : Request) : Arguments :=
  ⟨request.priority, user.threshold.getD 0, request.model, user.organization.getD "None",
    request.routing_mode⟩

/-! ## What goes out -/

structure JSONResponse where
  content : List (String × String)
  status_code : Nat
  deriving DecidableEq

/-- The body of the request to the server: that of the client, or its members with another
priority. -/
inductive Content
  | body (body : ByteArray)
  | dumps (json_body : List (PyStr × Json))

/-- `build_request`. -/
structure LLMRequest where
  base_url : String
  method : String
  url : String
  content : Content
  headers : List (String × String)

/-- The response of a server, as httpx gives it: names of headers in lower case, the values of
one name joined, and the pieces of the decoded content. -/
structure LLMResponse where
  status_code : Nat
  headers : Headers
  chunks : List ByteArray

/-- `aiter_bytes()`. Without `stream` the content is read before, and comes in one piece. -/
def LLMResponse.aiter_bytes (res : LLMResponse) (stream : Bool) : List ByteArray :=
  if stream then res.chunks
  else if (join res.chunks).size = 0 then [] else [join res.chunks]

/-- What the client gets. -/
structure StreamingResponse where
  status_code : Nat
  headers : Headers
  chunks : List ByteArray

/-- The payload of `send_completion_message`. -/
structure Completion where
  message_id : String
  completed_at : String
  model : String
  user : String
  server : String
  deriving DecidableEq

def Completion.routing_key (c : Completion) : String := completed_queue c.model

def Completion.body (c : Completion) : ByteArray :=
  completion_message c.message_id c.completed_at c.model c.user c.server

inductive BackgroundTask
  | res_aclose
  | http_client_aclose
  | logging_info
  | send_completion_message (completion : Completion)
  | store_usage_metrics
  deriving DecidableEq

/-! ## One handler -/

inductive Outcome
  | json (response : JSONResponse)
  | streamed (response : StreamingResponse)
  | disconnected
  | raised

/-- The await at which a handler stands, or the one of the response that it returned. -/
inductive Stage
  | calling
  | sending (correlation_id llm_url : String) (req : LLMRequest)
  | streaming (response : StreamingResponse) (left : List ByteArray)
      (background_tasks : List BackgroundTask)
  | background (outcome : Outcome) (background_tasks : List BackgroundTask)
  | ended (outcome : Outcome)

structure Proxy where
  user : User
  request : Request
  stage : Stage

/-- `match str(user.client_type)`. -/
def User.refused (user : User) (error : String) : JSONResponse :=
  ⟨[("error", error)], if user.client_type.getD "None" = "chat" then 200 else 503⟩

/-- The model list is read again beside it. -/
def unknown_model : JSONResponse := ⟨[("object", "error"), ("error", "Unknown model")], 404⟩

def invalid_params : JSONResponse :=
  ⟨[("error", "A problem occured while handling the request")], 500⟩

/-- `json.loads(rpc_response.body.decode("utf-8"))`, for a value that `**` takes. -/
def llm_params_dict (body : ByteArray) : Option (List (PyStr × Json)) :=
  match (String.fromUTF8? body).bind loads with
  | some (.obj members) => some members
  | _ => none

/-- The request to the server. An empty token is none. -/
def build_request (request : Request) (llm_params : MessageData) (llm_url : String) :
    LLMRequest where
  base_url := llm_url
  method := request.method
  url := request.path
  content :=
    match llm_params.forwarded_priority with
    | some priority =>
      .dumps (setMember request.json_body (.ofString "priority") (.int priority))
    | none => .body request.body
  headers :=
    ("Content-Type", request.content_type.getD "application/json") ::
      match llm_params.llm_token with
      | some token => if token = "" then [] else [("Authorization", "Bearer " ++ token)]
      | none => []

variable (validate : List (PyStr × Json) → Option MessageData)

/-- After a response of the consumer. `validate` is `MessageData(**llm_params_dict)`, and none
its ValidationError. -/
def Proxy.answered (p : Proxy) (message : Response) : Stage :=
  match llm_params_dict message.body with
  | none => .ended .raised
  | some members =>
    match validate members with
    | none => .ended (.json invalid_params)
    | some llm_params =>
      match llm_params.llm_url with
      | none =>
        .ended (.json (p.user.refused (p.request.model ++ " is busy, try again later")))
      | some llm_url =>
        .sending (message.correlation_id.getD "None") llm_url
          (build_request p.request llm_params llm_url)

/-- After the call. -/
def Proxy.returned (p : Proxy) (channel_closed : Bool) : Ending → Stage
  | .response message => p.answered validate message
  | .QUEUE_OVERLOADED | .TIMEOUT =>
    .ended (.json (p.user.refused "Too many people using the service"))
  | .raised => .ended (if channel_closed then .json unknown_model else .raised)
  | .cancelled => .ended .raised

/-- The completion of a request that a server took. -/
def Proxy.completion (p : Proxy) (correlation_id llm_url completed_at : String) : Completion where
  message_id := correlation_id
  completed_at := completed_at
  model := p.request.model
  user := p.user.name
  server := llm_url

/-- After `send`. The status of a `StreamingResponse` is 200 if no other is given. -/
def Proxy.sent (p : Proxy) (correlation_id llm_url completed_at : String) (res : LLMResponse) :
    Stage :=
  .streaming ⟨200, res.headers, []⟩ (res.aiter_bytes p.request.stream)
    [.res_aclose, .http_client_aclose, .logging_info,
      .send_completion_message (p.completion correlation_id llm_url completed_at)]

/-- What happens to a handler. With `raises` the await that it is at raises: `send`, the stream
of the response, or a background task. -/
inductive ProxyEvent
  | returned (channel_closed : Bool)
  | sent (completed_at : String) (res : LLMResponse)
  | chunk
  | stream_ends
  | disconnects
  | task_done
  | raises

/-- A step of one handler, beside its call, and the completion that it publishes. -/
def Proxy.step (p : Proxy) (call : Call) : ProxyEvent → Option (Stage × List Completion)
  | .returned channel_closed =>
    match p.stage, call.stage with
    | .calling, .ended ending => some (p.returned validate channel_closed ending, [])
    | _, _ => none
  | .sent completed_at res =>
    match p.stage with
    | .sending correlation_id llm_url _ => some (p.sent correlation_id llm_url completed_at res, [])
    | _ => none
  | .chunk =>
    match p.stage with
    | .streaming response (chunk :: left) tasks =>
      some (.streaming { response with chunks := response.chunks ++ [chunk] } left tasks, [])
    | _ => none
  | .stream_ends =>
    match p.stage with
    | .streaming response [] tasks =>
      some (.background (.streamed response) (tasks ++ [.store_usage_metrics]), [])
    | _ => none
  | .disconnects =>
    -- the stream is cancelled, and the tasks run
    match p.stage with
    | .streaming _ _ tasks => some (.background .disconnected tasks, [])
    | _ => none
  | .task_done =>
    match p.stage with
    | .background outcome (.send_completion_message completion :: tasks) =>
      some (.background outcome tasks, [completion])
    | .background outcome (_ :: tasks) => some (.background outcome tasks, [])
    | .background outcome [] => some (.ended outcome, [])
    | _ => none
  | .raises =>
    match p.stage with
    | .sending .. | .streaming .. => some (.ended .raised, [])
    | .background outcome (.send_completion_message _ :: tasks) =>
      -- `send_completion_message` only logs it
      some (.background outcome tasks, [])
    | .background _ (_ :: _) => some (.ended .raised, [])
    | _ => none

/-! ## The sender -/

/-- The handlers of a sender, in the order of their calls, and the completions that it
published. -/
structure Sender where
  client : RPCClient
  proxies : List Proxy
  completions : List Completion

def Sender.create (callback_queue : String) : Sender := ⟨.create callback_queue, [], []⟩

/-- A request comes, the client goes on, or a handler does. -/
inductive SenderEvent
  | request (user : User) (request : Request)
  | client (e : Event)
  | handler (k : Nat) (e : ProxyEvent)

/-- A call only starts with its handler. -/
def isStart : Event → Bool
  | .start _ => true
  | _ => false

def Sender.step (self : Sender) : SenderEvent → Option Sender
  | .request user request =>
    (self.client.step (.start (call_arguments user request))).map fun client =>
      { self with client := client, proxies := self.proxies ++ [⟨user, request, .calling⟩] }
  | .client e =>
    if isStart e then none
    else (self.client.step e).map fun client => { self with client := client }
  | .handler k e =>
    self.proxies[k]?.bind fun p => self.client.calls[k]?.bind fun call =>
      (p.step validate call e).map fun next =>
        { self with
          proxies := self.proxies.set k { p with stage := next.1 }
          completions := self.completions ++ next.2 }

end aristote_dispatcher.proxy
