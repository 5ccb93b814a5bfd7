-- The checks of the sender before a request is dispatched (sender/main.py:
-- `authorize`, and `proxy` up to `call_next` or `rpc_client.call`; sender/models.py;
-- MODEL_HOST_MAPPING of sender/settings.py). Each check goes on with a value or
-- ends the request.
import AristoteDispatcher.Lib.JsonBytes
import AristoteDispatcher.Lib.PyText
import AristoteDispatcher.Proxy
import AristoteDispatcher.QueueNames

open pyfloat json pytext
open aristote_dispatcher.messages
open aristote_dispatcher.proxy (JSONResponse)
open aristote_dispatcher.queues (listed)
open aristote_dispatcher.rpc_server (isStr)

namespace aristote_dispatcher.middleware

/-! ## What comes in -/

/-- The enumeration of the column `default_routing_mode`. -/
inductive RoutingMode
  | any
  | private_first
  | private_only
  deriving DecidableEq, Repr

def RoutingMode.value : RoutingMode → String
  | .any => "any"
  | .private_first => "private-first"
  | .private_only => "private-only"

/-- A row of the table `users`. -/
structure User extends proxy.User where
  token : String
  priority : Int
  default_routing_mode : RoutingMode
  deriving DecidableEq

/-- Names of headers in lower case, in their order. -/
structure HTTPRequest where
  method : String
  path : String
  headers : List (String × String)
  body : ByteArray

/-- `request.headers.get(name)`. -/
def HTTPRequest.header (request : HTTPRequest) (name : String) : Option String :=
  request.headers.lookup name

/-- What the checks read beside the request: the users, the models in memory, the queues that
the broker would list (none is a request to it that raises), and the setting. -/
structure Environment where
  users : List User
  models : List String
  bindings : Option (List String)
  DEFAULT_MODEL_HOST_MAPPING : Option String
  connected : Bool

/-! ## What comes of it -/

/-- The exceptions that `proxy` does not catch. -/
inductive Exn
  | UnicodeDecodeError
  | UnicodeEncodeError
  | KeyError
  | TypeError
  | ValueError (message : String)
  | HTTPError
  deriving DecidableEq, Repr

/-- The arguments of `rpc_client.call`. The priority is a number of Python. -/
structure CallArguments where
  priority : Json
  threshold : Int
  model : String
  organization : Option String
  routing_mode : String

/-- A request that is past the checks, as it goes into the call. -/
structure Dispatched where
  user : User
  arguments : CallArguments
  json_body : List (PyStr × Json)
  stream : Bool

/-- How a request ends at a check. -/
inductive Rejection
  | response (response : JSONResponse)
  | raised (e : Exn)

inductive Outcome
  | plain (content : String) (status_code : Nat)
  | rejected (rejection : Rejection)
  | call_next
  | call (dispatched : Dispatched)

abbrev Check := Except Rejection

/-! ## Authorization -/

inductive AuthError
  | NoTokenException
  | InvalidTokenException
  | UnauthorizedException
  deriving DecidableEq, Repr

def AuthError.detail : AuthError → String
  | .NoTokenException => "No token provided"
  | .InvalidTokenException => "Invalid token"
  | .UnauthorizedException => "Unauthorized"

def AuthError.status_code (_ : AuthError) : Nat := 401

def authorize (users : List User) (request : HTTPRequest) : Except AuthError User :=
  match request.header "authorization" with
  | none => .error .NoTokenException
  | some authorization =>
    if authorization = "" then .error .NoTokenException
    else match split authorization with
      | [scheme, token] =>
        if scheme ≠ "Bearer" then .error .InvalidTokenException
        else match users.find? (·.token = token) with
          | some user => .ok user
          | none => .error .UnauthorizedException
      | _ => .error .InvalidTokenException

/-! ## The body -/

def parse (body : ByteArray) : Check Json :=
  match loads_bytes body with
  | .ok json_body => .ok json_body
  | .error .JSONDecodeError => .error (.response ⟨[("error", "Invalid JSON Body")], 400⟩)
  | .error .UnicodeDecodeError => .error (.raised .UnicodeDecodeError)

/-- `bool(value)`. -/
def truthy : Json → Bool
  | .null => false
  | .bool b => b
  | .int i => i ≠ 0
  | .float f => f.rounded ≠ .fin 0
  | .str s => s.codes ≠ []
  | .arr items => !items.isEmpty
  | .obj members => !members.isEmpty

/-- `hash(value)` does not raise. -/
def hashable : Json → Bool
  | .arr _ | .obj _ => false
  | _ => true

/-- `json_body["model"]`, for any value that came in. -/
def model_of (json_body : Json) : Check (List (PyStr × Json) × Json) :=
  match json_body with
  | .obj members =>
    match members.lookup (.ofString "model") with
    | none => .error (.raised .KeyError)
    | some model =>
      if truthy model then .ok (members, model)
      else .error (.response ⟨[("object", "error"), ("message", "No model specified."),
        ("type", "NotFoundError")], 404⟩)
  | _ => .error (.raised .TypeError)

/-! ## The model -/

def get_models (destinations : List String) : List String := destinations.filter listed

/-- The models are read again when the id is not among them. -/
def get_model_by_id (env : Environment) (model_id : Json) : Except Exn (Option String) :=
  if hashable model_id = false then .error .TypeError
  else match env.models.find? fun model => isStr model_id model with
    | some model => .ok (some model)
    | none =>
      match env.bindings with
      | none => .error .HTTPError
      | some destinations =>
        .ok ((get_models destinations).find? fun model => isStr model_id model)

def known_model (env : Environment) (requested_model : Json) : Check String :=
  match get_model_by_id env requested_model with
  | .error e => .error (.raised e)
  | .ok none => .error (.response proxy.unknown_model)
  | .ok (some model) => .ok model

/-! ## The routing mode -/

variable (repr : Json → String)

/-- `f"{value}"`, if it can be encoded. `repr` gives the text of a float, a list or a dict, and
escapes what cannot be encoded. -/
def format? : Json → Option String
  | .null => some "None"
  | .bool true => some "True"
  | .bool false => some "False"
  | .int i => some (toString i)
  | .str s => s.toString?
  | value => some (repr value)

def checked_mode (routing_mode : Json) : Check String :=
  match routing_modes.find? fun mode => isStr routing_mode mode with
  | some mode => .ok mode
  | none =>
    match format? repr routing_mode with
    | none => .error (.raised .UnicodeEncodeError)
    | some text => .error (.response ⟨[("object", "error"), ("message",
        "local priority model: " ++ text ++
          " not recognized: must either be 'any', 'private-first' or 'private-only'")], 400⟩)

/-! ## The organization -/

def strings? : Json → Option (List PyStr)
  | .arr items => items.mapM fun
    | .str s => some s
    | _ => none
  | _ => none

/-- The members of the object, if each value is a list of strings. -/
def mapping? (members : List (PyStr × Json)) : Option (List (PyStr × List PyStr)) :=
  members.mapM fun m => (strings? m.2).map fun organizations => (m.1, organizations)

def MODEL_HOST_MAPPING (default : Option String) : Except Exn (List (PyStr × List PyStr)) :=
  match default with
  | none => .error .TypeError
  | some text =>
    match loads text with
    | none => .error (.ValueError "Invalid JSON format for MODEL_HOST_MAPPING")
    | some (.obj members) =>
      match mapping? members with
      | none => .error (.ValueError "Each value in MODEL_HOST_MAPPING must be a list of strings")
      | some mapping => .ok mapping
    | some _ => .error (.ValueError "MODEL_HOST_MAPPING must be a JSON object")

/-- `user.organization in organizations`. -/
def User.among (user : User) (organizations : List PyStr) : Bool :=
  user.organization.any fun organization => decide (PyStr.ofString organization ∈ organizations)

def not_available (model : String) (organization : Option String) : JSONResponse :=
  ⟨[("object", "error"), ("message",
    "The requested model " ++ model ++ " is not available for your organization (" ++
      organization.getD "None" ++ "), so you can't ask for 'private-first' or 'private-only'")],
    400⟩

/-- The mapping is read only for a mode that is not `any`. -/
def check_organization (env : Environment) (user : User) (model routing_mode : String) :
    Check Unit :=
  if routing_mode = "any" then .ok ()
  else match MODEL_HOST_MAPPING env.DEFAULT_MODEL_HOST_MAPPING with
    | .error e => .error (.raised e)
    | .ok mapping =>
      match mapping.lookup (.ofString model) with
      | none => .error (.raised .KeyError)
      | some organizations =>
        if user.among organizations then .ok ()
        else .error (.response (not_available model user.organization))

/-! ## The priority -/

/-- A value that an int is compared with. Python has rounded a float when it compares it. -/
def number? : Json → Option PyFloat
  | .int i => some (.fin i)
  | .bool b => some (.fin (if b then 1 else 0))
  | .float f => some f.rounded
  | _ => none

/-- A boolean is an int. -/
def integer? : Json → Option Int
  | .int i => some i
  | .bool b => some (if b then 1 else 0)
  | _ => none

/-- `min(value, n)`: the first of two equal ones, and a value that is no number raises. -/
def least (value : Json) (n : Int) : Option Json :=
  (number? value).map fun x => if PyFloat.lt (.fin n) x then .int n else value

def priority_of (user : User) (members : List (PyStr × Json)) : Check Json :=
  match least (getOr members "priority" (.int user.priority)) user.priority with
  | some priority => .ok priority
  | none => .error (.raised .TypeError)

/-! ## The whole -/

/-- `proxy` from the body on, up to the call. -/
def dispatch (env : Environment) (user : User) (body : ByteArray) : Check Dispatched := do
  let json_body ← parse body
  let (members, requested_model) ← model_of json_body
  let model ← known_model env requested_model
  let routing_mode ← checked_mode repr
    (getOr members "routing-mode" (.str (.ofString user.default_routing_mode.value)))
  check_organization env user model routing_mode
  let priority ← priority_of user members
  return ⟨user, ⟨priority, user.threshold.getD 0, model, user.organization, routing_mode⟩,
    members, truthy (getOr members "stream" (.bool true))⟩

def proxy (env : Environment) (request : HTTPRequest) : Outcome :=
  if request.method = "GET" ∧ request.path = "/health/liveness" then .plain "OK" 200
  else if request.method = "GET" ∧ request.path = "/health/readiness" then
    if env.connected then .plain "OK" 200 else .plain "KO" 503
  else match authorize env.users request with
    | .error e => .rejected (.response ⟨[("error", e.detail)], e.status_code⟩)
    | .ok user =>
      if request.method = "GET" then .call_next
      else match dispatch repr env user request.body with
        | .error rejection => .rejected rejection
        | .ok dispatched => .call dispatched

/-! ## What each check lets through -/

theorem bind_eq_ok {α β : Type} {x : Check α} {f : α → Check β} {b : β} :
    x >>= f = .ok b ↔ ∃ a, x = .ok a ∧ f a = .ok b := by
  cases x with
  | error e => simp [bind, Except.bind]
  | ok a => simp [bind, Except.bind]

theorem authorize_ok {users : List User} {request : HTTPRequest} {user : User}
    (h : authorize users request = .ok user) :
    ∃ authorization, request.header "authorization" = some authorization ∧
      split authorization = ["Bearer", user.token] ∧ user ∈ users := by
  unfold authorize at h
  split at h
  · cases h
  · rename_i authorization hheader
    split at h
    · cases h
    · split at h
      · rename_i scheme token hsplit
        split at h
        · cases h
        · rename_i hscheme
          split at h
          · rename_i found hfound
            cases h
            have htoken : user.token = token := by simpa using List.find?_some hfound
            refine ⟨authorization, hheader, ?_, List.mem_of_find?_eq_some hfound⟩
            rw [hsplit, htoken, not_not.mp hscheme]
          · cases h
      · cases h

theorem parse_ok {body : ByteArray} {json_body : Json} (h : parse body = .ok json_body) :
    loads_bytes body = .ok json_body := by
  unfold parse at h
  split at h
  · rename_i v hv
    cases h
    exact hv
  · cases h
  · cases h

theorem model_of_ok {json_body model : Json} {members : List (PyStr × Json)}
    (h : model_of json_body = .ok (members, model)) :
    json_body = .obj members ∧ members.lookup (.ofString "model") = some model := by
  unfold model_of at h
  split at h
  · split at h
    · cases h
    · rename_i hmodel
      split at h
      · cases h
        exact ⟨rfl, hmodel⟩
      · cases h
  · cases h

/-- The model is in memory, or the broker lists it. -/
def Environment.Lists (env : Environment) (model : String) : Prop :=
  model ∈ env.models ∨
    ∃ destinations, env.bindings = some destinations ∧ model ∈ get_models destinations

theorem found_model {models : List String} {value : Json} {model : String}
    (h : models.find? (fun m => isStr value m) = some model) :
    model ∈ models ∧ value = .str (.ofString model) :=
  ⟨List.mem_of_find?_eq_some h, rpc_server.isStr_iff.mp (List.find?_some h)⟩

theorem get_model_by_id_ok {env : Environment} {model_id : Json} {model : String}
    (h : get_model_by_id env model_id = .ok (some model)) :
    env.Lists model ∧ model_id = .str (.ofString model) := by
  unfold get_model_by_id at h
  split at h
  · cases h
  · split at h
    · rename_i hfound
      cases h
      obtain ⟨hmem, hid⟩ := found_model hfound
      exact ⟨.inl hmem, hid⟩
    · split at h
      · cases h
      · rename_i destinations hbindings
        obtain ⟨hmem, hid⟩ := found_model (Except.ok.inj h)
        exact ⟨.inr ⟨destinations, hbindings, hmem⟩, hid⟩

theorem known_model_ok {env : Environment} {value : Json} {model : String}
    (h : known_model env value = .ok model) :
    env.Lists model ∧ value = .str (.ofString model) := by
  unfold known_model at h
  split at h
  · cases h
  · cases h
  · rename_i hmodel
    cases h
    exact get_model_by_id_ok hmodel

theorem checked_mode_ok {value : Json} {mode : String} (h : checked_mode repr value = .ok mode) :
    mode ∈ routing_modes ∧ value = .str (.ofString mode) := by
  unfold checked_mode at h
  split at h
  · rename_i hfound
    cases h
    exact found_model hfound
  · split at h
    · cases h
    · cases h

/-- The user's organization is one of the model. -/
def Available (env : Environment) (user : User) (model : String) : Prop :=
  ∃ mapping organizations, MODEL_HOST_MAPPING env.DEFAULT_MODEL_HOST_MAPPING = .ok mapping ∧
    mapping.lookup (.ofString model) = some organizations ∧ user.among organizations = true

theorem check_organization_ok {env : Environment} {user : User} {model routing_mode : String}
    (h : check_organization env user model routing_mode = .ok ()) (hmode : routing_mode ≠ "any") :
    Available env user model := by
  rw [check_organization, if_neg hmode] at h
  split at h
  · cases h
  · rename_i mapping hmapping
    split at h
    · cases h
    · rename_i organizations hlookup
      split at h
      · rename_i hamong
        exact ⟨mapping, organizations, hmapping, hlookup, hamong⟩
      · cases h

theorem number_of_integer {value : Json} {i : Int} (hi : integer? value = some i) :
    number? value = some (.fin i) := by
  cases value with
  | int j => cases hi; rfl
  | bool b => cases hi; cases b <;> rfl
  | _ => cases hi

/-- Of an int, the least is the minimum of the two. -/
theorem least_integer {value : Json} {i : Int} (hi : integer? value = some i) (n : Int) :
    ∃ v, least value n = some v ∧ integer? v = some (min i n) := by
  unfold least
  rw [number_of_integer hi, Option.map_some]
  by_cases hlt : n < i
  · refine ⟨_, rfl, ?_⟩
    rw [if_pos (by simpa [PyFloat.lt] using hlt), min_eq_right hlt.le]
    rfl
  · refine ⟨_, rfl, ?_⟩
    rw [if_neg (by simpa [PyFloat.lt] using hlt), min_eq_left (not_lt.mp hlt)]
    exact hi

/-- Whatever the value was, an int that comes of it is no more than the other. -/
theorem least_le {value v : Json} {n p : Int} (h : least value n = some v)
    (hp : integer? v = some p) : p ≤ n := by
  obtain ⟨x, hx, rfl⟩ := Option.map_eq_some_iff.mp h
  split at hp
  · cases hp
    exact le_rfl
  · rename_i hlt
    cases hx.symm.trans (number_of_integer hp)
    simpa [PyFloat.lt] using hlt

theorem priority_of_ok {user : User} {members : List (PyStr × Json)} {priority : Json}
    (h : priority_of user members = .ok priority) :
    least (getOr members "priority" (.int user.priority)) user.priority = some priority := by
  unfold priority_of at h
  split at h
  · rename_i hleast
    cases h
    exact hleast
  · cases h

/-- What a request that is past the checks has passed. -/
structure Checked (env : Environment) (user : User) (body : ByteArray) (d : Dispatched) :
    Prop where
  user_eq : d.user = user
  json_body : loads_bytes body = .ok (.obj d.json_body)
  requested : d.json_body.lookup (.ofString "model") = some (.str (.ofString d.arguments.model))
  model : env.Lists d.arguments.model
  mode : d.arguments.routing_mode ∈ routing_modes
  asked_mode : getOr d.json_body "routing-mode"
    (.str (.ofString user.default_routing_mode.value)) = .str (.ofString d.arguments.routing_mode)
  available : d.arguments.routing_mode ≠ "any" → Available env user d.arguments.model
  priority : least (getOr d.json_body "priority" (.int user.priority)) user.priority =
    some d.arguments.priority
  threshold : d.arguments.threshold = user.threshold.getD 0
  organization : d.arguments.organization = user.organization
  stream : d.stream = truthy (getOr d.json_body "stream" (.bool true))

theorem checked_of_dispatch {env : Environment} {user : User} {body : ByteArray} {d : Dispatched}
    (h : dispatch repr env user body = .ok d) : Checked env user body d := by
  unfold dispatch at h
  obtain ⟨json_body, hparse, h⟩ := bind_eq_ok.mp h
  obtain ⟨⟨members, requested_model⟩, hmodel_of, h⟩ := bind_eq_ok.mp h
  obtain ⟨model, hknown, h⟩ := bind_eq_ok.mp h
  obtain ⟨routing_mode, hmode, h⟩ := bind_eq_ok.mp h
  obtain ⟨_, horganization, h⟩ := bind_eq_ok.mp h
  obtain ⟨priority, hpriority, h⟩ := bind_eq_ok.mp h
  cases h
  obtain ⟨rfl, hrequested⟩ := model_of_ok hmodel_of
  obtain ⟨hlists, rfl⟩ := known_model_ok hknown
  obtain ⟨hmem, hasked⟩ := checked_mode_ok repr hmode
  exact
    { user_eq := rfl
      json_body := parse_ok hparse
      requested := hrequested
      model := hlists
      mode := hmem
      asked_mode := hasked
      available := fun hne => check_organization_ok horganization hne
      priority := priority_of_ok hpriority
      threshold := rfl
      organization := rfl
      stream := rfl }

end aristote_dispatcher.middleware
