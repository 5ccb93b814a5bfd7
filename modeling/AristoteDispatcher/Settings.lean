-- The settings of a consumer (consumer/settings.py, constants.py) as its code
-- reads them after they are accepted, the servers that they name, and the
-- exceptions that the consumer's code can raise.
import AristoteDispatcher.Lib.PyFloat

open pyfloat

namespace aristote_dispatcher.settings

/-- The exceptions, ours and Python's. -/
inductive Exn
  | ServerNotFound
  | PercentileComputationError
  | UnknownLocalPriorityModel
  | AttributeError
  | KeyError
  | IndexError
  | TypeError
  | ValueError
  | UnicodeDecodeError
  | JSONDecodeError
  | ValidationError
  deriving DecidableEq, Repr

/-- The declared type of a token. -/
abbrev ServerToken := Option String

/-- A frozen dataclass, so also a dict key. Nothing checks the types that it declares, so they
are parameters, and stand for the declared ones where they are not given. -/
structure VLLMServer (T : Type := ServerToken) (O : Type := String) (L : Type := Int)
    (U : Type := String) where
  url : U
  token : T
  organization : O
  max_parallel_requests : L
  deriving DecidableEq, Repr

-- the instance of the declared types, which is too deep to be found in a larger type
instance : DecidableEq VLLMServer := inferInstance

inductive RoutingStrategy
  | least_busy
  | round_robin
  deriving DecidableEq, Repr

inductive PriorityHandler
  | ignore
  | vllm
  deriving DecidableEq, Repr

inductive QualityOfServicePolicy
  | warning_log
  | performance_based_requeue
  | parallel_requests_threshold_requeue
  deriving DecidableEq, Repr

def RoutingStrategy.name : RoutingStrategy → String
  | .least_busy => "least-busy"
  | .round_robin => "round-robin"

/-- The validator of the threshold: 0.1 by default with least-busy, and none at all with
round-robin. -/
def validate_threshold (strategy : RoutingStrategy) (threshold : Option PyFloat) :
    Option PyFloat :=
  match strategy with
  | .least_busy => some (threshold.getD (.fin (1 / 10)))
  | .round_robin => none

/-- The settings after validation. `VLLM_SERVERS` comes from the members of a JSON object,
so no url stands twice. -/
structure Settings (T : Type := ServerToken) (O : Type := String) (L : Type := Int)
    (U : Type := String) where
  MODEL : String
  ROUTING_STRATEGY : RoutingStrategy
  PRIORITY_HANDLER : PriorityHandler
  QUALITY_OF_SERVICE_POLICY : QualityOfServicePolicy
  BEST_PRIORITY : Int
  TIME_TO_FIRST_TOKEN_THRESHOLD : Option PyFloat
  METRICS_REFRESH_RATE : Nat
  REFRESH_COUNT_PER_WINDOW : Nat
  DEFAULT_MAX_PARALLEL_REQUESTS : Int
  VLLM_SERVERS : List (VLLMServer T O L U)
  refresh_count_pos : 1 ≤ REFRESH_COUNT_PER_WINDOW
  threshold_validated :
    TIME_TO_FIRST_TOKEN_THRESHOLD =
      validate_threshold ROUTING_STRATEGY TIME_TO_FIRST_TOKEN_THRESHOLD
  urls_nodup : (VLLM_SERVERS.map (·.url)).Nodup

/-- The attributes that the class `Settings` declares. -/
def attributes : List String :=
  ["LOG_LEVEL", "MODEL", "RABBITMQ_HOST", "RABBITMQ_PASSWORD", "RABBITMQ_USER", "RABBITMQ_PORT",
   "RPC_QUEUE_EXPIRATION", "RPC_MESSAGE_EXPIRATION", "RPC_MAX_PRIORITY", "USE_PROBES",
   "PROBE_PORT", "DEFAULT_VLLM_SERVERS", "MAX_VLLM_CONNECTION_ATTEMPTS", "INITIAL_METRICS_WAIT",
   "ROUTING_STRATEGY", "PRIORITY_HANDLER", "BEST_PRIORITY", "TIME_TO_FIRST_TOKEN_THRESHOLD",
   "METRICS_REFRESH_RATE", "REFRESH_COUNT_PER_WINDOW", "PING_REFRESH_RATE",
   "QUALITY_OF_SERVICE_POLICY", "DEFAULT_MAX_PARALLEL_REQUESTS",
   "VLLM_TREATMENT_TIMEOUT_SECONDS", "VLLM_SERVERS", "RABBITMQ_URL", "validate_threshold"]

/-- `settings.<name>` for a value that is only logged. -/
def getattr (name : String) : Except Exn Unit :=
  if name ∈ attributes then .ok () else .error .AttributeError

theorem getattr_MAX_PARALLEL_REQUESTS :
    getattr "MAX_PARALLEL_REQUESTS" = .error .AttributeError := by
  decide

variable {T O L U : Type}

/-- With least-busy there is a threshold, whatever the environment set. -/
theorem threshold_of_least_busy (cfg : Settings T O L U) (h : cfg.ROUTING_STRATEGY = .least_busy) :
    ∃ t, cfg.TIME_TO_FIRST_TOKEN_THRESHOLD = some t := by
  have hv := cfg.threshold_validated
  rw [h] at hv
  exact ⟨_, hv⟩

/-- Two configured servers with one url are one server. -/
theorem server_eq_of_url (cfg : Settings T O L U) {s t : VLLMServer T O L U}
    (hs : s ∈ cfg.VLLM_SERVERS) (ht : t ∈ cfg.VLLM_SERVERS) (h : s.url = t.url) : s = t :=
  List.inj_on_of_nodup_map cfg.urls_nodup hs ht h

/-- The default is valid. -/
theorem validate_threshold_default (strategy : RoutingStrategy) :
    validate_threshold strategy none =
      validate_threshold strategy (validate_threshold strategy none) := by
  cases strategy <;> rfl

/-- Settings with one server, which takes one request at a time. -/
def oneServerSettings (strategy : RoutingStrategy) (policy : QualityOfServicePolicy) :
    Settings where
  MODEL := "model"
  ROUTING_STRATEGY := strategy
  PRIORITY_HANDLER := .ignore
  QUALITY_OF_SERVICE_POLICY := policy
  BEST_PRIORITY := 5
  TIME_TO_FIRST_TOKEN_THRESHOLD := validate_threshold strategy none
  METRICS_REFRESH_RATE := 1
  REFRESH_COUNT_PER_WINDOW := 1
  DEFAULT_MAX_PARALLEL_REQUESTS := 1
  VLLM_SERVERS := [⟨"http://a", none, "org", 1⟩]
  refresh_count_pos := Nat.one_pos
  threshold_validated := validate_threshold_default strategy
  urls_nodup := by decide

theorem nodup_two_urls : (([⟨"http://a", none, "org", 1⟩, ⟨"http://b", none, "org", 1⟩] :
    List VLLMServer).map (·.url)).Nodup := by
  decide

/-- Settings with two servers of one organization. -/
def twoServerSettings (strategy : RoutingStrategy) (policy : QualityOfServicePolicy) :
    Settings where
  __ := oneServerSettings strategy policy
  VLLM_SERVERS := [⟨"http://a", none, "org", 1⟩, ⟨"http://b", none, "org", 1⟩]
  urls_nodup := nodup_two_urls

end aristote_dispatcher.settings
