-- One delivery of a consumer whose servers come from accepted settings. These check that a
-- url is one of http and that there is an organization, and no type: beside a percentile and
-- the performance policy, a limit that is no number, a field that pydantic refuses and an
-- organization that is no text raise.
import AristoteDispatcher.Settlement

open pydict pyfloat json runs
open aristote_dispatcher.settings aristote_dispatcher.messages
open aristote_dispatcher.policies aristote_dispatcher.strategy

namespace aristote_dispatcher.rpc_server

/-- The settings, with any values in the fields of the servers. -/
abbrev AcceptedSettings := Settings Scalar Scalar Scalar PyStr

/-- A private request for a server of one place, served and counted. -/
def served : List (Event PyStr) :=
  [.deliver (.server_queue 0) (privateCall "1") 0, .publish 0, .ack 0, .resume 0]

/-- One server with that token, of an organization and with a limit of the declared types. -/
def acceptedServer (token : Scalar) : AcceptedServer :=
  ⟨.ofString "http://a", token, .str (.ofString "org"), .int 1⟩

def acceptedSettings (strategy : RoutingStrategy) (policy : QualityOfServicePolicy)
    (token : Scalar) : AcceptedSettings where
  MODEL := "model"
  ROUTING_STRATEGY := strategy
  PRIORITY_HANDLER := .ignore
  QUALITY_OF_SERVICE_POLICY := policy
  BEST_PRIORITY := 5
  TIME_TO_FIRST_TOKEN_THRESHOLD := validate_threshold strategy none
  METRICS_REFRESH_RATE := 1
  REFRESH_COUNT_PER_WINDOW := 1
  DEFAULT_MAX_PARALLEL_REQUESTS := 1
  VLLM_SERVERS := [acceptedServer token]
  refresh_count_pos := Nat.one_pos
  threshold_validated := validate_threshold_default strategy
  urls_nodup := List.nodup_singleton _

/-- Pydantic on None, texts and ints. -/
@[reducible] def validation : Validation where
  float_repr _ := "0.5"
  validate_str
    | .none => some none
    | .str s => s.toString?.map some
    | _ => none
  validate_int
    | .int i => some i
    | _ => none

section

attribute [local instance] validation

/-- Round robin over the one server. -/
abbrev tokenSettings (token : Scalar) : AcceptedSettings :=
  acceptedSettings .round_robin .parallel_requests_threshold_requeue token

end

end aristote_dispatcher.rpc_server
