-- No request is dispatched beyond the rights of its caller: it names the token of
-- a user, and the call stays within what that user may ask for. A call with an int
-- goes on as the handler of `Proxy`.
import AristoteDispatcher.Middleware

open json pytext
open aristote_dispatcher.messages

namespace aristote_dispatcher.middleware

variable (repr : Json → String)

/-- Dispatched or passed on: the request is past the authorization. -/
def Outcome.Passes : Outcome → Prop
  | .call_next | .call _ => True
  | .plain .. | .rejected _ => False

/-- What the user may ask for. The priority is bounded where the body has an integer, or none. -/
structure Within (env : Environment) (user : User) (body : ByteArray)
    (arguments : CallArguments) : Prop where
  threshold : arguments.threshold = user.threshold.getD 0
  organization : arguments.organization = user.organization
  mode : arguments.routing_mode ∈ routing_modes
  model : env.Lists arguments.model
  available : arguments.routing_mode ≠ "any" → Available env user arguments.model
  priority : ∀ members, loads_bytes body = .ok (.obj members) →
    (∀ v, members.lookup (.ofString "priority") = some v → (integer? v).isSome) →
    ∃ p, integer? arguments.priority = some p ∧ p ≤ user.priority

variable {repr} {env : Environment} {request : HTTPRequest} {user : User} {d : Dispatched}

theorem integer_of_members (user : User) {members : List (PyStr × Json)}
    (h : ∀ v, members.lookup (.ofString "priority") = some v → (integer? v).isSome) :
    ∃ i, integer? (getOr members "priority" (.int user.priority)) = some i := by
  unfold getOr
  cases hlookup : members.lookup (.ofString "priority") with
  | none => exact ⟨user.priority, rfl⟩
  | some v => exact Option.isSome_iff_exists.mp (h v hlookup)

theorem within_of_checked {body : ByteArray} (h : Checked env user body d) :
    Within env user body d.arguments where
  threshold := h.threshold
  organization := h.organization
  mode := h.mode
  model := h.model
  available := h.available
  priority := by
    intro members hbody hinteger
    cases h.json_body.symm.trans hbody
    obtain ⟨i, hi⟩ := integer_of_members user hinteger
    obtain ⟨v, hv, hmin⟩ := least_integer hi user.priority
    cases h.priority.symm.trans hv
    exact ⟨min i user.priority, hmin, min_le_right _ _⟩

/-- The request comes to the body of an authorized user, or is passed on. -/
theorem authorized_of_passes (h : (proxy repr env request).Passes) :
    ∃ user, authorize env.users request = .ok user ∧
      ∀ d, proxy repr env request = .call d → dispatch repr env user request.body = .ok d := by
  unfold proxy at h ⊢
  split at h
  · exact h.elim
  · rename_i hlive
    rw [if_neg hlive]
    split at h
    · split at h <;> exact h.elim
    · rename_i hready
      rw [if_neg hready]
      split at h
      · exact h.elim
      · rename_i user huser
        refine ⟨user, huser, ?_⟩
        intro d hd
        split at hd
        · cases hd
        · split at hd
          · cases hd
          · rename_i hdispatch
            cases hd
            exact hdispatch

theorem dispatch_of_call (h : proxy repr env request = .call d) :
    ∃ user, authorize env.users request = .ok user ∧
      dispatch repr env user request.body = .ok d := by
  obtain ⟨user, huser, hcall⟩ := authorized_of_passes (by rw [h]; trivial)
  exact ⟨user, huser, hcall d h⟩

/-- For every request, whatever its method, path, headers and body. -/
theorem calls_stay_within_the_rights_of_their_caller (repr : Json → String) (env : Environment)
    (request : HTTPRequest) (h : (proxy repr env request).Passes) :
    ∃ authorization, ∃ user ∈ env.users,
      request.header "authorization" = some authorization ∧
      split authorization = ["Bearer", user.token] ∧
      ∀ d, proxy repr env request = .call d → Within env user request.body d.arguments := by
  obtain ⟨user, huser, hcall⟩ := authorized_of_passes h
  obtain ⟨authorization, hheader, hsplit, hmem⟩ := authorize_ok huser
  refine ⟨authorization, user, hmem, hheader, hsplit, ?_⟩
  intro d hd
  exact within_of_checked (checked_of_dispatch repr (hcall d hd))

/-! ## A call within the rights of a user -/

def ana : User where
  name := "ana"
  organization := some "o"
  threshold := some 3
  client_type := none
  token := "abc"
  priority := 5
  default_routing_mode := .private_first

/-- One user and one model, with its organization. -/
def oneModel : Environment where
  users := [ana]
  models := ["m"]
  bindings := some ["m"]
  DEFAULT_MODEL_HOST_MAPPING := some "\x7b\"m\": [\"o\"]\x7d"
  connected := true

/-- A request of that user. -/
def post (body : String) : HTTPRequest where
  method := "POST"
  path := "/v1/chat/completions"
  headers := [("authorization", "Bearer abc")]
  body := body.toUTF8

set_option maxRecDepth 10000 in
/-- The body asks for more than the user's priority. -/
theorem a_call_stays_within_the_rights_of_its_caller :
    ∃ d, proxy (fun _ => "") oneModel (post "\x7b\"model\": \"m\", \"priority\": 9\x7d") =
        .call d ∧ Within oneModel ana (post "\x7b\"model\": \"m\", \"priority\": 9\x7d").body
          d.arguments := by
  obtain ⟨_, user, huser, _, _, hcall⟩ := calls_stay_within_the_rights_of_their_caller
    (fun _ => "") oneModel (post "\x7b\"model\": \"m\", \"priority\": 9\x7d") trivial
  cases List.mem_singleton.mp huser
  exact ⟨_, rfl, hcall _ rfl⟩

/-! ## The handler that goes on -/

/-- The request of a call with an int, as the handler of `Proxy` has it. -/
def Dispatched.handed (d : Dispatched) (request : HTTPRequest) (priority : Int) :
    proxy.Request where
  method := request.method
  path := request.path
  content_type := request.header "content-type"
  body := request.body
  json_body := d.json_body
  model := d.arguments.model
  routing_mode := d.arguments.routing_mode
  priority := priority
  stream := d.stream

/-- The handler calls with the same arguments. -/
theorem call_arguments_handed {body : ByteArray} (h : Checked env user body d)
    (request : HTTPRequest) (priority : Int) :
    proxy.call_arguments user.toUser (d.handed request priority) =
      ⟨priority, d.arguments.threshold, d.arguments.model,
        d.arguments.organization.getD "None", d.arguments.routing_mode⟩ := by
  rw [h.threshold, h.organization]
  rfl

end aristote_dispatcher.middleware
