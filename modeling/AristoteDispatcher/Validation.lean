-- The checks as a validation of the body: which bodies end in a response with a
-- 4xx status or in a call with good arguments. `After` says what holds when a
-- check goes on, if it does not end the request with such a response.
import AristoteDispatcher.Rights

open pyfloat json
open aristote_dispatcher.messages
open aristote_dispatcher.rpc_server (isStr isStr_iff)

namespace aristote_dispatcher.middleware

/-! ## A check that does not raise -/

/-- A response that blames the client. -/
def Rejection.Blames : Rejection → Prop
  | .response r => 400 ≤ r.status_code ∧ r.status_code < 500
  | .raised _ => False

def After {α : Type} (x : Check α) (P : α → Prop) : Prop :=
  match x with
  | .error rejection => rejection.Blames
  | .ok a => P a

theorem after_bind {α β : Type} {x : Check α} {f : α → Check β} {P : β → Prop} :
    After (x >>= f) P ↔ After x fun a => After (f a) P := by
  cases x <;> rfl

theorem blames_404 (content : List (String × String)) :
    (Rejection.response ⟨content, 404⟩).Blames := by
  simp [Rejection.Blames]

theorem blames_400 (content : List (String × String)) :
    (Rejection.response ⟨content, 400⟩).Blames := by
  simp [Rejection.Blames]

/-! ## Each check -/

variable {repr : Json → String} {env : Environment} {user : User}
variable {mapping : List (PyStr × List PyStr)}

theorem after_parse {body : ByteArray} {P : Json → Prop} :
    After (parse body) P ↔ loads_bytes body ≠ .error .UnicodeDecodeError ∧
      ∀ json_body, loads_bytes body = .ok json_body → P json_body := by
  unfold parse
  cases hloads : loads_bytes body with
  | ok json_body => simp [After]
  | error e =>
    cases e with
    | JSONDecodeError => simp [After, blames_400]
    | UnicodeDecodeError => simp [After, Rejection.Blames]

theorem after_model_of {json_body : Json} {P : List (PyStr × Json) × Json → Prop} :
    After (model_of json_body) P ↔ ∃ members model, json_body = .obj members ∧
      members.lookup (.ofString "model") = some model ∧
      (truthy model = true → P (members, model)) := by
  cases json_body with
  | obj members =>
    unfold model_of
    cases hmodel : members.lookup (.ofString "model") with
    | none => simp [After, Rejection.Blames, hmodel]
    | some model =>
      by_cases htruthy : truthy model = true
      · simp [After, hmodel, htruthy]
      · simp [After, hmodel, htruthy, blames_404]
  | _ => simp [model_of, After, Rejection.Blames]

theorem lists_of_bindings {destinations : List String} (h : env.bindings = some destinations)
    {model : String} :
    env.Lists model ↔ model ∈ env.models ∨ model ∈ get_models destinations := by
  simp [Environment.Lists, h]

theorem find_model_none {models : List String} {value : Json}
    (h : models.find? (fun m => isStr value m) = none) (model : String)
    (hvalue : value = .str (.ofString model)) : model ∉ models := by
  intro hmem
  exact List.find?_eq_none.mp h model hmem (isStr_iff.mpr hvalue)

theorem after_known_model {destinations : List String} (h : env.bindings = some destinations)
    {value : Json} {P : String → Prop} :
    After (known_model env value) P ↔ hashable value = true ∧
      ∀ model, value = .str (.ofString model) → env.Lists model → P model := by
  -- a value names one model at most
  have hone : ∀ {model model'}, value = .str (.ofString model) → value = .str (.ofString model') →
      model = model' := fun h h' => PyStr.ofString_inj.mp (Json.str.inj (h.symm.trans h'))
  have hfound : ∀ {model}, value = .str (.ofString model) → env.Lists model →
      (P model ↔ ∀ m, value = .str (.ofString m) → env.Lists m → P m) := by
    intro model hvalue hlists
    exact ⟨fun hP m hm _ => hone hvalue hm ▸ hP, fun hall => hall model hvalue hlists⟩
  unfold known_model get_model_by_id
  cases hhash : hashable value with
  | false => simp [After, Rejection.Blames]
  | true =>
    simp only [Bool.true_eq_false, if_false, true_and]
    cases hmemory : env.models.find? fun m => isStr value m with
    | some model =>
      obtain ⟨hmem, hvalue⟩ := found_model hmemory
      exact hfound hvalue (.inl hmem)
    | none =>
      simp only [h]
      cases hlisted : (get_models destinations).find? fun m => isStr value m with
      | some model =>
        obtain ⟨hmem, hvalue⟩ := found_model hlisted
        exact hfound hvalue (.inr ⟨destinations, h, hmem⟩)
      | none =>
        simp only [After, proxy.unknown_model, blames_404, true_iff]
        intro model hvalue hlists
        rcases (lists_of_bindings h).mp hlists with hmem | hmem
        · exact absurd hmem (find_model_none hmemory model hvalue)
        · exact absurd hmem (find_model_none hlisted model hvalue)

/-- The value is no string that cannot be encoded. -/
def Encodable (value : Json) : Prop := ∀ s, value = .str s → s.toString? ≠ none

theorem format?_ne_none (repr : Json → String) {value : Json} :
    format? repr value ≠ none ↔ Encodable value := by
  cases value with
  | bool b => cases b <;> simp [format?, Encodable]
  | _ => simp [format?, Encodable]

theorem after_checked_mode {value : Json} {P : String → Prop} :
    After (checked_mode repr value) P ↔ Encodable value ∧
      ∀ mode ∈ routing_modes, value = .str (.ofString mode) → P mode := by
  unfold checked_mode
  cases hfound : routing_modes.find? fun mode => isStr value mode with
  | some mode =>
    obtain ⟨hmem, rfl⟩ := found_model hfound
    have hencodable : Encodable (.str (.ofString mode)) := by
      rintro s ⟨⟩
      simp [PyStr.toString?_ofString]
    simp only [After, hencodable, true_and, Json.str.injEq, PyStr.ofString_inj]
    constructor
    · rintro hP _ _ rfl
      exact hP
    · intro hall
      exact hall mode hmem rfl
  | none =>
    have hnone : ∀ mode ∈ routing_modes, value = .str (.ofString mode) → P mode :=
      fun mode hmem hvalue => absurd hmem (find_model_none hfound mode hvalue)
    rw [← format?_ne_none repr]
    cases format? repr value with
    | none => simp [After, Rejection.Blames]
    | some text => simpa [After, blames_400] using hnone

theorem after_check_organization
    (hm : MODEL_HOST_MAPPING env.DEFAULT_MODEL_HOST_MAPPING = .ok mapping)
    {model routing_mode : String} {P : Unit → Prop} :
    After (check_organization env user model routing_mode) P ↔
      (routing_mode ≠ "any" → (mapping.lookup (.ofString model)).isSome) ∧
      (routing_mode = "any" ∨ Available env user model → P ()) := by
  have havailable : Available env user model ↔
      ∃ organizations, mapping.lookup (.ofString model) = some organizations ∧
        user.among organizations = true := by
    simp [Available, hm]
  unfold check_organization
  by_cases hany : routing_mode = "any"
  · simp [hany, After]
  · simp only [hm, havailable, hany, false_or, ne_eq, not_false_eq_true,
      true_implies]
    cases mapping.lookup (.ofString model) with
    | none => simp [After, Rejection.Blames]
    | some organizations =>
      cases hamong : user.among organizations with
      | true => simp [After, hamong]
      | false => simp [After, hamong, not_available, blames_400]

/-- The priorities that make a good call: none, an int that is not negative, or a float that is
above that of the user once it is rounded. -/
def PriorityFits (user : User) (members : List (PyStr × Json)) : Prop :=
  match members.lookup (.ofString "priority") with
  | none | some (.bool _) => True
  | some (.int i) => 0 ≤ i
  | some (.float f) => PyFloat.lt (.fin user.priority) f.rounded = true
  | some _ => False

/-- An int between 0 and the priority of the user. -/
def InRange (user : User) (priority : Json) : Prop :=
  ∃ p, integer? priority = some p ∧ 0 ≤ p ∧ p ≤ user.priority

theorem least_inRange_of_integer (hu : 0 ≤ user.priority) {value : Json} {i : Int}
    (hi : integer? value = some i) :
    (∃ v, least value user.priority = some v ∧ InRange user v) ↔ 0 ≤ i := by
  obtain ⟨v, hv, hmin⟩ := least_integer hi user.priority
  simp only [hv, Option.some.injEq, exists_eq_left', InRange, hmin]
  omega

theorem after_priority_of (hu : 0 ≤ user.priority) {members : List (PyStr × Json)} :
    After (priority_of user members) (InRange user) ↔ PriorityFits user members := by
  have hleast : After (priority_of user members) (InRange user) ↔
      ∃ v, least (getOr members "priority" (.int user.priority)) user.priority = some v ∧
        InRange user v := by
    unfold priority_of
    cases least (getOr members "priority" (.int user.priority)) user.priority with
    | none => simp [After, Rejection.Blames]
    | some v => simp [After]
  have hint : ∀ i : Int, integer? (.int i) = some i := fun i => rfl
  have hbool : ∀ b : Bool, integer? (.bool b) = some (if b then 1 else 0) := fun b => rfl
  rw [hleast]
  unfold getOr PriorityFits
  cases members.lookup (.ofString "priority") with
  | none => simpa using (least_inRange_of_integer hu (hint user.priority)).mpr hu
  | some value =>
    cases value with
    | int i => simpa using least_inRange_of_integer hu (hint i)
    | bool b =>
      have hb := least_inRange_of_integer hu (hbool b)
      cases b <;> simpa using hb
    | float f =>
      cases hlt : PyFloat.lt (.fin user.priority) f.rounded with
      | true => simp [least, number?, hlt, InRange, integer?, hu]
      | false => simp [least, number?, hlt, InRange, integer?]
    | _ => simp [least, number?]

/-- 5.0000000000000001 is read as 5.0, which is not above 5. -/
example : ¬PriorityFits ana [(.ofString "priority", .float (.fin (5 + 1 / 10 ^ 16)))] := by
  change ¬PyFloat.lt (.fin (5 : Int)) (PyFloat.fin (5 + 1 / 10 ^ 16)).rounded = true
  decide +kernel

/-! ## The bodies that the checks take -/

/-- The body asks for a listed model. -/
structure Asks (env : Environment) (body : ByteArray) (members : List (PyStr × Json))
    (model : String) : Prop where
  json_body : loads_bytes body = .ok (.obj members)
  requested : members.lookup (.ofString "model") = some (.str (.ofString model))
  nonempty : model ≠ ""
  listed : env.Lists model

/-- The value of the routing mode, or the default of the user. -/
def askedMode (user : User) (members : List (PyStr × Json)) : Json :=
  getOr members "routing-mode" (.str (.ofString user.default_routing_mode.value))

/-- The bodies that the checks are written for. Each field names what they leave out. -/
structure Foreseen (env : Environment) (mapping : List (PyStr × List PyStr)) (user : User)
    (body : ByteArray) : Prop where
  decodes : loads_bytes body ≠ .error .UnicodeDecodeError
  has_model : ∀ json_body, loads_bytes body = .ok json_body →
    ∃ members model, json_body = .obj members ∧
      members.lookup (.ofString "model") = some model ∧
      (truthy model = true → hashable model = true)
  encodable_mode : ∀ members model, Asks env body members model →
    Encodable (askedMode user members)
  mapped : ∀ members model, Asks env body members model →
    ∀ mode ∈ routing_modes, askedMode user members = .str (.ofString mode) → mode ≠ "any" →
      (mapping.lookup (.ofString model)).isSome
  priority_fits : ∀ members model, Asks env body members model →
    ∀ mode ∈ routing_modes, askedMode user members = .str (.ofString mode) →
      mode = "any" ∨ Available env user model → PriorityFits user members

/-- A response with a 4xx status, or a call for a listed model, with a routing mode and a
priority between 0 and that of the user. -/
def Outcome.Settles (env : Environment) (user : User) : Outcome → Prop
  | .rejected rejection => rejection.Blames
  | .call d => env.Lists d.arguments.model ∧ d.arguments.routing_mode ∈ routing_modes ∧
      InRange user d.arguments.priority
  | .plain .. | .call_next => False

theorem truthy_ofString {model : String} :
    truthy (.str (.ofString model)) = true ↔ model ≠ "" := by
  simp [truthy, PyStr.ofString]

/-- The checks one after the other. -/
theorem after_dispatch {destinations : List String} (hb : env.bindings = some destinations)
    (hm : MODEL_HOST_MAPPING env.DEFAULT_MODEL_HOST_MAPPING = .ok mapping)
    {body : ByteArray} {P : Dispatched → Prop} :
    After (dispatch repr env user body) P ↔
      loads_bytes body ≠ .error .UnicodeDecodeError ∧
      ∀ json_body, loads_bytes body = .ok json_body → ∃ members value, json_body = .obj members ∧
        members.lookup (.ofString "model") = some value ∧ (truthy value = true →
          hashable value = true ∧
          ∀ model, value = .str (.ofString model) → env.Lists model →
            Encodable (askedMode user members) ∧
            ∀ mode ∈ routing_modes, askedMode user members = .str (.ofString mode) →
              (mode ≠ "any" → (mapping.lookup (.ofString model)).isSome) ∧
              (mode = "any" ∨ Available env user model →
                After (priority_of user members) fun priority =>
                  P ⟨user, ⟨priority, user.threshold.getD 0, model, user.organization, mode⟩,
                    members, truthy (getOr members "stream" (.bool true))⟩)) := by
  unfold dispatch
  simp only [after_bind, after_parse, after_model_of, after_known_model hb, after_checked_mode,
    after_check_organization hm]
  rfl

theorem settles_iff_after {request : HTTPRequest} (hmethod : request.method ≠ "GET")
    (huser : authorize env.users request = .ok user) :
    (proxy repr env request).Settles env user ↔
      After (dispatch repr env user request.body) fun d =>
        (Outcome.call d).Settles env user := by
  unfold proxy
  simp only [hmethod, false_and, if_false, huser]
  cases dispatch repr env user request.body with
  | error rejection => rfl
  | ok d => rfl

/-- A call that comes this far is good if its priority is. -/
theorem after_settles (hu : 0 ≤ user.priority) {members : List (PyStr × Json)}
    {model mode : String} {stream : Bool} (hlists : env.Lists model)
    (hmode : mode ∈ routing_modes) :
    (After (priority_of user members) fun priority =>
      (Outcome.call ⟨user, ⟨priority, user.threshold.getD 0, model, user.organization, mode⟩,
        members, stream⟩).Settles env user) ↔ PriorityFits user members := by
  rw [← after_priority_of hu]
  unfold After
  cases priority_of user members with
  | error rejection => rfl
  | ok priority => simp [Outcome.Settles, hlists, hmode]

/-- The checks end in a 4xx response or in a good call exactly on the bodies that they are
written for. -/
theorem the_checks_settle_a_body_iff_it_is_foreseen (repr : Json → String) (env : Environment)
    (request : HTTPRequest) (user : User) (mapping : List (PyStr × List PyStr))
    (hmethod : request.method ≠ "GET") (huser : authorize env.users request = .ok user)
    (hu : 0 ≤ user.priority ∧ user.priority ≤ 255) (hb : env.bindings.isSome)
    (hm : MODEL_HOST_MAPPING env.DEFAULT_MODEL_HOST_MAPPING = .ok mapping) :
    (proxy repr env request).Settles env user ↔ Foreseen env mapping user request.body := by
  obtain ⟨destinations, hb⟩ := Option.isSome_iff_exists.mp hb
  rw [settles_iff_after hmethod huser, after_dispatch hb hm]
  constructor
  · rintro ⟨hdecodes, hall⟩
    have hasks : ∀ members model, Asks env request.body members model →
        Encodable (askedMode user members) ∧
        ∀ mode ∈ routing_modes, askedMode user members = .str (.ofString mode) →
          (mode ≠ "any" → (mapping.lookup (.ofString model)).isSome) ∧
          (mode = "any" ∨ Available env user model → PriorityFits user members) := by
      intro members model h
      obtain ⟨_, _, ⟨⟩, hrequested, hnext⟩ := hall _ h.json_body
      cases h.requested.symm.trans hrequested
      obtain ⟨_, hlisted⟩ := hnext (truthy_ofString.mpr h.nonempty)
      obtain ⟨hencodable, hmodes⟩ := hlisted model rfl h.listed
      refine ⟨hencodable, ?_⟩
      intro mode hmem hmode
      obtain ⟨hmapped, hpriority⟩ := hmodes mode hmem hmode
      exact ⟨hmapped, fun havailable =>
        (after_settles hu.1 h.listed hmem).mp (hpriority havailable)⟩
    exact
      { decodes := hdecodes
        has_model := by
          intro json_body hbody
          obtain ⟨members, value, hmembers, hvalue, hnext⟩ := hall json_body hbody
          exact ⟨members, value, hmembers, hvalue, fun ht => (hnext ht).1⟩
        encodable_mode := fun members model h => (hasks members model h).1
        mapped := fun members model h mode hmem hmode =>
          ((hasks members model h).2 mode hmem hmode).1
        priority_fits := fun members model h mode hmem hmode =>
          ((hasks members model h).2 mode hmem hmode).2 }
  · intro h
    refine ⟨h.decodes, ?_⟩
    intro json_body hbody
    obtain ⟨members, value, rfl, hvalue, hhashable⟩ := h.has_model json_body hbody
    refine ⟨members, value, rfl, hvalue, fun ht => ⟨hhashable ht, ?_⟩⟩
    rintro model rfl hlisted
    have hasks : Asks env request.body members model :=
      ⟨hbody, hvalue, truthy_ofString.mp ht, hlisted⟩
    refine ⟨h.encodable_mode members model hasks, ?_⟩
    intro mode hmem hmode
    refine ⟨h.mapped members model hasks mode hmem hmode, fun havailable => ?_⟩
    exact (after_settles hu.1 hlisted hmem).mpr
      (h.priority_fits members model hasks mode hmem hmode havailable)

set_option maxRecDepth 10000 in
/-- A body that names only the model is one of them. -/
theorem a_body_with_a_model_is_foreseen :
    Foreseen oneModel [(.ofString "m", [.ofString "o"])] ana
      (post "\x7b\"model\": \"m\"\x7d").body :=
  (the_checks_settle_a_body_iff_it_is_foreseen (fun _ => "") oneModel
    (post "\x7b\"model\": \"m\"\x7d") ana [(.ofString "m", [.ofString "o"])] (by decide) rfl
    (by decide) rfl rfl).mp ⟨.inl (by decide), by decide, 5, rfl, by decide, by decide⟩

/-- The same user and model, with no organization for it. -/
def unmapped : Environment := { oneModel with DEFAULT_MODEL_HOST_MAPPING := some "\x7b\x7d" }

/-- A request with bytes that are no text. -/
def postBytes (body : ByteArray) : HTTPRequest := { post "" with body := body }

set_option maxRecDepth 10000 in
/-- An object without the model, bytes that are no text, and a model without a member in the
mapping raise; a negative priority goes into the call. -/
theorem the_checks_do_not_settle_every_body :
    (∀ body, authorize oneModel.users (postBytes body) = .ok ana) ∧
    MODEL_HOST_MAPPING oneModel.DEFAULT_MODEL_HOST_MAPPING =
      .ok [(.ofString "m", [.ofString "o"])] ∧
    MODEL_HOST_MAPPING unmapped.DEFAULT_MODEL_HOST_MAPPING = .ok [] ∧
    ¬ (proxy (fun _ => "") oneModel (post "\x7b\x7d")).Settles oneModel ana ∧
    ¬ (proxy (fun _ => "") oneModel (postBytes ⟨#[0xff]⟩)).Settles oneModel ana ∧
    ¬ (proxy (fun _ => "") unmapped (post "\x7b\"model\": \"m\"\x7d")).Settles unmapped ana ∧
    ¬ (proxy (fun _ => "") oneModel
      (post "\x7b\"model\": \"m\", \"priority\": -1\x7d")).Settles oneModel ana := by
  refine ⟨fun _ => rfl, rfl, rfl, ?_, ?_, ?_, ?_⟩
  · exact fun h => h
  · exact fun h => h
  · exact fun h => h
  · rintro ⟨_, _, p, hp, hle, _⟩
    cases hp
    exact absurd hle (by decide)

end aristote_dispatcher.middleware
