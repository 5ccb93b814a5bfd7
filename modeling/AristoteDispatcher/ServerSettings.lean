-- The servers of a consumer as the variable VLLM_SERVERS configures them (consumer/settings.py),
-- and what the callbacks do with each of them. Python checks no annotation, so a field holds
-- whatever value the JSON text gives.
import AristoteDispatcher.Lib.JsonValid
import AristoteDispatcher.Lib.Traverse
import AristoteDispatcher.Lib.Url
import AristoteDispatcher.Middleware
import AristoteDispatcher.Settlement

open pyfloat json urllib traverse
open aristote_dispatcher.middleware (hashable number?)
open aristote_dispatcher.rpc_server (Scalar AcceptedServer Validation Valid)

namespace aristote_dispatcher.server_settings

/-- A `VLLMServer` with the values of its config. -/
structure VLLMServer where
  url : PyStr
  token : Json
  organization : Json
  max_parallel_requests : Json

/-- What the property reads of the settings. -/
structure Settings where
  DEFAULT_VLLM_SERVERS : Option PyStr
  DEFAULT_MAX_PARALLEL_REQUESTS : Int

/-- A ValueError of `urlparse` has a text of its own. -/
inductive Exn
  | ValueError (message : Option PyStr)
  | AttributeError
  | TypeError
  | ValidationError
  deriving DecidableEq

/-! ## The property -/

/-- `f"{type(value)}"`. -/
def type_text : Json → String
  | .null => "<class 'NoneType'>"
  | .bool _ => "<class 'bool'>"
  | .int _ => "<class 'int'>"
  | .float _ => "<class 'float'>"
  | .str _ => "<class 'str'>"
  | .arr _ => "<class 'list'>"
  | .obj _ => "<class 'dict'>"

/-- A message with the url in it. -/
def message (before : String) (url : PyStr) (behind : String) : Option PyStr :=
  some ⟨(PyStr.ofString before).codes ++ (url.codes ++ (PyStr.ofString behind).codes)⟩

/-- `value == ""`. -/
def is_empty_text : Json → Bool
  | .str s => s.codes = []
  | _ => false

section

-- the parts of `urlparse` and of pydantic that are not written here
variable (normalize : List Nat → List Nat) (is_ipv6 : List Nat → Bool)
  (validate_str : Json → Option (Option PyStr)) (validate_int : Json → Option Int)

def is_http_url (parsed_url : SplitResult) : Bool :=
  (codes "http").isPrefixOf parsed_url.scheme && parsed_url.netloc ≠ []

/-- One turn of the loop. -/
def server_of (settings : Settings) (url : PyStr) (config : Json) : Except Exn VLLMServer :=
  match config with
  | .obj config =>
    match urlsplit normalize is_ipv6 url.codes with
    | none => .error (.ValueError none)
    | some parsed_url =>
      if is_http_url parsed_url = false then
        .error (.ValueError (message
          "LLM inference server key definition must be a valid http url, got: " url ""))
      else
        let organization := getOr config "organization" (.str (.ofString ""))
        if is_empty_text organization then
          .error (.ValueError (message "No organization found in LLM server " url " configuration"))
        else .ok
          { url := url
            token := getOr config "token" .null
            organization := organization
            max_parallel_requests := getOr config "max_parallel_requests"
              (.int settings.DEFAULT_MAX_PARALLEL_REQUESTS) }
  | config => .error (.ValueError (message
      ("Each VLLM server must be a JSON object, got " ++ type_text config ++ " at ") url ""))

def is_required : Exn :=
  .ValueError (some (.ofString "VLLM_SERVERS env variable is required"))

/-- `json.loads(...).items()`, and the loop. -/
def VLLM_SERVERS (settings : Settings) : Except Exn (List VLLMServer) :=
  match settings.DEFAULT_VLLM_SERVERS with
  | none => .error is_required
  | some text =>
    if text.codes = [] then .error is_required
    else match loads_str text with
      | none => .error (.ValueError (some (.ofString "Invalid JSON format for VLLM_SERVERS")))
      | some (.obj raw_servers) =>
        raw_servers.mapM fun m => server_of normalize is_ipv6 settings m.1 m.2
      | some _ => .error .AttributeError

/-! ## What the callbacks do with a server -/

/-- `hash(server)`, as the key of a dict: the hash of all fields. -/
def VLLMServer.hash (server : VLLMServer) : Except Exn Unit :=
  if hashable server.token && hashable server.organization && hashable server.max_parallel_requests
  then .ok () else .error .TypeError

/-- `current_parallel_requests >= max_parallel_requests`. -/
def VLLMServer.at_limit (server : VLLMServer) (current_parallel_requests : Nat) :
    Except Exn Bool :=
  match number? server.max_parallel_requests with
  | some limit => .ok (limit.le (.fin current_parallel_requests))
  | none => .error .TypeError

/-- The fields of the message that are those of the server. -/
structure LlmParams where
  llm_url : Option PyStr
  llm_token : Option PyStr
  llm_organization : Option PyStr
  max_parallel_requests : Int

/-- `MessageData(...)`. -/
def VLLMServer.message_data (server : VLLMServer) : Except Exn LlmParams :=
  match validate_str (.str server.url), validate_str server.token,
    validate_str server.organization, validate_int server.max_parallel_requests with
  | some url, some token, some organization, some limit => .ok ⟨url, token, organization, limit⟩
  | _, _, _, _ => .error .ValidationError

/-! ## Servers that can be used -/

/-- An `int` of Python, of which `bool` is a subclass. -/
def IsInt : Json → Prop
  | .int _ | .bool _ => True
  | _ => False

def IsText (value : Json) : Prop := ∃ s : PyStr, value = .str s ∧ s.codes ≠ []

/-- A text without a lone surrogate, so one that can be encoded. -/
def Plain (s : PyStr) : Prop := s.toString? ≠ none

/-- What pydantic takes as `str | None` and as `int`. -/
structure Pydantic : Prop where
  null : validate_str .null ≠ none
  text : ∀ s : PyStr, validate_str (.str s) ≠ none ↔ Plain s
  int : ∀ value, IsInt value → validate_int value ≠ none

/-- An http or https url with a host. -/
def IsHttpUrl (url : PyStr) : Prop :=
  ∃ parsed_url, urlsplit normalize is_ipv6 url.codes = some parsed_url ∧
    (parsed_url.scheme = codes "http" ∨ parsed_url.scheme = codes "https") ∧
    parsed_url.host ≠ []

structure Usable (server : VLLMServer) : Prop where
  url : IsHttpUrl normalize is_ipv6 server.url
  token : server.token = .null ∨ ∃ s, server.token = .str s
  organization : IsText server.organization
  max_parallel_requests : IsInt server.max_parallel_requests

/-- Nothing fails later. The name of its queue is formatted, which works for any value. -/
structure Serves (server : VLLMServer) : Prop where
  hash : server.hash = .ok ()
  at_limit : ∀ current_parallel_requests, ∃ b, server.at_limit current_parallel_requests = .ok b
  message_data : ∃ llm_params,
    server.message_data validate_str validate_int = .ok llm_params

/-- A ValueError, or one server for each key, in order. -/
def Answers (settings : Settings) : Prop :=
  (∃ message, VLLM_SERVERS normalize is_ipv6 settings = .error (.ValueError message)) ∨
  ∃ text members servers, settings.DEFAULT_VLLM_SERVERS = some text ∧
    loads_str text = some (.obj members) ∧ VLLM_SERVERS normalize is_ipv6 settings = .ok servers ∧
    servers.map (·.url) = members.map (·.1) ∧ (servers.map (·.url)).Nodup ∧
    ∀ server ∈ servers, Usable normalize is_ipv6 server ∧ Serves validate_str validate_int server

/-! ## Texts that are answered -/

/-- The code refuses the member. -/
def refused (m : PyStr × Json) : Bool :=
  match m.2 with
  | .obj config =>
    match urlsplit normalize is_ipv6 m.1.codes with
    | none => true
    | some parsed_url => !is_http_url parsed_url ||
        is_empty_text (getOr config "organization" (.str (.ofString "")))
  | _ => true

/-- The member has the url and the values of a server. -/
def Fits (settings : Settings) (m : PyStr × Json) : Prop :=
  IsHttpUrl normalize is_ipv6 m.1 ∧ Plain m.1 ∧ ∃ config, m.2 = .obj config ∧
    (∃ s, getOr config "organization" (.str (.ofString "")) = .str s ∧ s.codes ≠ [] ∧ Plain s) ∧
    (getOr config "token" .null = .null ∨ ∃ s, getOr config "token" .null = .str s ∧ Plain s) ∧
    IsInt (getOr config "max_parallel_requests" (.int settings.DEFAULT_MAX_PARALLEL_REQUESTS))

/-- A text of JSON is an object that has a member to refuse, or whose members all fit. -/
def Configured (settings : Settings) : Prop :=
  ∀ text v, settings.DEFAULT_VLLM_SERVERS = some text → text.codes ≠ [] → loads_str text = some v →
    ∃ members, v = .obj members ∧
      ((∃ m ∈ members, refused normalize is_ipv6 m = true) ∨
        ∀ m ∈ members, Fits normalize is_ipv6 settings m)

end

variable {normalize : List Nat → List Nat} {is_ipv6 : List Nat → Bool}
  {validate_str : Json → Option (Option PyStr)} {validate_int : Json → Option Int}
  {settings : Settings} {m : PyStr × Json} {members : List (PyStr × Json)} {server : VLLMServer}
  {text : PyStr} {v : Json}

/-! ## One member -/

/-- The server of a member that is not refused. -/
def built (settings : Settings) (url : PyStr) (config : List (PyStr × Json)) : VLLMServer where
  url := url
  token := getOr config "token" .null
  organization := getOr config "organization" (.str (.ofString ""))
  max_parallel_requests :=
    getOr config "max_parallel_requests" (.int settings.DEFAULT_MAX_PARALLEL_REQUESTS)

theorem server_of_refused (settings : Settings) (h : refused normalize is_ipv6 m = true) :
    ∃ message, server_of normalize is_ipv6 settings m.1 m.2 = .error (.ValueError message) := by
  obtain ⟨url, value⟩ := m
  cases value with
  | obj config =>
    simp only [refused] at h
    simp only [server_of]
    cases hurl : urlsplit normalize is_ipv6 url.codes with
    | none => exact ⟨_, rfl⟩
    | some parsed_url =>
      simp only [hurl, Bool.or_eq_true, Bool.not_eq_true'] at h
      dsimp only
      by_cases hhttp : is_http_url parsed_url = false
      · exact ⟨_, if_pos hhttp⟩
      · rw [if_neg hhttp, if_pos (h.resolve_left hhttp)]
        exact ⟨_, rfl⟩
  | _ => exact ⟨_, rfl⟩

theorem server_of_accepted (settings : Settings) (h : refused normalize is_ipv6 m = false) :
    ∃ config, m.2 = .obj config ∧
      server_of normalize is_ipv6 settings m.1 m.2 = .ok (built settings m.1 config) := by
  obtain ⟨url, value⟩ := m
  cases value with
  | obj config =>
    refine ⟨config, rfl, ?_⟩
    simp only [refused] at h
    simp only [server_of]
    cases hurl : urlsplit normalize is_ipv6 url.codes with
    | none =>
      rw [hurl] at h
      cases h
    | some parsed_url =>
      simp only [hurl, Bool.or_eq_false_iff, Bool.not_eq_false'] at h
      obtain ⟨hhttp, horganization⟩ := h
      dsimp only
      rw [hhttp, if_neg (by decide), horganization, if_neg (by decide)]
      rfl
  | _ => cases h

/-- Every error of the loop is a ValueError. -/
theorem value_error_of_error {settings : Settings} {e : Exn}
    (h : server_of normalize is_ipv6 settings m.1 m.2 = .error e) :
    ∃ message, e = .ValueError message := by
  cases hm : refused normalize is_ipv6 m with
  | true =>
    obtain ⟨message, herror⟩ := server_of_refused settings hm
    exact ⟨message, Except.error.inj (h.symm.trans herror)⟩
  | false =>
    obtain ⟨config, _, hok⟩ := server_of_accepted settings hm
    cases h.symm.trans hok

theorem built_of_ok {settings : Settings}
    (h : server_of normalize is_ipv6 settings m.1 m.2 = .ok server) :
    ∃ config, m.2 = .obj config ∧ server = built settings m.1 config := by
  cases hm : refused normalize is_ipv6 m with
  | true =>
    obtain ⟨message, herror⟩ := server_of_refused settings hm
    cases h.symm.trans herror
  | false =>
    obtain ⟨config, hconfig, hok⟩ := server_of_accepted settings hm
    exact ⟨config, hconfig, Except.ok.inj (h.symm.trans hok)⟩

theorem not_refused_of_fits (h : Fits normalize is_ipv6 settings m) :
    refused normalize is_ipv6 m = false := by
  obtain ⟨⟨parsed_url, hurl, hscheme, hhost⟩, _, config, hconfig, ⟨s, horganization, hs, _⟩, _⟩ :=
    h
  have hhttp : is_http_url parsed_url = true := by
    have hstarts : (codes "http").isPrefixOf parsed_url.scheme = true := by
      rcases hscheme with heq | heq <;> rw [heq] <;> decide
    exact Bool.and_eq_true_iff.mpr ⟨hstarts, decide_eq_true (netloc_ne_nil hhost)⟩
  have hempty : is_empty_text (.str s) = false := decide_eq_false hs
  simp only [refused, hconfig, hurl, hhttp, horganization, hempty, Bool.not_true, Bool.or_self]

theorem message_data_ok_iff : (∃ llm_params,
      server.message_data validate_str validate_int = .ok llm_params) ↔
    validate_str (.str server.url) ≠ none ∧ validate_str server.token ≠ none ∧
      validate_str server.organization ≠ none ∧
      validate_int server.max_parallel_requests ≠ none := by
  unfold VLLMServer.message_data
  cases validate_str (.str server.url) with
  | none => simp
  | some url =>
    cases validate_str server.token with
    | none => simp
    | some token =>
      cases validate_str server.organization with
      | none => simp
      | some organization => cases validate_int server.max_parallel_requests <;> simp

theorem hash_and_at_limit (htoken : server.token = .null ∨ ∃ s, server.token = .str s)
    (horganization : IsText server.organization) (hlimit : IsInt server.max_parallel_requests) :
    server.hash = .ok () ∧
      ∀ current_parallel_requests, ∃ b, server.at_limit current_parallel_requests = .ok b := by
  obtain ⟨s, horganization, _⟩ := horganization
  have htoken_hash : hashable server.token = true := by
    rcases htoken with heq | ⟨token, heq⟩ <;> rw [heq] <;> rfl
  have hnumber : ∃ x, number? server.max_parallel_requests = some x ∧
      hashable server.max_parallel_requests = true := by
    cases hvalue : server.max_parallel_requests with
    | int i => exact ⟨_, rfl, rfl⟩
    | bool b => exact ⟨_, rfl, rfl⟩
    | _ =>
      rw [hvalue] at hlimit
      cases hlimit
  obtain ⟨x, hx, hlimit_hash⟩ := hnumber
  refine ⟨?_, fun n => ⟨x.le (.fin n), ?_⟩⟩
  · rw [VLLMServer.hash, htoken_hash, hlimit_hash, horganization]
    rfl
  · rw [VLLMServer.at_limit, hx]

/-- A member fits exactly if the server that is built of it can be used. -/
theorem usable_built_iff (hpydantic : Pydantic validate_str validate_int)
    {config : List (PyStr × Json)} (hconfig : m.2 = .obj config) :
    (Usable normalize is_ipv6 (built settings m.1 config) ∧
      Serves validate_str validate_int (built settings m.1 config)) ↔
    Fits normalize is_ipv6 settings m := by
  constructor
  · rintro ⟨⟨hurl, htoken, ⟨s, horganization, hs⟩, hlimit⟩, _, _, hdata⟩
    obtain ⟨hvalid_url, hvalid_token, hvalid_organization, _⟩ := message_data_ok_iff.mp hdata
    rw [horganization] at hvalid_organization
    refine ⟨hurl, (hpydantic.text _).mp hvalid_url, config, hconfig,
      ⟨s, horganization, hs, (hpydantic.text s).mp hvalid_organization⟩, ?_, hlimit⟩
    rcases htoken with heq | ⟨token, heq⟩
    · exact .inl heq
    · rw [heq] at hvalid_token
      exact .inr ⟨token, heq, (hpydantic.text token).mp hvalid_token⟩
  · rintro ⟨hurl, hplain, config', hconfig', ⟨s, horganization, hs, hplain_s⟩, htoken, hlimit⟩
    cases hconfig.symm.trans hconfig'
    have htoken' : (built settings m.1 config).token = .null ∨
        ∃ s, (built settings m.1 config).token = .str s :=
      htoken.imp_right fun ⟨token, heq, _⟩ => ⟨token, heq⟩
    have hvalid_token : validate_str (built settings m.1 config).token ≠ none := by
      rcases htoken with heq | ⟨token, heq, hplain_token⟩
      · rw [show (built settings m.1 config).token = .null from heq]
        exact hpydantic.null
      · rw [show (built settings m.1 config).token = .str token from heq]
        exact (hpydantic.text token).mpr hplain_token
    have hvalid_organization : validate_str (built settings m.1 config).organization ≠ none := by
      rw [show (built settings m.1 config).organization = .str s from horganization]
      exact (hpydantic.text s).mpr hplain_s
    obtain ⟨hhash, hat_limit⟩ := hash_and_at_limit htoken' ⟨s, horganization, hs⟩ hlimit
    refine ⟨⟨hurl, htoken', ⟨s, horganization, hs⟩, hlimit⟩, hhash, hat_limit,
      message_data_ok_iff.mpr ⟨(hpydantic.text _).mpr hplain, hvalid_token, hvalid_organization,
        hpydantic.int _ hlimit⟩⟩

/-! ## The loop -/

/-- A member that is refused ends the loop. -/
theorem mapM_refused (settings : Settings)
    (h : ∃ m ∈ members, refused normalize is_ipv6 m = true) :
    ∃ message, (members.mapM fun m => server_of normalize is_ipv6 settings m.1 m.2) =
      .error (.ValueError message) := by
  obtain ⟨m, hm, hrefused⟩ := h
  obtain ⟨_, herror⟩ := server_of_refused settings hrefused
  obtain ⟨first, _, e, hfirst, hresult⟩ :=
    mapM_error (f := fun m => server_of normalize is_ipv6 settings m.1 m.2) hm herror
  obtain ⟨message, rfl⟩ := value_error_of_error hfirst
  exact ⟨message, hresult⟩

/-- Servers are built of the members, one of each. -/
theorem mapM_built {settings : Settings} {servers : List VLLMServer}
    (h : (members.mapM fun m => server_of normalize is_ipv6 settings m.1 m.2) = .ok servers) :
    List.Forall₂ (fun m server => ∃ config, m.2 = .obj config ∧
      server = built settings m.1 config) members servers :=
  (mapM_ok_iff.mp h).imp fun _ _ => built_of_ok

/-- Without a member to refuse every one gives a server. -/
theorem mapM_accepted (settings : Settings)
    (h : ∀ m ∈ members, refused normalize is_ipv6 m = false) :
    ∃ servers, (members.mapM fun m => server_of normalize is_ipv6 settings m.1 m.2) =
        .ok servers ∧
      List.Forall₂ (fun m server => ∃ config, m.2 = .obj config ∧
        server = built settings m.1 config) members servers := by
  obtain ⟨servers, hservers⟩ := exists_mapM_ok fun m hm => by
    obtain ⟨config, _, hok⟩ := server_of_accepted settings (h m hm)
    exact ⟨_, hok⟩
  exact ⟨servers, hservers, mapM_built hservers⟩

theorem urls_of_built {servers : List VLLMServer} (h : List.Forall₂ (fun m server =>
    ∃ config, m.2 = .obj config ∧ server = built settings m.1 config) members servers) :
    servers.map (·.url) = members.map (·.1) := by
  induction h with
  | nil => rfl
  | cons hm _ ih =>
    obtain ⟨config, _, rfl⟩ := hm
    rw [List.map_cons, List.map_cons, ih]
    rfl

/-- All servers can be used exactly if all members fit. -/
theorem usable_iff_fits (hpydantic : Pydantic validate_str validate_int)
    {servers : List VLLMServer} (h : List.Forall₂ (fun m server =>
      ∃ config, m.2 = .obj config ∧ server = built settings m.1 config) members servers) :
    (∀ server ∈ servers, Usable normalize is_ipv6 server ∧
      Serves validate_str validate_int server) ↔
      ∀ m ∈ members, Fits normalize is_ipv6 settings m := by
  induction h with
  | nil => exact iff_of_true (fun _ hs => by cases hs) fun _ hm => by cases hm
  | cons hm _ ih =>
    obtain ⟨config, hconfig, rfl⟩ := hm
    rw [List.forall_mem_cons, List.forall_mem_cons, ih, usable_built_iff hpydantic hconfig]

/-! ## The law -/

theorem servers_of_object (htext : settings.DEFAULT_VLLM_SERVERS = some text)
    (hne : text.codes ≠ []) (hloads : loads_str text = some (.obj members)) :
    VLLM_SERVERS normalize is_ipv6 settings =
      members.mapM fun m => server_of normalize is_ipv6 settings m.1 m.2 := by
  rw [VLLM_SERVERS, htext]
  simp only [if_neg hne, hloads]

theorem answers_of_fits (hpydantic : Pydantic validate_str validate_int)
    (htext : settings.DEFAULT_VLLM_SERVERS = some text) (hne : text.codes ≠ [])
    (hloads : loads_str text = some (.obj members))
    (hfits : ∀ m ∈ members, Fits normalize is_ipv6 settings m) :
    Answers normalize is_ipv6 validate_str validate_int settings := by
  obtain ⟨servers, hservers, hbuilt⟩ := mapM_accepted settings
    fun m hm => not_refused_of_fits (hfits m hm)
  have hurls := urls_of_built hbuilt
  refine .inr ⟨text, members, servers, htext, hloads,
    (servers_of_object htext hne hloads).trans hservers, hurls, ?_,
    (usable_iff_fits hpydantic hbuilt).mpr hfits⟩
  rw [hurls]
  exact (valid_of_loads_str hloads).1

/-- Servers that are given have distinct urls. -/
theorem nodup_of_ok {servers : List VLLMServer}
    (h : VLLM_SERVERS normalize is_ipv6 settings = .ok servers) :
    (servers.map (·.url)).Nodup := by
  unfold VLLM_SERVERS at h
  split at h
  · cases h
  · split at h
    · cases h
    · split at h
      · cases h
      · rename_i members hloads
        rw [urls_of_built (mapM_built h)]
        exact (valid_of_loads_str hloads).1
      · cases h

/-- An answer comes of a text that is configured so. -/
theorem configured_of_answers (hpydantic : Pydantic validate_str validate_int)
    (h : Answers normalize is_ipv6 validate_str validate_int settings) :
    Configured normalize is_ipv6 settings := by
  intro text v htext hne hloads
  cases v with
  | obj members =>
    refine ⟨members, rfl, or_iff_not_imp_left.mpr fun hnone => ?_⟩
    have haccepted : ∀ m ∈ members, refused normalize is_ipv6 m = false :=
      fun m hm => Bool.eq_false_iff.mpr fun hrefused => hnone ⟨m, hm, hrefused⟩
    obtain ⟨servers, hservers, hbuilt⟩ := mapM_accepted settings haccepted
    have hresult := (servers_of_object htext hne hloads).trans hservers
    rcases h with ⟨message, herror⟩ | ⟨_, _, servers', _, _, hok, _, _, husable⟩
    · rw [hresult] at herror
      cases herror
    · cases hresult.symm.trans hok
      exact (usable_iff_fits hpydantic hbuilt).mp husable
  | _ =>
    have hresult : VLLM_SERVERS normalize is_ipv6 settings = .error .AttributeError := by
      rw [VLLM_SERVERS, htext]
      simp only [if_neg hne, hloads]
    rcases h with ⟨message, herror⟩ | ⟨_, _, _, _, _, hok, _⟩
    · rw [hresult] at herror
      cases herror
    · rw [hresult] at hok
      cases hok

/-- The settings raise a ValueError or give servers that can be used exactly if the text is an
object of JSON with a member to refuse or with members that all fit, or no text of JSON. -/
theorem servers_are_usable_iff (hpydantic : Pydantic validate_str validate_int) :
    Answers normalize is_ipv6 validate_str validate_int settings ↔
      Configured normalize is_ipv6 settings := by
  refine ⟨configured_of_answers hpydantic, fun h => ?_⟩
  cases htext : settings.DEFAULT_VLLM_SERVERS with
  | none => exact .inl ⟨some (.ofString "VLLM_SERVERS env variable is required"), by
      rw [VLLM_SERVERS, htext]; rfl⟩
  | some text =>
    by_cases hne : text.codes = []
    · refine .inl ⟨some (.ofString "VLLM_SERVERS env variable is required"), ?_⟩
      rw [VLLM_SERVERS, htext]
      exact if_pos hne
    cases hloads : loads_str text with
    | none =>
      refine .inl ⟨some (.ofString "Invalid JSON format for VLLM_SERVERS"), ?_⟩
      rw [VLLM_SERVERS, htext]
      simp only [if_neg hne, hloads]
    | some v =>
      obtain ⟨members, rfl, hrefused | hfits⟩ := h text v htext hne hloads
      · obtain ⟨message, herror⟩ := mapM_refused settings hrefused
        exact .inl ⟨message, (servers_of_object htext hne hloads).trans herror⟩
      · exact answers_of_fits hpydantic htext hne hloads hfits

def oneServer : Settings where
  DEFAULT_VLLM_SERVERS := some (.ofString "\x7b\"http://a\": \x7b\"organization\": \"o\"\x7d\x7d")
  DEFAULT_MAX_PARALLEL_REQUESTS := 100

/-- Pydantic on None and texts. -/
def text? : Json → Option (Option PyStr)
  | .null => some none
  | .str s => s.toString?.map fun _ => some s
  | _ => none

theorem pydantic_text : Pydantic text? middleware.integer? where
  null := by simp [text?]
  text s := by simp [text?, Plain]
  int value hvalue := by
    cases value with
    | int i => simp [middleware.integer?]
    | bool b => simp [middleware.integer?]
    | _ => cases hvalue

set_option maxRecDepth 10000 in
theorem configured_oneServer : Configured id (fun _ => false) oneServer := by
  intro text v htext _ hloads
  cases htext
  have hread : loads "\x7b\"http://a\": \x7b\"organization\": \"o\"\x7d\x7d" =
      some (.obj [(.ofString "http://a",
        .obj [(.ofString "organization", .str (.ofString "o"))])]) := rfl
  cases hread.symm.trans ((loads_str_ofString _).symm.trans hloads)
  refine ⟨_, rfl, .inr fun m hm => ?_⟩
  rw [List.mem_singleton.mp hm]
  have hplain : ∀ text : String, Plain (.ofString text) := fun text => by
    simp [Plain, PyStr.toString?_ofString]
  exact ⟨⟨⟨codes "http", codes "a", [], [], []⟩, by decide, by decide, by decide⟩, hplain _, _, rfl,
    ⟨.ofString "o", rfl, by decide, hplain _⟩, .inl rfl, trivial⟩

theorem one_server_is_usable : Answers id (fun _ => false) text? middleware.integer? oneServer :=
  (servers_are_usable_iff pydantic_text).mpr configured_oneServer

/-- A list of JSON raises an AttributeError. -/
theorem a_list_is_not_refused :
    ¬ ∀ settings : Settings, Answers id (fun _ => false) text? middleware.integer? settings := by
  intro hall
  obtain ⟨members, hmembers, _⟩ :=
    configured_of_answers pydantic_text (hall ⟨some (.ofString "[]"), 100⟩) (.ofString "[]")
    (.arr []) rfl (by decide) ((loads_str_ofString "[]").trans rfl)
  cases hmembers

/-! ## The settings of a consumer -/

/-- The values of a server of accepted settings. -/
def values (server : AcceptedServer) : VLLMServer where
  url := server.url
  token := server.token.json
  organization := server.organization.json
  max_parallel_requests := server.max_parallel_requests.json

theorem hashable_iff {value : Json} :
    hashable value = true ↔ ∃ scalar : Scalar, value = scalar.json := by
  rw [← exists_congr fun _ => Scalar.of?_eq_some_iff, ← Option.isSome_iff_exists]
  cases value <;> simp [hashable, Scalar.of?]

/-- A consumer starts with such servers, as a server that cannot be hashed is no key. -/
theorem hash_iff : server.hash = .ok () ↔ ∃ accepted, server = values accepted := by
  have hand : server.hash = .ok () ↔ (hashable server.token = true ∧
      hashable server.organization = true) ∧ hashable server.max_parallel_requests = true := by
    unfold VLLMServer.hash
    rw [← Bool.and_eq_true_iff, ← Bool.and_eq_true_iff]
    split <;> simp_all
  rw [hand, hashable_iff, hashable_iff, hashable_iff]
  constructor
  · rintro ⟨⟨⟨token, htoken⟩, organization, horganization⟩, limit, hlimit⟩
    obtain ⟨url, _, _, _⟩ := server
    exact ⟨⟨url, token, organization, limit⟩, by simp_all [values]⟩
  · rintro ⟨accepted, rfl⟩
    exact ⟨⟨⟨_, rfl⟩, _, rfl⟩, _, rfl⟩

/-- Both compare the limit in the same way. -/
theorem at_limit_values (server : AcceptedServer) (current_parallel_requests : Nat) :
    (values server).at_limit current_parallel_requests =
      match server.max_parallel_requests.number? with
      | some limit => .ok (limit.le (.fin current_parallel_requests))
      | none => .error .TypeError := by
  unfold VLLMServer.at_limit values
  cases server.max_parallel_requests <;> rfl

/-- Both take the same servers for an answer, if pydantic does the same in both. -/
theorem valid_iff [Validation]
    (hstr : ∀ scalar, Validation.validate_str scalar ≠ none ↔ validate_str scalar.json ≠ none)
    (hint : ∀ scalar, Validation.validate_int scalar ≠ none ↔ validate_int scalar.json ≠ none)
    (server : AcceptedServer) : Valid server ↔
      ∃ llm_params, (values server).message_data validate_str validate_int = .ok llm_params := by
  rw [message_data_ok_iff]
  constructor
  · intro h
    exact ⟨(hstr (.str server.url)).mp h.llm_url, (hstr _).mp h.llm_token,
      (hstr _).mp h.llm_organization, (hint _).mp h.max_parallel_requests⟩
  · rintro ⟨hurl, htoken, horganization, hlimit⟩
    exact ⟨(hstr (.str server.url)).mpr hurl, (hstr _).mpr htoken, (hstr _).mpr horganization,
      (hint _).mpr hlimit⟩

/-- The settings of a consumer can have every list of such servers that the code gives. -/
theorem accepted_urls_nodup {servers : List AcceptedServer}
    (h : VLLM_SERVERS normalize is_ipv6 settings = .ok (servers.map values)) :
    (servers.map (·.url)).Nodup := by
  have hnodup := nodup_of_ok h
  rwa [List.map_map] at hnodup

/-- A server with the types that it declares. -/
def accepted (server : aristote_dispatcher.settings.VLLMServer) : AcceptedServer where
  url := .ofString server.url
  token := server.token.elim .none fun token => .str (.ofString token)
  organization := .str (.ofString server.organization)
  max_parallel_requests := .int server.max_parallel_requests

theorem typed_urls_nodup {servers : List aristote_dispatcher.settings.VLLMServer}
    (h : VLLM_SERVERS normalize is_ipv6 settings =
      .ok ((servers.map accepted).map values)) : (servers.map (·.url)).Nodup := by
  have hnodup := accepted_urls_nodup h
  have hurls : (servers.map accepted).map (·.url) = (servers.map (·.url)).map PyStr.ofString := by
    simp only [List.map_map]
    rfl
  rw [hurls] at hnodup
  exact hnodup.of_map _

end aristote_dispatcher.server_settings
