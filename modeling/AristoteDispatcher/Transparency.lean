-- What of a client's request comes to the server: the method, the path, the query string and
-- the body. The request is built from `request.url.path`, which is decoded and has no query
-- string, and a body with another priority is written anew.
import AristoteDispatcher.Lib.JsonValid
import AristoteDispatcher.Lib.Percent
import AristoteDispatcher.Lib.Url
import AristoteDispatcher.Priorities

open pyfloat json urllib
open aristote_dispatcher.messages aristote_dispatcher.rpc_client aristote_dispatcher.proxy
open aristote_dispatcher.message_data

namespace aristote_dispatcher.transparency

/-! ## The path -/

def ofCodes (text : List Nat) : String := String.ofList (text.map Char.ofNat)

section

-- the parts of `urlsplit` that are not written here
variable (normalize : List Nat → List Nat) (is_ipv6 : List Nat → Bool)

/-- `request.url.path`: the path of the request line is decoded, and the url that is put together
with it is read again. `none` is the ValueError. -/
def url_path (scheme host raw_path query : String) : Option String :=
  (urlsplit normalize is_ipv6 (codes (scheme ++ "://" ++ host) ++ unquote (codes raw_path) ++
    codes (if query = "" then "" else "?" ++ query))).map fun url => ofCodes url.path

/-- A request with its line and its host. What stands before a query in its line is ASCII. -/
structure ClientRequest extends middleware.HTTPRequest where
  scheme : String
  host : String
  raw_path : String
  query : String
  path_ends : ∀ c ∈ raw_path.toList, c.toNat < 128 ∧ c ≠ '?' ∧ c ≠ '#'
  path_read : url_path normalize is_ipv6 scheme host raw_path query = some path

end

variable {normalize : List Nat → List Nat} {is_ipv6 : List Nat → Bool}

theorem eq_toNat_of_ofNat {n : Nat} {c : Char} (h : Char.ofNat n = c) (hc : c ≠ '\x00') :
    n = c.toNat := by
  subst h
  by_cases hvalid : n.isValidChar
  · rw [Char.ofNat, dif_pos hvalid]
    rfl
  · exact absurd (dif_neg hvalid) hc

/-- A path that is read has no mark of a query or of a fragment. -/
theorem notMem_url_path {scheme host raw_path query path : String}
    (h : url_path normalize is_ipv6 scheme host raw_path query = some path) :
    '?' ∉ path.toList ∧ '#' ∉ path.toList := by
  obtain ⟨url, hurl, rfl⟩ := Option.map_eq_some_iff.mp h
  have hcodes : ∀ c : Char, c ≠ '\x00' → c ∈ (ofCodes url.path).toList → c.toNat ∈ url.path := by
    intro c hc hmem
    rw [ofCodes, String.toList_ofList] at hmem
    obtain ⟨n, hn, heq⟩ := List.mem_map.mp hmem
    exact eq_toNat_of_ofNat heq hc ▸ hn
  obtain ⟨hquery, hfragment⟩ := notMem_path hurl
  exact ⟨fun hmem => hquery (hcodes _ (by decide) hmem),
    fun hmem => hfragment (hcodes _ (by decide) hmem)⟩

/-! ## The request -/

/-- The bytes of the body that httpx sends. -/
def Content.bytes (float_repr : PyFloat → List Char) : Content → ByteArray
  | .body body => body
  | .dumps json_body => (String.ofList ((Json.obj json_body).dumps float_repr)).toUTF8

/-- The server gets the request of the client. httpx writes the method in upper case. `received`
gives the path, behind that of the base url, and the query string of the request that it builds,
or none where it refuses the url. -/
structure Transparent (received : String → String → Option (String × String))
    (float_repr : PyFloat → List Char) (request : ClientRequest normalize is_ipv6)
    (priority : Option Int) (req : LLMRequest) : Prop where
  method : req.method.toUpper = request.method
  target : received req.base_url req.url = some (request.raw_path, request.query)
  same_body : priority = none → Content.bytes float_repr req.content = request.body
  new_priority : ∀ p, priority = some p → ∃ members,
    loads_bytes request.body = .ok (.obj members) ∧
    loads_bytes (Content.bytes float_repr req.content) =
      .ok (.obj (setMember members (.ofString "priority") (.int p)))

/-- The decoded path is sent as it came in, and there was no query string. With a base url that has
one itself, httpx writes the path into that, so then it depends on what comes of both. -/
def KeepsTarget (received : String → String → Option (String × String)) (llm_url : String)
    (request : ClientRequest normalize is_ipv6) : Prop :=
  if '?' ∈ llm_url.toList then
    received llm_url request.path = some (request.raw_path, request.query)
  else request.query = "" ∧ ∃ query, received llm_url request.path = some (request.raw_path, query)

/-- Beside the priority, strings and floats are written as they were. -/
def Rewritable (float_repr : PyFloat → List Char) (members : List (PyStr × Json)) : Prop :=
  ∀ m ∈ members, m.1 ≠ .ofString "priority" → m.1.Whole ∧ m.2.Kept float_repr

variable {received : String → String → Option (String × String)}
  {float_repr : PyFloat → List Char} {repr : Json → String} {env : middleware.Environment}
  {request : ClientRequest normalize is_ipv6}
  {d : middleware.Dispatched} {validate : List (PyStr × Json) → Option MessageData}
  {response : Response} {llm_params : MessageData} {id llm_url : String} {req : LLMRequest}
  {members : List (PyStr × Json)}

/-! ## A body with another priority -/

theorem whole_priority : (PyStr.ofString "priority").Whole := by
  unfold PyStr.Whole
  decide

theorem valid_priority : (PyStr.ofString "priority").Valid := by
  unfold PyStr.Valid
  decide

theorem valid_setMember {v : Json} (h : (Json.obj members).Valid) (hv : v.Valid) :
    (Json.obj (setMember members (.ofString "priority") v)).Valid := by
  refine ⟨nodup_setMember h.1 _ _, validPairs_iff.mpr fun m hm => ?_⟩
  rcases mem_setMember hm with rfl | hm
  · exact ⟨valid_priority, hv⟩
  · exact validPairs_iff.mp h.2 m hm

/-- A member with another key goes on. -/
theorem mem_setMember_of_ne {m : PyStr × Json} {key : PyStr} (hm : m ∈ members) (hne : m.1 ≠ key)
    (v : Json) : m ∈ setMember members key v := by
  unfold setMember
  split
  · exact List.mem_map.mpr ⟨m, hm, if_neg hne⟩
  · exact List.mem_append_left _ hm

/-- The key of a member that goes on is another one, or the member is the new one. -/
theorem key_ne_of_mem_setMember {m : PyStr × Json} {key : PyStr} {v : Json}
    (hm : m ∈ setMember members key v) : m = (key, v) ∨ m ∈ members ∧ m.1 ≠ key := by
  unfold setMember at hm
  split at hm
  · obtain ⟨m', hm', heq⟩ := List.mem_map.mp hm
    split at heq
    · exact .inl heq.symm
    · rename_i hne
      exact .inr ⟨heq ▸ hm', heq ▸ hne⟩
  · rename_i hany
    rcases List.mem_append.mp hm with hm | hm
    · refine .inr ⟨hm, fun hkey => hany (List.any_eq_true.mpr ⟨m, hm, decide_eq_true hkey⟩)⟩
    · exact .inl (List.mem_singleton.mp hm)

theorem kept_setMember_iff (p : Int) :
    (Json.obj (setMember members (.ofString "priority") (.int p))).Kept float_repr ↔
      Rewritable float_repr members := by
  rw [Json.Kept, keptPairs_iff]
  constructor
  · intro h m hm hne
    exact h m (mem_setMember_of_ne hm hne _)
  · intro h m hm
    rcases key_ne_of_mem_setMember hm with rfl | ⟨hm, hne⟩
    · exact ⟨whole_priority, trivial⟩
    · exact h m hm hne

/-- The body that is written anew is read as the new members exactly if they can be written. -/
theorem loads_dumped_iff (hprints : Prints float_repr) (h : (Json.obj members).Valid) (p : Int) :
    loads_bytes (Content.bytes float_repr
        (.dumps (setMember members (.ofString "priority") (.int p)))) =
      .ok (.obj (setMember members (.ofString "priority") (.int p))) ↔
      Rewritable float_repr members := by
  have hint : (Json.int p).Valid := trivial
  have hread := loads_bytes_toUTF8 (loads_dumps_value hprints
    (.obj (setMember members (.ofString "priority") (.int p))))
  rw [Content.bytes, hread, Except.ok.injEq, reread_eq_iff _ (valid_setMember h hint),
    kept_setMember_iff]

/-- A body that is written anew is that of the client with the priority set exactly if the other
members can be written. -/
theorem rewritten_iff (hprints : Prints float_repr) {body : ByteArray}
    (hbody : loads_bytes body = .ok (.obj members)) (p : Int) :
    (∃ members', loads_bytes body = .ok (.obj members') ∧
      loads_bytes (Content.bytes float_repr
          (.dumps (setMember members (.ofString "priority") (.int p)))) =
        .ok (.obj (setMember members' (.ofString "priority") (.int p)))) ↔
      Rewritable float_repr members := by
  rw [← loads_dumped_iff hprints (valid_of_loads_bytes hbody) p]
  constructor
  · rintro ⟨members', hmembers, hloads⟩
    cases hbody.symm.trans hmembers
    exact hloads
  · intro hloads
    exact ⟨members, hbody, hloads⟩

/-! ## The whole request -/

/-- Without a query string in the base url, none is sent. -/
theorem target_iff (hreceived : ∀ base_url url path query, '?' ∉ base_url.toList →
      '?' ∉ url.toList → '#' ∉ url.toList → received base_url url = some (path, query) →
      query = "") :
    received llm_url request.path = some (request.raw_path, request.query) ↔
      KeepsTarget received llm_url request := by
  unfold KeepsTarget
  split
  · exact Iff.rfl
  · rename_i hbase
    obtain ⟨hquery, hfragment⟩ := notMem_url_path request.path_read
    constructor
    · intro h
      exact ⟨hreceived _ _ _ _ hbase hquery hfragment h, _, h⟩
    · rintro ⟨hempty, query, h⟩
      rw [hempty, h, hreceived _ _ _ _ hbase hquery hfragment h]

/-- The server gets the request of the client exactly if its method is in upper case, httpx makes
of the decoded path the one that came in, there is no query string, and a body that is written anew
can be. -/
theorem the_request_is_transparent_iff (hprints : Prints float_repr)
    (hreceived : ∀ base_url url path query, '?' ∉ base_url.toList → '?' ∉ url.toList →
      '#' ∉ url.toList → received base_url url = some (path, query) → query = "")
    (hcall : middleware.proxy repr env request.toHTTPRequest = .call d) (priority : Int)
    (hread : (llm_params_dict response.body).bind validate = some llm_params)
    (hsending : Proxy.answered validate
      ⟨d.user.toUser, d.handed request.toHTTPRequest priority, .calling⟩ response =
        .sending id llm_url req) :
    Transparent received float_repr request llm_params.forwarded_priority req ↔
      request.method.toUpper = request.method ∧ KeepsTarget received llm_url request ∧
        (llm_params.forwarded_priority ≠ none → Rewritable float_repr d.json_body) := by
  obtain ⟨user, _, hdispatch⟩ := middleware.dispatch_of_call hcall
  have hbody := (middleware.checked_of_dispatch repr hdispatch).json_body
  obtain ⟨_, rfl⟩ := priorities.request_of_sending hread hsending
  have htarget : received llm_url request.path = some (request.raw_path, request.query) ↔
      KeepsTarget received llm_url request := target_iff hreceived
  have hnew : ∀ p, llm_params.forwarded_priority = some p →
      ((∃ members, loads_bytes request.body = .ok (.obj members) ∧
        loads_bytes (Content.bytes float_repr (build_request
          (d.handed request.toHTTPRequest priority) llm_params llm_url).content) =
            .ok (.obj (setMember members (.ofString "priority") (.int p)))) ↔
        Rewritable float_repr d.json_body) := by
    intro p hp
    rw [priorities.content_of_forwarded _ hp]
    exact rewritten_iff hprints hbody p
  constructor
  · rintro ⟨hmethod, hsame, _, hrewritten⟩
    refine ⟨hmethod, htarget.mp hsame, fun hsome => ?_⟩
    obtain ⟨p, hp⟩ := Option.ne_none_iff_exists'.mp hsome
    exact (hnew p hp).mp (hrewritten p hp)
  · rintro ⟨hmethod, hkeeps, hrewritable⟩
    refine ⟨hmethod, htarget.mpr hkeeps, fun hnone => ?_, fun p hp => ?_⟩
    · simp only [build_request, hnone]
      rfl
    · exact (hnew p hp).mpr (hrewritable (by rw [hp]; exact Option.some_ne_none p))

/-! ## A request with a priority -/

/-- A path of letters, digits and slashes, with a query string behind it or none. -/
def splitQuery (_base_url url : String) : Option (String × String) :=
  some (String.ofList (url.toList.takeWhile (· ≠ '?')),
    String.ofList (url.toList.dropWhile (· ≠ '?')).tail)

theorem splitQuery_of_notMem (base_url url path query : String) (_ : '?' ∉ base_url.toList)
    (h : '?' ∉ url.toList) (_ : '#' ∉ url.toList)
    (hreceived : splitQuery base_url url = some (path, query)) : query = "" := by
  have hnil : url.toList.dropWhile (fun c => decide (c ≠ '?')) = [] := by
    refine List.dropWhile_eq_nil_iff.mpr fun c hc => decide_eq_true ?_
    rintro rfl
    exact h hc
  rw [splitQuery, hnil] at hreceived
  cases hreceived
  rfl

abbrev PlainRequest := ClientRequest (fun text => text) fun _ => false

/-- A request of a body with a priority, to which the consumer gives another one. -/
def nineAsked (raw_path query : String)
    (path_ends : (raw_path.toList.all fun c => c.toNat < 128 ∧ c ≠ '?' ∧ c ≠ '#') = true)
    (path_read : url_path (fun text => text) (fun _ => false) "http" "a" raw_path query =
      some "/v1/chat/completions") : PlainRequest :=
  { priorities.nineAsked with
    scheme := "http"
    host := "a"
    raw_path := raw_path
    query := query
    path_ends := fun c hc => of_decide_eq_true (List.all_eq_true.mp path_ends c hc)
    path_read := path_read }

def nineSent : LLMRequest :=
  build_request (priorities.nineDispatched.handed priorities.nineAsked 5) (priorities.given 1 0)
    "http://a"

theorem read_nine :
    (llm_params_dict priorities.nineReplied.body).bind strict.validate =
      some (priorities.given 1 0) := by
  rw [priorities.nineReplied, read_body prints_halfDigits]
  rfl

def withoutQuery : PlainRequest :=
  nineAsked "/v1/chat/completions" "" (by decide +kernel) (by decide +kernel)

def withQuery : PlainRequest :=
  nineAsked "/v1/chat/completions" "beam=2" (by decide +kernel) (by decide +kernel)

/-- The question mark is a part of the path. -/
def withEscape : PlainRequest :=
  nineAsked "/v1/chat/completions%3Fbeam=2" "" (by decide +kernel) (by decide +kernel)

set_option maxRecDepth 10000 in
theorem called_nine {request : PlainRequest} (h : request.toHTTPRequest = priorities.nineAsked) :
    middleware.proxy (fun _ => "") middleware.oneModel request.toHTTPRequest =
      .call priorities.nineDispatched :=
  h ▸ priorities.nineTrip.called

set_option maxRecDepth 10000 in
theorem sending_nine {request : PlainRequest} (h : request.toHTTPRequest = priorities.nineAsked) :
    Proxy.answered strict.validate ⟨priorities.nineDispatched.user.toUser,
      priorities.nineDispatched.handed request.toHTTPRequest 5, .calling⟩ priorities.nineReplied =
        .sending "1" "http://a" nineSent := by
  rw [h]
  exact priorities.answered_of_read read_nine rfl _

theorem a_request_without_a_query_string_is_transparent :
    Transparent splitQuery halfDigits withoutQuery (priorities.given 1 0).forwarded_priority
      nineSent := by
  refine (the_request_is_transparent_iff prints_halfDigits splitQuery_of_notMem (called_nine rfl) 5
    read_nine (sending_nine rfl)).mpr ⟨by decide +kernel, ?_, fun _ m hm hne => ?_⟩
  · rw [KeepsTarget, if_neg (by decide)]
    exact ⟨rfl, "", by decide +kernel⟩
  · simp only [priorities.nineDispatched, List.mem_cons, List.not_mem_nil, or_false] at hm
    rcases hm with rfl | rfl
    · exact ⟨by unfold PyStr.Whole; decide, by unfold Json.Kept PyStr.Whole; decide⟩
    · exact absurd rfl hne

/-- The server gets each request with that query string that is past the checks and is granted the
server. -/
def AllTransparent (query : String) : Prop :=
  ∀ (request : PlainRequest) (d : middleware.Dispatched) (priority : Int) (id llm_url : String)
    (req : LLMRequest), request.query = query →
    middleware.proxy (fun _ => "") middleware.oneModel request.toHTTPRequest = .call d →
    Proxy.answered strict.validate
      ⟨d.user.toUser, d.handed request.toHTTPRequest priority, .calling⟩ priorities.nineReplied =
        .sending id llm_url req →
    Transparent splitQuery halfDigits request (priorities.given 1 0).forwarded_priority req

/-- A query string is lost, and without one what stands behind an escaped question mark. -/
theorem not_every_request_is_transparent : ¬AllTransparent "beam=2" ∧ ¬AllTransparent "" := by
  constructor
  · intro hall
    have htransparent := hall withQuery priorities.nineDispatched 5 "1" "http://a" nineSent rfl
      (called_nine rfl) (sending_nine rfl)
    exact absurd htransparent.target (by decide +kernel)
  · intro hall
    have htransparent := hall withEscape priorities.nineDispatched 5 "1" "http://a" nineSent rfl
      (called_nine rfl) (sending_nine rfl)
    exact absurd htransparent.target (by decide +kernel)

end aristote_dispatcher.transparency
