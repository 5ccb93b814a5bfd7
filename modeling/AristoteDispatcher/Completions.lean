-- The completions. One is acked when it names a configured server, and then it
-- takes one id out of the set of that server. Any other raises before the ack,
-- and no completion comes after it.
import AristoteDispatcher.ConsumerInvariant

open pydict json runs
open aristote_dispatcher.settings aristote_dispatcher.messages

namespace aristote_dispatcher.rpc_server

variable {cfg : Settings} {repr : Json → PyStr} {s s' : State}

/-- The completion is a UTF-8 text of a JSON object, with the url of the server and with that
message id. -/
def Names (repr : Json → PyStr) (body : ByteArray) (server : VLLMServer) (id : PyStr) : Prop :=
  ∃ data, readMembers body = .ok data ∧
    getMember data "server" = .str (PyStr.ofString server.url) ∧
    id = strOf repr (getMember data "message_id")

/-- The completion names a configured server. -/
def NamesConfigured (cfg : Settings) (body : ByteArray) : Prop :=
  ∃ data, readMembers body = .ok data ∧ ∃ server ∈ cfg.VLLM_SERVERS,
    getMember data "server" = .str (PyStr.ofString server.url)

/-- The sender's completions name the server and the id that they are made from. -/
theorem names_completion_message (repr : Json → PyStr) (server : VLLMServer)
    (message_id completed_at model user : String) :
    Names repr (completion_message message_id completed_at model user server.url) server
      (.ofString message_id) := by
  refine ⟨_, readMembers_dumps _ ?_, getMember_ofStrings _ _, ?_⟩
  · simp
  · rw [getMember_ofStrings]
    rfl

/-! ## The server that is found -/

/-- Since no url stands twice, the last server with a url is the only one. -/
theorem used_server_eq_some_iff {server_url : Json} {server : VLLMServer} :
    used_server cfg server_url = some server ↔
      server ∈ cfg.VLLM_SERVERS ∧ server_url = .str (PyStr.ofString server.url) := by
  unfold used_server
  simp only [urlField_equals]
  constructor
  · intro h
    have hmem := List.mem_filter.mp (List.mem_of_getLast? h)
    exact ⟨hmem.1, isStr_iff.mp hmem.2⟩
  · rintro ⟨hs, hurl⟩
    have hmem : server ∈ cfg.VLLM_SERVERS.filter fun server => isStr server_url server.url :=
      List.mem_filter.mpr ⟨hs, isStr_iff.mpr hurl⟩
    obtain ⟨last, hlast⟩ := Option.ne_none_iff_exists'.mp
      (mt List.getLast?_eq_none_iff.mp (List.ne_nil_of_mem hmem))
    have hl := List.mem_filter.mp (List.mem_of_getLast? hlast)
    have hurl' := isStr_iff.mp hl.2
    rw [hurl, Json.str.injEq, PyStr.ofString_inj] at hurl'
    rw [hlast, server_eq_of_url cfg hs hl.1 hurl']

/-- What the callback does: it raises where the body names no configured server, and else
takes the id out of the set of that server. -/
theorem on_completion_callback_cases (repr : Json → PyStr) {current : Requests}
    (hkeys : ∀ server ∈ cfg.VLLM_SERVERS, server ∈ current) (body : ByteArray) :
    (¬NamesConfigured cfg body ∧
      ∃ e, on_completion_callback cfg repr current body = (current, .error e)) ∨
    ∃ server ∈ cfg.VLLM_SERVERS, ∃ id, Names repr body server id ∧
      on_completion_callback cfg repr current body =
        (current.insert server (discard (current.get server ∅) id), .ok ()) := by
  unfold on_completion_callback
  cases hread : readMembers body with
  | error e =>
    refine .inl ⟨?_, e, rfl⟩
    rintro ⟨data, hdata, _⟩
    rw [hread] at hdata
    cases hdata
  | ok data =>
    cases hused : used_server cfg (getMember data "server") with
    | none =>
      refine .inl ⟨?_, .KeyError, by simp only [hused]⟩
      rintro ⟨data', hdata, server, hs, hurl⟩
      rw [hread] at hdata
      cases hdata
      rw [used_server_eq_some_iff.mpr ⟨hs, hurl⟩] at hused
      cases hused
    | some server =>
      obtain ⟨hs, hurl⟩ := used_server_eq_some_iff.mp hused
      obtain ⟨ids, hids⟩ := Dict.exists_of_mem (hkeys server hs)
      refine .inr ⟨server, hs, _, ⟨data, hread, hurl, rfl⟩, ?_⟩
      simp only [hused, hids, get_of_lookup hids]

/-! ## One completion -/

/-- The completion takes its id out of the set of its server, and leaves every other set. -/
def OnlyOwnSlot (cfg : Settings) (repr : Json → PyStr) (current : Requests) (body : ByteArray) :
    Prop :=
  ∀ server ∈ cfg.VLLM_SERVERS,
    (∀ id, Names repr body server id →
      (on_completion_callback cfg repr current body).1.get server ∅ =
        discard (current.get server ∅) id) ∧
    ((¬∃ id, Names repr body server id) →
      (on_completion_callback cfg repr current body).1.get server ∅ = current.get server ∅)

/-- The completion is acked, and touches its own slot only. -/
def CompletionSettled (cfg : Settings) (repr : Json → PyStr) (current : Requests)
    (body : ByteArray) : Prop :=
  (on_completion_callback cfg repr current body).2 = .ok () ∧ OnlyOwnSlot cfg repr current body

theorem names_unique {body : ByteArray} {server server' : VLLMServer} {id id' : PyStr}
    (hs : server ∈ cfg.VLLM_SERVERS) (hs' : server' ∈ cfg.VLLM_SERVERS)
    (h : Names repr body server id) (h' : Names repr body server' id') :
    server = server' ∧ id = id' := by
  obtain ⟨data, hread, hurl, rfl⟩ := h
  obtain ⟨data', hread', hurl', rfl⟩ := h'
  rw [hread] at hread'
  cases hread'
  rw [hurl, Json.str.injEq, PyStr.ofString_inj] at hurl'
  exact ⟨server_eq_of_url cfg hs hs' hurl', rfl⟩

theorem Names.configured {body : ByteArray} {server : VLLMServer} {id : PyStr}
    (h : Names repr body server id) (hs : server ∈ cfg.VLLM_SERVERS) :
    NamesConfigured cfg body := by
  obtain ⟨data, hread, hurl, _⟩ := h
  exact ⟨data, hread, server, hs, hurl⟩

/-- Acked or not, a completion never touches the slot of another. -/
theorem only_own_slot (repr : Json → PyStr) {current : Requests}
    (hkeys : ∀ server ∈ cfg.VLLM_SERVERS, server ∈ current) (body : ByteArray) :
    OnlyOwnSlot cfg repr current body := by
  intro server hs
  rcases on_completion_callback_cases repr hkeys body with
    ⟨hnot, e, he⟩ | ⟨target, ht, id, hnames, he⟩
  · rw [he]
    exact ⟨fun id hid => absurd (hid.configured hs) hnot, fun _ => rfl⟩
  · rw [he]
    simp only [get_insert]
    constructor
    · intro id' hid'
      obtain ⟨rfl, rfl⟩ := names_unique hs ht hid' hnames
      rw [if_pos rfl]
    · intro hno
      rw [if_neg]
      rintro rfl
      exact hno ⟨id, hnames⟩

theorem completionSettled_iff {current : Requests}
    (hkeys : ∀ server ∈ cfg.VLLM_SERVERS, server ∈ current) (body : ByteArray) :
    CompletionSettled cfg repr current body ↔ NamesConfigured cfg body := by
  constructor
  · rintro ⟨hok, _⟩
    rcases on_completion_callback_cases repr hkeys body with
      ⟨_, e, he⟩ | ⟨server, hs, id, hnames, _⟩
    · rw [he] at hok
      cases hok
    · exact hnames.configured hs
  · intro h
    refine ⟨?_, only_own_slot repr hkeys body⟩
    rcases on_completion_callback_cases repr hkeys body with
      ⟨hnot, _⟩ | ⟨server, hs, id, _, he⟩
    · exact absurd h hnot
    · rw [he]

/-! ## Sequences of completions -/

theorem unsettled_completion_complete (h : Sound cfg s) (body : ByteArray) :
    (s.complete cfg repr body).unsettled_completion = none ↔ NamesConfigured cfg body := by
  unfold State.complete
  rcases on_completion_callback_cases repr h.keys body with
    ⟨hnot, e, he⟩ | ⟨server, hs, id, hnames, he⟩
  · simp [he, hnot]
  · simp [he, hnames.configured hs]

/-- A completion is delivered exactly when none before it is unsettled. -/
theorem completion_enabled_iff (body : ByteArray) :
    (s.step cfg repr (.completion body)).isSome ↔ s.unsettled_completion = none := by
  simp only [State.step]
  split
  · simp_all
  · simp_all

theorem unsettled_completion_step {e : Event} (h : s.step cfg repr e = some s') :
    (∃ body, e = .completion body ∧ s.unsettled_completion = none ∧
      s' = s.complete cfg repr body) ∨
    ((∀ body, e ≠ .completion body) ∧ s'.unsettled_completion = s.unsettled_completion) := by
  cases moves_of_step h with
  | completion hfree => exact .inl ⟨_, rfl, hfree, rfl⟩
  | resume hc hp hs => exact .inr ⟨fun _ hne => (by cases hne), unsettled_completion_add _ _⟩
  | expire ht => exact .inr ⟨fun _ hne => (by cases hne), unsettled_completion_expire _ _⟩
  | _ => exact .inr ⟨fun _ hne => (by cases hne), rfl⟩

/-- The completions keep coming exactly as long as each of them names a configured server. -/
theorem completions_keep_coming_iff {es : List Event}
    (h : Run (State.step cfg repr) Any (State.create cfg) es s) :
    s.unsettled_completion = none ↔
      ∀ body, Event.completion body ∈ es → NamesConfigured cfg body := by
  refine (h.invariant_of_events (I := fun es s => Sound cfg s ∧ (s.unsettled_completion = none ↔
    ∀ body, Event.completion body ∈ es → NamesConfigured cfg body)) ?_ ?_).2
  · exact ⟨sound_create cfg, iff_of_true rfl fun _ hb => absurd hb List.not_mem_nil⟩
  · rintro es s e s' ⟨hsound, hiff⟩ _ hs
    refine ⟨sound_step hsound hs, ?_⟩
    rcases unsettled_completion_step hs with ⟨body, rfl, hfree, rfl⟩ | ⟨hne, hsame⟩
    · rw [unsettled_completion_complete hsound]
      constructor
      · intro hbody b hb
        rcases List.mem_append.mp hb with hb | hb
        · exact hiff.mp hfree b hb
        · cases List.mem_singleton.mp hb
          exact hbody
      · exact fun hall => hall body (by simp)
    · rw [hsame, hiff]
      constructor
      · intro hall b hb
        rcases List.mem_append.mp hb with hb | hb
        · exact hall b hb
        · exact absurd (List.mem_singleton.mp hb).symm (hne b)
      · exact fun hall b hb => hall b (List.mem_append_left _ hb)

/-- A completion is acked, and takes exactly its own id out, if and only if it names a
configured server. And so every later one is delivered, in whatever run, if and only if all
the earlier ones did. -/
theorem a_completion_is_settled_iff_it_names_a_server (cfg : Settings) (repr : Json → PyStr) :
    (∀ current : Requests, (∀ server ∈ cfg.VLLM_SERVERS, server ∈ current) →
      ∀ body, CompletionSettled cfg repr current body ↔ NamesConfigured cfg body) ∧
    ∀ es s, Run (State.step cfg repr) Any (State.create cfg) es s →
      ∀ next, (s.step cfg repr (.completion next)).isSome ↔
        ∀ body, Event.completion body ∈ es → NamesConfigured cfg body := by
  refine ⟨fun current hkeys body => completionSettled_iff hkeys body, ?_⟩
  intro es s h next
  rw [completion_enabled_iff, completions_keep_coming_iff h]

/-- The settings of one server. -/
def someSettings : Settings := oneServerSettings .round_robin .warning_log

/-- Two requests that are served. -/
def twoServed : List Event :=
  [.deliver .main (anyCall "1") 0, .publish 0, .ack 0, .resume 0,
    .deliver .main (anyCall "2") 0, .publish 0, .ack 0, .resume 0]

/-- The completion of the first one takes its id out and leaves the other. -/
theorem the_completion_of_a_counted_request_is_settled : ∃ s,
    exec (State.step someSettings noRepr) (State.create someSettings) twoServed = some s ∧
    s.ids ⟨"http://a", none, "org", 1⟩ = {"1", "2"} ∧
    CompletionSettled someSettings noRepr s.current_parallel_requests
      (completion_message "1" "now" "model" "user" "http://a") ∧
    (on_completion_callback someSettings noRepr s.current_parallel_requests
      (completion_message "1" "now" "model" "user" "http://a")).1.get
        ⟨"http://a", none, "org", 1⟩ ∅ = {"2"} := by
  have hexec : ((exec (State.step someSettings noRepr) (State.create someSettings) twoServed).map
      fun s => (s.ids ⟨"http://a", none, "org", 1⟩,
        (on_completion_callback someSettings noRepr s.current_parallel_requests
          (completion_message "1" "now" "model" "user" "http://a")).1.get
            ⟨"http://a", none, "org", 1⟩ ∅)) = some ({"1", "2"}, {"2"}) := by decide +kernel
  obtain ⟨s, hs, hpair⟩ := Option.map_eq_some_iff.mp hexec
  obtain ⟨hids, hleft⟩ := Prod.mk.inj hpair
  refine ⟨s, hs, hids, ?_, hleft⟩
  refine ((a_completion_is_settled_iff_it_names_a_server someSettings noRepr).1 _
    (sound_run (run_of_exec hs)).keys _).mpr ?_
  exact (names_completion_message noRepr ⟨"http://a", none, "org", 1⟩ "1" "now" "model"
    "user").configured List.mem_cons_self

/-- A completion without a server raises before its ack. -/
theorem a_completion_without_a_server_stays :
    ¬∀ (cfg : Settings) (repr : Json → PyStr) (current : Requests),
      (∀ server ∈ cfg.VLLM_SERVERS, server ∈ current) →
      ∀ body, CompletionSettled cfg repr current body := by
  intro hall
  have herror : (match (on_completion_callback someSettings noRepr
      (State.create someSettings).current_parallel_requests "\x7b\x7d".toUTF8).2 with
    | .error .KeyError => true
    | _ => false) = true := by decide +kernel
  have hok := (hall someSettings noRepr (State.create someSettings).current_parallel_requests
    (sound_create someSettings).keys "\x7b\x7d".toUTF8).1
  rw [hok] at herror
  cases herror

end aristote_dispatcher.rpc_server
