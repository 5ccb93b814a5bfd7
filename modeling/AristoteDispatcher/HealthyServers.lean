-- The servers that the health check excluded. The main queue chooses from the
-- servers of the last update; a private queue chooses from all configured ones of
-- its organization, so one that was excluded can be named there.
import AristoteDispatcher.Candidates
import AristoteDispatcher.Lib.Logged
import AristoteDispatcher.ParallelLimit

open runs
open json (Json PyStr)
open pydict pyfloat
open aristote_dispatcher.settings aristote_dispatcher.messages
open aristote_dispatcher.policies aristote_dispatcher.strategy

namespace aristote_dispatcher.rpc_server

variable {cfg : Settings} {repr : Json → PyStr} {s s' : State}

/-- The update of the servers that ends with a step. -/
def updatedBy (cfg : Settings) (strategy : Strategy) : StrategyEvent → Option (List VLLMServer)
  | .task _ => none
  | .ping results =>
    match strategy with
    | .round_robin _ => some (healthy_servers cfg.VLLM_SERVERS results)
    | .least_busy self =>
      -- an update that changes nothing returns at once
      if healthy_servers cfg.VLLM_SERVERS results = self.servers then some self.servers else none
  | .tasks_ended =>
    match strategy with
    | .round_robin _ => none
    | .least_busy self => self.updating

/-- A consumer, with the servers of the last update that ended. -/
structure Watched where
  state : State
  healthy : Option (List VLLMServer)

def Watched.create (cfg : Settings) : Watched := ⟨.create cfg, none⟩

def Watched.after (cfg : Settings) (w : Watched) (e : Event) (state : State) : Watched where
  state := state
  healthy :=
    match e with
    | .strategy e => (updatedBy cfg w.state.strategy e).or w.healthy
    | _ => w.healthy

def Watched.step (cfg : Settings) (repr : Json → PyStr) (w : Watched) (e : Event) :
    Option Watched :=
  (w.state.step cfg repr e).map (w.after cfg e)

/-- A callback chose its answer after that update, or a reply goes out. -/
inductive Choice
  | chose (c : Callback) (healthy : Option (List VLLMServer))
  | replied (reply : Reply)

def Watched.choices (cfg : Settings) (w : Watched) : Event → List Choice
  | .deliver subscription message random =>
    (suspended subscription message
      (w.state.segment cfg subscription message random).1.stop).map (.chose · w.healthy)
  | .publish i => (w.state.callbacks[i]?.map fun c => .replied c.reply).toList
  | _ => []

/-! ## The servers of the strategy -/

theorem servers_choose_server (strategy : Strategy) (random : Nat) :
    servers (strategy.choose_server random).2 = servers strategy := by
  cases strategy with
  | least_busy self => rfl
  | round_robin self =>
    simp only [Strategy.choose_server, servers, RoundRobin.choose_server]
    split
    · rfl
    · split <;> rfl

/-- The strategy holds the servers of the last update that ended. -/
theorem servers_of_update {strategy strategy' : Strategy} {e : StrategyEvent}
    (h : strategy.step cfg.VLLM_SERVERS e = some strategy') :
    servers strategy' = (updatedBy cfg strategy e).getD (servers strategy) := by
  cases strategy with
  | round_robin self =>
    obtain ⟨self', hstep, rfl⟩ := Option.map_eq_some_iff.mp h
    cases e with
    | ping results =>
      obtain ⟨_, heq⟩ := Option.ite_none_right_eq_some.mp hstep
      cases heq
      rfl
    | _ => cases hstep
  | least_busy self =>
    obtain ⟨self', hstep, rfl⟩ := Option.map_eq_some_iff.mp h
    cases e with
    | task e =>
      obtain ⟨tracker, _, heq⟩ := Option.map_eq_some_iff.mp hstep
      cases heq
      rfl
    | ping results =>
      obtain ⟨_, heq⟩ := Option.ite_none_right_eq_some.mp hstep
      cases heq
      simp only [updatedBy, servers, LeastBusy.update_servers]
      by_cases hsame : healthy_servers cfg.VLLM_SERVERS results = self.servers
      · simp [hsame]
      · simp [hsame]
    | tasks_ended =>
      simp only [LeastBusy.step] at hstep
      split at hstep
      · rename_i updating hupdating
        obtain ⟨_, heq⟩ := Option.ite_none_right_eq_some.mp hstep
        cases heq
        simp [updatedBy, servers, LeastBusy.updated, hupdating]
      · cases hstep

/-- The strategy is sound, and holds the servers of the last update. -/
structure Current (cfg : Settings) (w : Watched) : Prop where
  sound : Sound cfg w.state
  servers : ∀ healthy, w.healthy = some healthy → servers w.state.strategy = healthy

theorem current_create (cfg : Settings) : Current cfg (.create cfg) :=
  ⟨sound_create cfg, fun _ h => by cases h⟩

theorem current_step {w w' : Watched} {e : Event} (h : Current cfg w)
    (hs : w.step cfg repr e = some w') : Current cfg w' := by
  obtain ⟨state, hstep, rfl⟩ := Option.map_eq_some_iff.mp hs
  refine ⟨sound_step h.sound hstep, ?_⟩
  cases moves_of_step hstep with
  | strategy hst =>
    intro healthy heq
    simp only [Watched.after] at heq ⊢
    rw [servers_of_update hst]
    cases hup : updatedBy cfg w.state.strategy _ with
    | none =>
      rw [hup, Option.none_or] at heq
      exact h.servers healthy heq
    | some updated =>
      rw [hup, Option.some_or] at heq
      exact Option.some.inj heq
  | deliver hq hfree =>
    rename_i subscription message random
    intro healthy heq
    have hsame : servers (w.state.segment cfg subscription message random).2 =
        servers w.state.strategy := by
      cases subscription with
      | main => exact servers_choose_server _ random
      | server_queue i => rfl
    exact hsame.trans (h.servers healthy heq)
  | resume hc hp hserver =>
    intro healthy heq
    simp only [Watched.after, add_strategy]
    exact h.servers healthy heq
  | expire ht =>
    intro healthy heq
    simp only [Watched.after, expire_strategy]
    exact h.servers healthy heq
  | _ => exact h.servers

/-! ## The choice -/

/-- The request that a delivery brings is one of a sender, or a copy of it. -/
def BringsRequest (cfg : Settings) : Event → Prop
  | .deliver _ message _ => Published cfg.MODEL message
  | _ => True

/-- On a private queue, no server that the last update left out is a candidate of the choice
that the policy lets the request through to. -/
def NoneExcluded (cfg : Settings) (w : Watched) : Event → Prop
  | .deliver (.server_queue i) message _ => ∀ healthy, w.healthy = some healthy →
      ∀ own, cfg.VLLM_SERVERS[i]? = some own → ∀ server score,
        Candidate w.state.strategy (organization_servers cfg own.organization) server score →
        (∃ call : RequeueCall, call.message = message ∧ ∃ tasks,
          apply_policy cfg score (w.state.count server) server.max_parallel_requests call =
            .ok (true, tasks)) →
        server ∈ healthy
  | _ => True

/-- The deliveries of the run bring requests, and find no excluded server. -/
def FindsHealthy (cfg : Settings) (w : Watched) (e : Event) : Prop :=
  BringsRequest cfg e ∧ NoneExcluded cfg w e

/-- A callback that a delivery starts names a server of the last update. -/
theorem chosen_is_healthy {w : Watched} (h : Current cfg w) {subscription : Subscription}
    {message : Message} {random : Nat} {healthy : List VLLMServer}
    (hp : Published cfg.MODEL message) (hq : subscription.queue cfg = some message.routing_key)
    (hnone : NoneExcluded cfg w (.deliver subscription message random))
    (hhealthy : w.healthy = some healthy) {c : Callback}
    (hc : c ∈ suspended subscription message
      (w.state.segment cfg subscription message random).1.stop) {url : String}
    (hurl : c.llm_params.llm_url = some url) : ∃ server ∈ healthy, server.url = url := by
  cases subscription with
  | main =>
    have hhandled := main_handled cfg w.state message random
    cases hseg : (w.state.segment cfg .main message random).1 with | mk tasks stop
    rw [hseg] at hhandled hc
    cases hhandled with
    | answered hs hserver horg hcount =>
      cases List.mem_singleton.mp hc
      rw [hserver] at hurl
      exact ⟨_, h.servers healthy hhealthy ▸ hs, Option.some.inj hurl⟩
    | refused hrefuses hserver horg hcount =>
      cases List.mem_singleton.mp hc
      rw [hserver] at hurl
      cases hurl
    | _ => cases hc
  | server_queue i =>
    obtain ⟨queue, servers, hhandled⟩ :=
      segment_handled cfg w.state (.server_queue i) message random
    cases hseg : (w.state.segment cfg (.server_queue i) message random).1 with | mk tasks stop
    rw [hseg] at hhandled hc
    cases hhandled with
    | answered hs hserver horg hcount =>
      rename_i server llm_params
      cases List.mem_singleton.mp hc
      obtain ⟨own, hown, _⟩ := server_of_queue hq
      obtain ⟨indicator, call, tasks, hchosen, hcall, hpolicy⟩ :=
        segment_publishes hp hq (congrArg Segment.stop hseg)
      rw [chosen_private hown] at hchosen
      have hcandidate : Candidate w.state.strategy (organization_servers cfg own.organization)
          server indicator :=
        candidate_of_choose_among_duplicates hchosen
      rw [hserver] at hurl
      exact ⟨server, hnone healthy hhealthy own hown server indicator hcandidate
        ⟨call, hcall, tasks, hpolicy⟩, Option.some.inj hurl⟩
    | refused hrefuses hserver horg hcount =>
      cases List.mem_singleton.mp hc
      rw [hserver] at hurl
      cases hurl
    | _ => cases hc

/-! ## The law -/

/-- The choice names a server of the last update before it. -/
def Choice.IsHealthy : Choice → Prop
  | .chose c healthy => ∀ servers, healthy = some servers →
      ∀ url, c.llm_params.llm_url = some url → ∃ server ∈ servers, server.url = url
  | .replied _ => True

/-- The answer of each callback was chosen at its delivery, and so was that of each reply. -/
structure Chosen (l : Logged Watched Choice) : Prop where
  callbacks : ∀ c ∈ l.state.state.callbacks, ∃ c' healthy,
    .chose c' healthy ∈ l.log ∧ c'.reply = c.reply
  replied : ∀ reply, .replied reply ∈ l.log → ∃ c healthy,
    .chose c healthy ∈ l.log ∧ c.reply = reply

theorem chosen_step {l l' : Logged Watched Choice} {e : Event} (h : Chosen l)
    (hs : logged (Watched.step cfg repr) (Watched.choices cfg) l e = some l') : Chosen l' := by
  obtain ⟨w', log'⟩ := l'
  obtain ⟨hstep, rfl⟩ := logged_eq_some hs
  obtain ⟨state, hstate, rfl⟩ := Option.map_eq_some_iff.mp hstep
  have hkeep : ∀ {reply : Reply}, (∃ c healthy, .chose c healthy ∈ l.log ∧ c.reply = reply) →
      ∃ c healthy, .chose c healthy ∈ l.log ++ l.state.choices cfg e ∧ c.reply = reply := by
    rintro reply ⟨c, healthy, hmem, heq⟩
    exact ⟨c, healthy, List.mem_append_left _ hmem, heq⟩
  refine ⟨?_, ?_⟩
  · intro c hc
    rcases callback_of_step hstate hc with ⟨c', hc', heq⟩ | ⟨_, _, _, rfl, hnew⟩
    · rw [heq]
      exact hkeep (h.callbacks c' hc')
    · exact ⟨c, l.state.healthy, List.mem_append_right _ (List.mem_map_of_mem hnew), rfl⟩
  · intro reply hreply
    rcases List.mem_append.mp hreply with hold | hnew
    · exact hkeep (h.replied reply hold)
    · unfold Watched.choices at hnew
      split at hnew
      · obtain ⟨c, _, heq⟩ := List.mem_map.mp hnew
        cases heq
      · obtain ⟨c, hc, heq⟩ := Option.map_eq_some_iff.mp (Option.mem_toList.mp hnew)
        cases heq
        exact hkeep (h.callbacks c (List.mem_of_getElem? hc))
      · cases hnew

/-- In every run in which no private delivery finds an excluded server that it can choose, each
choice after the first update names a server of the last one, and each reply was so chosen. -/
theorem replies_name_healthy_servers_when_none_is_excluded (cfg : Settings)
    (repr : Json → PyStr) {es : List Event} {l : Logged Watched Choice}
    (h : Run (logged (Watched.step cfg repr) (Watched.choices cfg))
      (fun l e => FindsHealthy cfg l.state e) (.start (.create cfg)) es l) :
    (∀ choice ∈ l.log, choice.IsHealthy) ∧
    ∀ reply, .replied reply ∈ l.log → ∃ c healthy, .chose c healthy ∈ l.log ∧ c.reply = reply := by
  refine ⟨h.log_forall fun _ w e w' hrun hok hstep choice hchoice => ?_, ?_⟩
  · have hcurrent : Current cfg w :=
      hrun.invariant (current_create cfg) fun _ _ _ hi _ hs => current_step hi hs
    unfold Watched.choices at hchoice
    split at hchoice
    · rename_i subscription message random
      obtain ⟨c, hc, rfl⟩ := List.mem_map.mp hchoice
      obtain ⟨state, hstate, _⟩ := Option.map_eq_some_iff.mp hstep
      cases moves_of_step hstate with
      | deliver hq hfree =>
        exact fun healthy hhealthy url hurl =>
          chosen_is_healthy hcurrent hok.1 hq hok.2 hhealthy hc hurl
    · obtain ⟨c, _, rfl⟩ := Option.map_eq_some_iff.mp (Option.mem_toList.mp hchoice)
      trivial
    · cases hchoice
  · have hchosen : Chosen l := h.invariant
      (⟨fun _ hc => (by cases hc), fun _ hr => (by cases hr)⟩ : Chosen (.start (.create cfg)))
      fun _ _ _ hi _ hs => chosen_step hi hs
    exact hchosen.replied

/-- What a choice says: the url, the servers of the update, and whether it is a reply. -/
def Choice.summary : Choice → Option String × Option (List VLLMServer) × Bool
  | .chose c healthy => (c.llm_params.llm_url, healthy, false)
  | .replied reply => (reply.llm_params.llm_url, none, true)

/-- The server answers its first round of pings, and then a private request is delivered. -/
def answersWhenHealthy : List Event :=
  [.strategy (.ping [true]), .deliver (.server_queue 0) (privateCall "1") 0, .publish 0]

/-- The server does not answer its first round of pings. -/
def answersWhenExcluded : List Event :=
  [.strategy (.ping [false]), .deliver (.server_queue 0) (privateCall "1") 0, .publish 0]

/-- The machine of the one server, with its choices. -/
abbrev roundRobinChoices : Logged Watched Choice → Event → Option (Logged Watched Choice) :=
  logged (Watched.step roundRobinSettings noRepr) (Watched.choices roundRobinSettings)

theorem a_healthy_server_is_named : ∃ l,
    Run (logged (Watched.step roundRobinSettings noRepr) (Watched.choices roundRobinSettings))
      (fun l e => FindsHealthy roundRobinSettings l.state e)
      (.start (.create roundRobinSettings)) answersWhenHealthy l ∧
    (∀ choice ∈ l.log, choice.IsHealthy) ∧
    ∀ reply, .replied reply ∈ l.log →
      ∃ c healthy, .chose c healthy ∈ l.log ∧ c.reply = reply := by
  have hexec : ((roundRobinChoices (.start (.create roundRobinSettings))
      (.strategy (.ping [true]))).bind fun l =>
        (roundRobinChoices l (.deliver (.server_queue 0) (privateCall "1") 0)).bind fun l' =>
          (roundRobinChoices l' (.publish 0)).map fun _ => l.state.healthy) =
      some (some [⟨"http://a", none, "org", 1⟩]) := by decide +kernel
  obtain ⟨l, hl, hexec⟩ := Option.bind_eq_some_iff.mp hexec
  obtain ⟨l', hl', hexec⟩ := Option.bind_eq_some_iff.mp hexec
  obtain ⟨l'', hl'', hhealthy⟩ := Option.map_eq_some_iff.mp hexec
  have hfinds : FindsHealthy roundRobinSettings l.state
      (.deliver (.server_queue 0) (privateCall "1") 0) := by
    refine ⟨published_privateCall "1", ?_⟩
    intro healthy heq own hown server score hcandidate _
    rw [hhealthy] at heq
    cases heq
    exact List.mem_of_mem_filter hcandidate.mem
  have hrun : Run roundRobinChoices (fun l e => FindsHealthy roundRobinSettings l.state e)
      (.start (.create roundRobinSettings)) answersWhenHealthy l'' :=
    .snoc (.snoc (.snoc .nil ⟨trivial, trivial⟩ hl) hfinds hl') ⟨trivial, trivial⟩ hl''
  exact ⟨l'', hrun,
    replies_name_healthy_servers_when_none_is_excluded roundRobinSettings noRepr hrun⟩

/-- A private request is answered with the server that the last round of pings excluded. -/
theorem an_excluded_server_is_named :
    ¬∀ (cfg : Settings) (repr : Json → PyStr) (es : List Event) (l : Logged Watched Choice),
      Run (logged (Watched.step cfg repr) (Watched.choices cfg))
        (fun _ e => BringsRequest cfg e) (.start (.create cfg)) es l →
      ∀ reply, .replied reply ∈ l.log → ∃ c healthy, .chose c healthy ∈ l.log ∧
        c.reply = reply ∧ (Choice.chose c healthy).IsHealthy := by
  intro hall
  have hexec : ((exec roundRobinChoices (.start (.create roundRobinSettings))
      answersWhenExcluded).map fun l => l.log.map Choice.summary) =
      some [(some "http://a", some [], false), (some "http://a", none, true)] := by decide +kernel
  obtain ⟨l, hl, hlog⟩ := Option.map_eq_some_iff.mp hexec
  have hrun : Run roundRobinChoices (fun _ e => BringsRequest roundRobinSettings e)
      (.start (.create roundRobinSettings)) answersWhenExcluded l :=
    (run_of_exec hl).of_events (by
      simp [answersWhenExcluded, BringsRequest, roundRobinSettings, oneServerSettings,
        published_privateCall])
  have hreply : (some "http://a", none, true) ∈ l.log.map Choice.summary := by simp [hlog]
  obtain ⟨choice, hchoice, hsummary⟩ := List.mem_map.mp hreply
  cases choice with
  | chose c healthy => simp [Choice.summary] at hsummary
  | replied reply =>
    obtain ⟨c, healthy, hchose, _, hhealthy⟩ :=
      hall roundRobinSettings noRepr _ l hrun reply hchoice
    have hmem := List.mem_map_of_mem (f := Choice.summary) hchose
    simp only [hlog, Choice.summary, List.mem_cons, Prod.mk.injEq, List.not_mem_nil, or_false,
      Bool.false_eq_true, and_false, and_true] at hmem
    obtain ⟨server, hserver, _⟩ := hhealthy [] hmem.2 "http://a" hmem.1
    cases hserver

end aristote_dispatcher.rpc_server
