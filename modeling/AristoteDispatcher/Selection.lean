-- What the choice of a server finds at every await: the rounds of the pinger
-- (server_pinger.py) change the servers in several steps, can be cancelled at the
-- wait between them, and the tasks of the tracker and the callbacks run meanwhile.
import AristoteDispatcher.Monitoring
import AristoteDispatcher.SelectionPaths

open pydict pyfloat runs
open aristote_dispatcher.settings aristote_dispatcher.metrics_tracker
open aristote_dispatcher.rpc_server (servers choose_server_found)

namespace aristote_dispatcher.strategy

/-- What happens to a strategy: a step of a monitoring task, a round of the pinger, the end of
the wait in its update, the cancellation of the pinger, the stop of the tracker at the
shutdown, or a choice. -/
inductive SelectionEvent
  | task (e : TaskEvent)
  | ping (results : List Bool)
  | tasks_ended
  | pinger_cancelled
  | stop_monitor
  | choose_server (random : Nat)
  deriving DecidableEq, Repr

/-- `update_servers` up to its wait. A tracker that does not monitor has nothing to wait for. -/
def LeastBusy.round (self : LeastBusy) (servers : List VLLMServer) : LeastBusy :=
  if self.tracker.monitoring = false ∧ servers ≠ self.servers then self.updated servers
  else self.update_servers servers

def LeastBusy.select (configured : List VLLMServer) (self : LeastBusy) :
    SelectionEvent → Option LeastBusy
  | .task e => (self.tracker.taskStep e).map fun tracker => { self with tracker := tracker }
  | .ping results =>
    if self.updating = none ∧ results.length = configured.length then
      some (self.round (healthy_servers configured results))
    else none
  -- the wait is for the tasks of the last `monitor` only, so any tasks can be left
  | .tasks_ended => self.updating.map self.updated
  | .pinger_cancelled => some { self with updating := none }
  | .stop_monitor => some { self with tracker := self.tracker.stop_monitor }
  | .choose_server _ => some self

def RoundRobin.select (configured : List VLLMServer) (self : RoundRobin) :
    SelectionEvent → Option RoundRobin
  | .ping results =>
    if results.length = configured.length then
      some (self.update_servers (healthy_servers configured results))
    else none
  | .pinger_cancelled => some self
  | .choose_server _ => some self.choose_server.2
  | _ => none

def Strategy.select (cfg : Settings) (self : Strategy) (e : SelectionEvent) : Option Strategy :=
  match self with
  | .round_robin s => (s.select cfg.VLLM_SERVERS e).map .round_robin
  | .least_busy s => (s.select cfg.VLLM_SERVERS e).map .least_busy

/-- The url is a key of the dicts of the tracker. -/
def Followed (tr : MetricsTracker) (url : String) : Prop :=
  url ∈ tr.window_indexes ∧ url ∈ tr.time_to_first_token_last_histograms ∧
    url ∈ tr.time_to_first_token_diff_histograms

/-- The index is within the servers; the urls are those of the servers, and every url that a
choice or a task can look up is followed. -/
def Consistent (cfg : Settings) : Strategy → Prop
  | .round_robin s => s.servers ≠ [] → s.round_robin_idx < s.servers.length
  | .least_busy s => s.tracker.urls = s.servers.map (·.url) ∧
    (∀ url ∈ s.tracker.urls, Followed s.tracker url) ∧
    (∀ server ∈ cfg.VLLM_SERVERS, Followed s.tracker server.url) ∧
    ∀ t ∈ s.tracker.monitor_tasks, Followed s.tracker t.url

/-! ## The urls of the tasks -/

/-- Each task is one of a configured server. -/
def TasksConfigured (configured : List VLLMServer) (tr : MetricsTracker) : Prop :=
  ∀ t ∈ tr.monitor_tasks, ∃ server ∈ configured, server.url = t.url

variable {configured : List VLLMServer} {tr tr' : MetricsTracker}

theorem tasksConfigured_become (h : TasksConfigured configured tr) {t : MonitorTask}
    (ht : t ∈ tr.monitor_tasks) {next : List MonitorTask} (hnext : ∀ t' ∈ next, t'.url = t.url) :
    TasksConfigured configured (tr.become t next) := by
  intro t' ht'
  rcases List.mem_append.mp ht' with hnew | hold
  · rw [hnext t' hnew]
    exact h t ht
  · exact h t' (List.mem_of_mem_erase hold)

theorem url_of_loop_head {url : String} {t : MonitorTask} (h : t ∈ tr.loop_head url) :
    t.url = url := by
  obtain ⟨i, rfl, _⟩ := mem_loop_head h
  rfl

theorem tasksConfigured_taskStep (h : TasksConfigured configured tr) {e : TaskEvent}
    (hs : tr.taskStep e = some tr') : TasksConfigured configured tr' := by
  cases e with
  | start url =>
    obtain ⟨ht, heq⟩ := Option.ite_none_right_eq_some.mp hs
    cases heq
    exact tasksConfigured_become h ht fun t' => url_of_loop_head
  | wake url =>
    obtain ⟨ht, heq⟩ := Option.ite_none_right_eq_some.mp hs
    cases heq
    exact tasksConfigured_become h ht fun t' => url_of_loop_head
  | cancelled t =>
    obtain ⟨⟨ht, _⟩, heq⟩ := Option.ite_none_right_eq_some.mp hs
    cases heq
    exact tasksConfigured_become h ht fun t' ht' => by cases ht'
  | scrape url i o =>
    obtain ⟨ht, heq⟩ := Option.ite_none_right_eq_some.mp hs
    cases heq
    unfold MetricsTracker.scraped
    split
    · split
      · rename_i updated hu
        have htasks : (updated.advance url).monitor_tasks = tr.monitor_tasks :=
          (update_all_metrics_tasks hu).2.2.1
        have hsame : TasksConfigured configured (updated.advance url) := by
          intro t ht'
          rw [htasks] at ht'
          exact h t ht'
        refine tasksConfigured_become hsame (htasks ▸ ht) fun t' ht' => ?_
        rw [List.mem_singleton.mp ht']
      · exact tasksConfigured_become h ht fun t' ht' => by cases ht'
    · exact tasksConfigured_become h ht fun t' => url_of_loop_head
    · exact tasksConfigured_become h ht fun t' ht' => by cases ht'

theorem tasksConfigured_stop_monitor (h : TasksConfigured configured tr) :
    TasksConfigured configured tr.stop_monitor := by
  unfold MetricsTracker.stop_monitor
  split
  · intro t ht
    obtain ⟨t', ht', rfl⟩ := List.mem_map.mp ht
    exact h t' ht'
  · exact h

theorem tasksConfigured_monitor (h : TasksConfigured configured tr)
    (hurls : ∀ url ∈ tr.urls, ∃ server ∈ configured, server.url = url) :
    TasksConfigured configured tr.monitor := by
  unfold MetricsTracker.monitor
  split
  · exact h
  · intro t ht
    rcases List.mem_append.mp ht with hold | hnew
    · exact h t hold
    · obtain ⟨url, hurl, rfl⟩ := List.mem_map.mp hnew
      exact hurls url hurl

/-! ## The invariant -/

/-- A sound least busy whose tracker has a window for each configured url, and tasks of
configured urls only. -/
structure Selectable (configured : List VLLMServer) (n : Nat) (s : LeastBusy) : Prop where
  sound : LeastBusySound configured s
  windows : ∀ server ∈ configured, HasWindow s.tracker server.url n
  tasks : TasksConfigured configured s.tracker

variable {n : Nat} {s s' : LeastBusy}

theorem refresh_count_monitor (tr : MetricsTracker) :
    tr.monitor.refresh_count_per_window = tr.refresh_count_per_window := by
  unfold MetricsTracker.monitor
  split <;> rfl

theorem refresh_count_stop_monitor (tr : MetricsTracker) :
    tr.stop_monitor.refresh_count_per_window = tr.refresh_count_per_window := by
  unfold MetricsTracker.stop_monitor
  split <;> rfl

theorem selectable_create (configured : List VLLMServer) (hn : 0 < n) :
    Selectable configured n (LeastBusy.create configured n) := by
  refine ⟨leastBusySound_create configured n, fun server hs => ?_, ?_⟩
  · have hwindow := hasWindow_create hn (List.mem_map_of_mem (f := (·.url)) hs)
    exact hwindow.congr (refresh_count_monitor _) (slot_monitor _ _)
  · refine tasksConfigured_monitor (fun t ht => by cases ht) fun url hurl => ?_
    exact List.mem_map.mp hurl

/-- The tracker stops, and the servers stay. -/
theorem selectable_stop_monitor (h : Selectable configured n s)
    (hs : LeastBusySound configured s') (hstop : s'.tracker = s.tracker.stop_monitor) :
    Selectable configured n s' := by
  refine ⟨hs, fun server hserver => ?_, ?_⟩
  · rw [hstop]
    exact (h.windows server hserver).congr (refresh_count_stop_monitor _) (slot_stop_monitor _ _)
  · rw [hstop]
    exact tasksConfigured_stop_monitor h.tasks

/-- The update goes on after its wait, whatever happened in it. -/
theorem selectable_updated (h : Selectable configured n s) {servers : List VLLMServer}
    (hs : ∀ server ∈ servers, server ∈ configured) :
    Selectable configured n (s.updated servers) := by
  refine ⟨leastBusySound_updated h.sound hs, fun server hserver => ?_, ?_⟩
  · exact (h.windows server hserver).congr (refresh_count_monitor _) (slot_updated s servers _)
  · refine tasksConfigured_monitor h.tasks fun url hurl => ?_
    obtain ⟨server, hserver, rfl⟩ := List.mem_map.mp hurl
    exact ⟨server, hs server hserver, rfl⟩

theorem selectable_select (hn : 0 < n) {e : SelectionEvent} (h : Selectable configured n s)
    (hs : s.select configured e = some s') : Selectable configured n s' := by
  cases e with
  | task te =>
    have hsound := leastBusySound_step (e := .task te) h.sound hs
    obtain ⟨tr, ht, rfl⟩ := Option.map_eq_some_iff.mp hs
    refine ⟨hsound, fun server hserver => ?_, tasksConfigured_taskStep h.tasks ht⟩
    exact hasWindow_step (e := .task te) hn (h.windows server hserver) ht
  | ping results =>
    obtain ⟨_, heq⟩ := Option.ite_none_right_eq_some.mp hs
    cases heq
    unfold LeastBusy.round
    split
    · exact selectable_updated h fun server => mem_of_mem_healthy
    · have hsound : LeastBusySound configured
          (s.update_servers (healthy_servers configured results)) :=
        leastBusySound_update_servers h.sound fun server => mem_of_mem_healthy
      unfold LeastBusy.update_servers at hsound ⊢
      split
      · rename_i hne
        rw [if_pos hne] at hsound
        exact selectable_stop_monitor h hsound rfl
      · exact h
  | tasks_ended =>
    obtain ⟨servers, hupdating, rfl⟩ := Option.map_eq_some_iff.mp hs
    exact selectable_updated h (h.sound.updating servers hupdating)
  | pinger_cancelled =>
    cases hs
    refine ⟨⟨h.sound.servers, h.sound.urls, fun _ hu => ?_, h.sound.tracker⟩, h.windows, h.tasks⟩
    cases hu
  | stop_monitor =>
    cases hs
    refine selectable_stop_monitor h ⟨h.sound.servers, ?_, h.sound.updating, ?_⟩ rfl
    · exact (urls_stop_monitor _).trans h.sound.urls
    · exact trackerSound_congr h.sound.tracker (slot_stop_monitor _)
  | choose_server random =>
    cases hs
    exact h

theorem roundRobinSound_select {r r' : RoundRobin} {e : SelectionEvent}
    (h : RoundRobinSound configured r) (hs : r.select configured e = some r') :
    RoundRobinSound configured r' := by
  cases e with
  | ping results =>
    obtain ⟨_, heq⟩ := Option.ite_none_right_eq_some.mp hs
    cases heq
    exact roundRobinSound_of_subset fun server => mem_of_mem_healthy
  | pinger_cancelled =>
    cases hs
    exact h
  | choose_server random =>
    cases hs
    exact (roundRobin_choose_cases h).2
  | task te => cases hs
  | tasks_ended => cases hs
  | stop_monitor => cases hs

/-- What every state keeps, for either strategy. -/
def SelectionSound (cfg : Settings) : Strategy → Prop
  | .round_robin r => RoundRobinSound cfg.VLLM_SERVERS r
  | .least_busy s => Selectable cfg.VLLM_SERVERS cfg.REFRESH_COUNT_PER_WINDOW s

theorem selectionSound_create (cfg : Settings) : SelectionSound cfg (.create cfg) := by
  unfold Strategy.create
  cases cfg.ROUTING_STRATEGY with
  | least_busy => exact selectable_create _ cfg.refresh_count_pos
  | round_robin => exact roundRobinSound_of_subset fun server h => h

theorem selectionSound_select {cfg : Settings} {s s' : Strategy} {e : SelectionEvent}
    (h : SelectionSound cfg s) (hs : s.select cfg e = some s') : SelectionSound cfg s' := by
  cases s with
  | round_robin r =>
    obtain ⟨r', hr, rfl⟩ := Option.map_eq_some_iff.mp hs
    exact roundRobinSound_select h hr
  | least_busy s =>
    obtain ⟨s', hs', rfl⟩ := Option.map_eq_some_iff.mp hs
    exact selectable_select cfg.refresh_count_pos h hs'

/-! ## What a choice finds -/

theorem followed_of_window {url : String} (h : HasWindow tr url n) : Followed tr url := by
  obtain ⟨i, _, hi⟩ := h.index
  obtain ⟨ring, hring, _⟩ := h.ring
  obtain ⟨diff, hdiff⟩ := h.diff
  exact ⟨Dict.mem_of_lookup hi, Dict.mem_of_lookup hring, Dict.mem_of_lookup hdiff⟩

theorem consistent_of_sound {cfg : Settings} {s : Strategy} (h : SelectionSound cfg s) :
    Consistent cfg s := by
  cases s with
  | round_robin r => exact fun hne => h.idx.resolve_left hne
  | least_busy s =>
    refine ⟨h.sound.urls, fun url hurl => ?_, fun server hs => ?_, fun t ht => ?_⟩
    · rw [h.sound.urls] at hurl
      obtain ⟨server, hs, rfl⟩ := List.mem_map.mp hurl
      exact followed_of_window (h.windows server (h.sound.servers server hs))
    · exact followed_of_window (h.windows server hs)
    · obtain ⟨server, hs, hurl⟩ := h.tasks t ht
      rw [← hurl]
      exact followed_of_window (h.windows server hs)

/-- What a choice gives: a server of the current list; only a percentile or an empty list makes
it raise, and an empty list always does. -/
structure ChoosesCurrent (s : Strategy) (random : Nat) : Prop where
  current : ∀ server indicator, (s.choose_server random).1 = .ok (server, indicator) →
    server ∈ servers s
  raises : ∀ e, (s.choose_server random).1 = .error e →
    e = .PercentileComputationError ∨ e = .ServerNotFound
  not_found : (s.choose_server random).1 ≠ .error .PercentileComputationError →
    ((s.choose_server random).1 = .error .ServerNotFound ↔ servers s = [])

theorem choosesCurrent_round_robin {r : RoundRobin} (h : RoundRobinSound configured r)
    (random : Nat) : ChoosesCurrent (.round_robin r) random := by
  have hempty : r.servers = [] → (Strategy.choose_server (.round_robin r) random).1 =
      .error .ServerNotFound := by
    intro hnil
    simp only [Strategy.choose_server, RoundRobin.choose_server, if_pos hnil]
  have hfound : r.servers ≠ [] → ∃ server ∈ r.servers,
      (Strategy.choose_server (.round_robin r) random).1 = .ok (server, none) := by
    intro hne
    have hlt := h.idx.resolve_left hne
    refine ⟨r.servers[r.round_robin_idx], List.getElem_mem hlt, ?_⟩
    simp only [Strategy.choose_server, RoundRobin.choose_server, if_neg hne,
      List.getElem?_eq_getElem hlt]
  by_cases hnil : r.servers = []
  · have he := hempty hnil
    refine ⟨fun server indicator hc => ?_, fun e hc => ?_, fun _ => iff_of_true he hnil⟩
    · rw [he] at hc
      cases hc
    · rw [he] at hc
      cases hc
      exact .inr rfl
  · obtain ⟨server, hs, hc⟩ := hfound hnil
    refine ⟨fun server' indicator hc' => ?_, fun e hc' => ?_, fun _ => iff_of_false ?_ hnil⟩
    · rw [hc] at hc'
      cases hc'
      exact hs
    · rw [hc] at hc'
      cases hc'
    · rw [hc]
      exact fun hn => by cases hn

theorem choosesCurrent_least_busy (h : LeastBusySound configured s) (random : Nat) :
    ChoosesCurrent (.least_busy s) random := by
  rcases leastBusy_choose_cases h random with ⟨_, he⟩ | ⟨hall, _⟩
  · refine ⟨fun server indicator hc => ?_, fun e hc => ?_, fun hnot => absurd he hnot⟩
    · exact absurd (he.symm.trans hc) (fun hn => by cases hn)
    · cases he.symm.trans hc
      exact .inl rfl
  · have hdef : ∀ server ∈ s.servers, ∃ v, s.get_server_score server.url = .ok v := by
      intro server hs
      rcases get_server_score_iff h.tracker (h.servers server hs) with ⟨hu, _⟩ | ⟨_, v, _, hv⟩
      · exact absurd hu (hall _ (h.urls ▸ List.mem_map_of_mem hs))
      · exact ⟨v, hv⟩
    by_cases hnil : s.servers = []
    · have he : s.choose_server random = .error .ServerNotFound := by
        unfold LeastBusy.choose_server
        rw [h.urls, hnil]
        rfl
      refine ⟨fun server indicator hc => ?_, fun e hc => ?_, fun _ => iff_of_true he hnil⟩
      · exact absurd (he.symm.trans hc) (fun hn => by cases hn)
      · cases he.symm.trans hc
        exact .inr rfl
    · obtain ⟨server, hs, indicator, hc⟩ := choose_server_found h.urls hdef hnil random
      refine ⟨fun server' indicator' hc' => ?_, fun e hc' => ?_, fun _ => iff_of_false ?_ hnil⟩
      · cases hc.symm.trans hc'
        exact hs
      · cases hc.symm.trans hc'
      · intro hn
        cases hc.symm.trans hn

/-! ## The law -/

/-- In every run, at every await: the strategy is consistent, no score of a configured server
misses a key, and each choice gives a server of the current list, or raises for a percentile,
or finds none because the list is empty. -/
theorem every_choice_finds_a_consistent_strategy (cfg : Settings) {es : List SelectionEvent}
    {s : Strategy} (h : Run (Strategy.select cfg) Any (.create cfg) es s) :
    Consistent cfg s ∧
    (∀ server ∈ cfg.VLLM_SERVERS, s.get_server_score server.url ≠ .error .KeyError) ∧
    ∀ random, ChoosesCurrent s random := by
  have hsound : SelectionSound cfg s :=
    h.invariant (selectionSound_create cfg) fun _ _ _ hi _ hs => selectionSound_select hi hs
  refine ⟨consistent_of_sound hsound, fun server hs => ?_, fun random => ?_⟩
  · cases s with
    | round_robin r => exact fun he => by cases he
    | least_busy s =>
      intro he
      simp only [Strategy.get_server_score] at he
      rcases get_server_score_iff hsound.sound.tracker hs with ⟨_, hv⟩ | ⟨_, v, _, hv⟩
      · rw [hv] at he
        cases he
      · rw [hv] at he
        cases he
  · cases s with
    | round_robin r => exact choosesCurrent_round_robin hsound random
    | least_busy s => exact choosesCurrent_least_busy hsound.sound random

/-- The one server fails its ping, and the pinger is cancelled while the task of the tracker
ends. -/
def cancelledMidway : List SelectionEvent :=
  [.ping [false], .task (.cancelled ⟨"http://a", .starting, true⟩), .pinger_cancelled,
    .choose_server 0]

theorem a_cancelled_round_leaves_a_consistent_strategy : ∃ s,
    exec (Strategy.select (oneServerSettings .least_busy .warning_log))
      (.create (oneServerSettings .least_busy .warning_log)) cancelledMidway = some s ∧
    Consistent (oneServerSettings .least_busy .warning_log) s ∧
    ∀ random, ChoosesCurrent s random := by
  have hexec : (exec (Strategy.select (oneServerSettings .least_busy .warning_log))
      (.create (oneServerSettings .least_busy .warning_log)) cancelledMidway).isSome = true := by
    decide +kernel
  obtain ⟨s, hs⟩ := Option.isSome_iff_exists.mp hexec
  obtain ⟨hconsistent, _, hchooses⟩ := every_choice_finds_a_consistent_strategy
    (oneServerSettings .least_busy .warning_log) (run_of_exec hs)
  exact ⟨s, hs, hconsistent, hchooses⟩

end aristote_dispatcher.strategy
