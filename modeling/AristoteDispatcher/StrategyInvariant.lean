-- What every reachable strategy keeps: its servers are configured ones, the
-- tracker follows exactly them and has a difference for each configured url,
-- and no bound of a histogram is below zero. From it, when a choice raises.
import AristoteDispatcher.WindowCounts

open pydict pyfloat
open aristote_dispatcher.settings aristote_dispatcher.histogram
open aristote_dispatcher.metrics_tracker
open aristote_dispatcher.rpc_server (UrlField)

namespace aristote_dispatcher.strategy

variable {T O L U : Type} [DecidableEq U]

/-- The histograms of a tracker. -/
structure TrackerSound (configured : List (VLLMServer T O L U)) (tr : MetricsTracker U) : Prop where
  diffs : ∀ server ∈ configured,
    ∃ diff, tr.time_to_first_token_diff_histograms.lookup server.url = some diff
  diff_bounds : ∀ url diff, tr.time_to_first_token_diff_histograms.lookup url = some diff →
    BoundsNonneg diff
  ring_bounds : ∀ url ring, tr.time_to_first_token_last_histograms.lookup url = some ring →
    ∀ h ∈ ring, BoundsNonneg h

structure LeastBusySound (configured : List (VLLMServer T O L U)) (s : LeastBusy T O L U) :
    Prop where
  servers : ∀ server ∈ s.servers, server ∈ configured
  urls : s.tracker.urls = s.servers.map (·.url)
  updating : ∀ servers, s.updating = some servers → ∀ server ∈ servers, server ∈ configured
  tracker : TrackerSound configured s.tracker

structure RoundRobinSound (configured : List (VLLMServer T O L U)) (s : RoundRobin T O L U) :
    Prop where
  servers : ∀ server ∈ s.servers, server ∈ configured
  idx : s.servers = [] ∨ s.round_robin_idx < s.servers.length

/-- The strategy is the one that the settings name, and it is sound. -/
def StrategySound (cfg : Settings T O L U) : Strategy T O L U → Prop
  | .round_robin s => cfg.ROUTING_STRATEGY = .round_robin ∧ RoundRobinSound cfg.VLLM_SERVERS s
  | .least_busy s => cfg.ROUTING_STRATEGY = .least_busy ∧ LeastBusySound cfg.VLLM_SERVERS s

/-! ## The tracker -/

theorem trackerSound_congr {configured : List (VLLMServer T O L U)} {tr tr' : MetricsTracker U}
    (h : TrackerSound configured tr) (hs : ∀ url, tr'.slot url = tr.slot url) :
    TrackerSound configured tr' := by
  refine ⟨?_, ?_, ?_⟩
  · intro server hserver
    rw [(diff_of_slot (hs server.url)).2]
    exact h.diffs server hserver
  · intro url diff hd
    rw [(diff_of_slot (hs url)).2] at hd
    exact h.diff_bounds url diff hd
  · intro url ring hr
    rw [(diff_of_slot (hs url)).1] at hr
    exact h.ring_bounds url ring hr

theorem boundsNonneg_empty : BoundsNonneg ∅ := fun b hb => absurd hb (AList.notMem_empty b)

theorem trackerSound_create (configured : List (VLLMServer T O L U)) (n : Nat) :
    TrackerSound configured (MetricsTracker.create (configured.map (·.url)) n) := by
  refine ⟨?_, ?_, ?_⟩
  · intro server hserver
    simp only [MetricsTracker.create, Dict.lookup_ofKeys]
    exact ⟨_, if_pos (List.mem_map_of_mem hserver)⟩
  · intro url diff hd
    simp only [MetricsTracker.create, Dict.lookup_ofKeys] at hd
    split at hd
    · cases hd
      exact boundsNonneg_empty
    · cases hd
  · intro url ring hr h hh
    simp only [MetricsTracker.create, Dict.lookup_ofKeys] at hr
    split at hr
    · cases hr
      rw [(List.mem_replicate.mp hh).2]
      exact boundsNonneg_empty
    · cases hr

theorem trackerSound_scraped {configured : List (VLLMServer T O L U)} {tr : MetricsTracker U}
    (h : TrackerSound configured tr) (url : U) (text : String) (i : Nat) :
    TrackerSound configured (tr.scraped url i (.content text)) := by
  rcases scraped_cases tr url text i with
    ⟨new, ring, last, diff, _, hnew, hring, hlast, hdiff, hw, hd⟩ | ⟨_, hw, hd⟩
  · have hb := parse_boundsNonneg hnew
    have hl := h.ring_bounds url ring hring last (List.mem_of_getElem? hlast)
    have hdb := h.diff_bounds url diff hdiff
    refine ⟨?_, ?_, ?_⟩
    · intro server hserver
      rw [hd, Dict.lookup_insert_eq]
      split
      · exact ⟨_, rfl⟩
      · exact h.diffs server hserver
    · intro u d hlookup
      rw [hd, Dict.lookup_insert_eq] at hlookup
      split at hlookup
      · cases hlookup
        exact boundsNonneg_update hdb (boundsNonneg_sub hb hl)
      · exact h.diff_bounds u d hlookup
    · intro u r hlookup g hg
      rw [hw, Dict.lookup_insert_eq] at hlookup
      split at hlookup
      · cases hlookup
        rcases List.mem_or_eq_of_mem_set hg with hg | rfl
        · exact h.ring_bounds url ring hring g hg
        · exact boundsNonneg_update hl hb
      · exact h.ring_bounds u r hlookup g hg
  · refine ⟨?_, ?_, ?_⟩
    · rw [hd]; exact h.diffs
    · rw [hd]; exact h.diff_bounds
    · rw [hw]; exact h.ring_bounds

theorem urls_taskStep {tr tr' : MetricsTracker U} {e : TaskEvent U} (h : tr.taskStep e = some tr') :
    tr'.urls = tr.urls := by
  cases e with
  | scrape url i o =>
    obtain ⟨_, hs⟩ := Option.ite_none_right_eq_some.mp h
    cases hs
    unfold MetricsTracker.scraped
    split
    · split
      · rename_i hok
        exact (update_all_metrics_tasks hok).1
      · rfl
    · rfl
    · rfl
  | start url =>
    obtain ⟨_, hs⟩ := Option.ite_none_right_eq_some.mp h
    cases hs
    rfl
  | wake url =>
    obtain ⟨_, hs⟩ := Option.ite_none_right_eq_some.mp h
    cases hs
    rfl
  | cancelled t =>
    obtain ⟨_, hs⟩ := Option.ite_none_right_eq_some.mp h
    cases hs
    rfl

/-! ## The strategies -/

omit [DecidableEq U] in
theorem urls_monitor (tr : MetricsTracker U) : tr.monitor.urls = tr.urls := by
  unfold MetricsTracker.monitor
  split <;> rfl

omit [DecidableEq U] in
theorem urls_stop_monitor (tr : MetricsTracker U) : tr.stop_monitor.urls = tr.urls := by
  unfold MetricsTracker.stop_monitor
  split <;> rfl

theorem leastBusySound_create (configured : List (VLLMServer T O L U)) (n : Nat) :
    LeastBusySound configured (LeastBusy.create configured n) := by
  refine ⟨fun server h => h, urls_monitor _, ?_, ?_⟩
  · intro servers h
    cases h
  · exact trackerSound_congr (trackerSound_create configured n) (slot_create configured n)

/-- An update of the servers, up to its wait. -/
theorem leastBusySound_update_servers [DecidableEq T] [DecidableEq O] [DecidableEq L]
    {configured servers : List (VLLMServer T O L U)} {s : LeastBusy T O L U}
    (h : LeastBusySound configured s) (hs : ∀ server ∈ servers, server ∈ configured) :
    LeastBusySound configured (s.update_servers servers) := by
  unfold LeastBusy.update_servers
  split
  · refine ⟨h.servers, (urls_stop_monitor _).trans h.urls, ?_, ?_⟩
    · intro servers' hu server hserver
      cases hu
      exact hs server hserver
    · exact trackerSound_congr h.tracker (slot_stop_monitor _)
  · exact h

/-- The rest of an update, after the wait. -/
theorem leastBusySound_updated {configured servers : List (VLLMServer T O L U)}
    {s : LeastBusy T O L U}
    (h : LeastBusySound configured s) (hs : ∀ server ∈ servers, server ∈ configured) :
    LeastBusySound configured (s.updated servers) := by
  refine ⟨hs, urls_monitor _, ?_, ?_⟩
  · intro servers' hu'
    cases hu'
  · exact trackerSound_congr h.tracker (slot_updated s servers)

theorem leastBusySound_step [DecidableEq T] [DecidableEq O] [DecidableEq L]
    {configured : List (VLLMServer T O L U)} {s s' : LeastBusy T O L U}
    {e : StrategyEvent U} (h : LeastBusySound configured s)
    (hs : s.step configured e = some s') : LeastBusySound configured s' := by
  cases e with
  | task te =>
    obtain ⟨tr, ht, rfl⟩ := Option.map_eq_some_iff.mp hs
    refine ⟨h.servers, (urls_taskStep ht).trans h.urls, h.updating, ?_⟩
    rcases step_cases (e := .task te) ht with ⟨url, i, text, _, _, rfl⟩ | ⟨_, hsame⟩
    · exact trackerSound_scraped h.tracker url text i
    · exact trackerSound_congr h.tracker hsame.slot
  | ping results =>
    obtain ⟨_, hs⟩ := Option.ite_none_right_eq_some.mp hs
    cases hs
    exact leastBusySound_update_servers h fun server => mem_of_mem_healthy
  | tasks_ended =>
    simp only [LeastBusy.step] at hs
    split at hs
    · rename_i servers hu
      obtain ⟨_, hs⟩ := Option.ite_none_right_eq_some.mp hs
      cases hs
      exact leastBusySound_updated h (h.updating servers hu)
    · cases hs

omit [DecidableEq U] in
theorem roundRobinSound_of_subset {configured servers : List (VLLMServer T O L U)}
    (h : ∀ server ∈ servers, server ∈ configured) : RoundRobinSound configured ⟨servers, 0⟩ := by
  refine ⟨h, ?_⟩
  rcases servers with _ | ⟨server, servers⟩
  · exact .inl rfl
  · exact .inr (Nat.succ_pos _)

theorem strategySound_create (cfg : Settings T O L U) : StrategySound cfg (.create cfg) := by
  unfold Strategy.create
  cases hr : cfg.ROUTING_STRATEGY with
  | least_busy => exact ⟨hr, leastBusySound_create _ _⟩
  | round_robin => exact ⟨hr, roundRobinSound_of_subset fun server h => h⟩

theorem strategySound_step [DecidableEq T] [DecidableEq O] [DecidableEq L]
    {cfg : Settings T O L U} {s s' : Strategy T O L U} {e : StrategyEvent U}
    (h : StrategySound cfg s) (hs : s.step cfg.VLLM_SERVERS e = some s') :
    StrategySound cfg s' := by
  cases s with
  | least_busy s =>
    obtain ⟨t, ht, rfl⟩ := Option.map_eq_some_iff.mp hs
    exact ⟨h.1, leastBusySound_step h.2 ht⟩
  | round_robin s =>
    obtain ⟨t, ht, rfl⟩ := Option.map_eq_some_iff.mp hs
    refine ⟨h.1, ?_⟩
    cases e with
    | ping results =>
      obtain ⟨_, ht⟩ := Option.ite_none_right_eq_some.mp ht
      cases ht
      exact roundRobinSound_of_subset fun server => mem_of_mem_healthy
    | task te => cases ht
    | tasks_ended => cases ht

/-! ## What a choice can do -/

/-- The difference of the url is such that its percentile raises. -/
def UnreachedAt (s : LeastBusy T O L U) (url : U) : Prop :=
  ∃ diff, s.tracker.time_to_first_token_diff_histograms.lookup url = some diff ∧ Unreached diff

/-- The difference of the url is empty. -/
def EmptyAt (s : LeastBusy T O L U) (url : U) : Prop :=
  ∃ diff, s.tracker.time_to_first_token_diff_histograms.lookup url = some diff ∧
    totalOf diff = none

/-- The score of a configured server: its percentile raises, or its difference is empty and
the score is -1, or the score is a bound. -/
theorem get_server_score_cases {configured : List (VLLMServer T O L U)} {s : LeastBusy T O L U}
    (h : TrackerSound configured s.tracker) {server : VLLMServer T O L U}
    (hs : server ∈ configured) :
    (UnreachedAt s server.url ∧
      s.get_server_score server.url = .error .PercentileComputationError) ∨
    (¬UnreachedAt s server.url ∧ EmptyAt s server.url ∧
      s.get_server_score server.url = .ok (.fin (-1))) ∨
    (¬UnreachedAt s server.url ∧ ¬EmptyAt s server.url ∧
      ∃ b : Bound, 0 ≤ b ∧ s.get_server_score server.url = .ok (.ofBound b)) := by
  obtain ⟨diff, hdiff⟩ := h.diffs server hs
  have hun : UnreachedAt s server.url ↔ Unreached diff := by
    constructor
    · rintro ⟨d, hd, hu⟩
      rw [hdiff] at hd
      cases hd
      exact hu
    · exact fun hu => ⟨diff, hdiff, hu⟩
  have hem : EmptyAt s server.url ↔ totalOf diff = none := by
    constructor
    · rintro ⟨d, hd, hu⟩
      rw [hdiff] at hd
      cases hd
      exact hu
    · exact fun hu => ⟨diff, hdiff, hu⟩
  rw [hun, hem]
  unfold LeastBusy.get_server_score
  rw [hdiff]
  rcases get_percentile_cases diff with ⟨ht, hp⟩ | ⟨hu, i, b, hb, hp⟩ | ⟨hu, hp⟩
  · refine .inr (.inl ⟨?_, ht, by simp only [hp]; rfl⟩)
    rintro ⟨total, htotal, _⟩
    rw [ht] at htotal
    cases htotal
  · refine .inr (.inr ⟨hu, ?_, b, h.diff_bounds server.url diff hdiff b hb, by simp only [hp]; rfl⟩)
    intro ht
    obtain ⟨c, hc⟩ := Dict.exists_of_mem hb
    unfold totalOf at ht
    rw [Option.map_eq_none_iff, List.getLast?_eq_none_iff] at ht
    have hm := mem_sorted_buckets.mpr hc
    rw [ht] at hm
    cases hm
  · exact .inl ⟨hu, by simp only [hp]⟩

theorem ofBound_ne_nan (b : Bound) : PyFloat.ofBound b ≠ .nan := by
  rcases b with _ | q
  · exact fun h => by cases h
  · exact fun h => by cases h

/-- A score is -1 or a bound. -/
theorem score_ne_nan {s : LeastBusy T O L U} {url : U} {v : PyFloat}
    (h : s.get_server_score url = .ok v) : v ≠ .nan := by
  unfold LeastBusy.get_server_score at h
  split at h
  · cases h
  · split at h
    · cases h
    · rename_i percentile _
      cases h
      rcases percentile with _ | ⟨_, bound⟩
      · exact fun hn => by cases hn
      · exact ofBound_ne_nan bound

theorem strategy_score_ne_nan {s : Strategy T O L U} {url : U} {v : PyFloat}
    (h : s.get_server_score url = .ok (some v)) : v ≠ .nan := by
  cases s with
  | round_robin s => cases h
  | least_busy s =>
    simp only [Strategy.get_server_score] at h
    split at h
    · rename_i hscore
      cases h
      exact score_ne_nan hscore
    · cases h

theorem get_server_score_iff {configured : List (VLLMServer T O L U)} {s : LeastBusy T O L U}
    (h : TrackerSound configured s.tracker) {server : VLLMServer T O L U}
    (hs : server ∈ configured) :
    (UnreachedAt s server.url ∧
      s.get_server_score server.url = .error .PercentileComputationError) ∨
    (¬UnreachedAt s server.url ∧ ∃ v, v ≠ .nan ∧ s.get_server_score server.url = .ok v) := by
  rcases get_server_score_cases h hs with he | ⟨hu, _, he⟩ | ⟨hu, _, b, _, he⟩
  · exact .inl he
  · exact .inr ⟨hu, _, score_ne_nan he, he⟩
  · exact .inr ⟨hu, _, score_ne_nan he, he⟩

/-- No score of the dict is a NaN. -/
def NoNan (scores : Dict U PyFloat) : Prop :=
  ∀ url v, scores.lookup url = some v → v ≠ .nan

/-- The loop over the urls: it raises at a percentile that is not reached, and gathers the
scores otherwise. -/
theorem scoreUrls_cases {configured : List (VLLMServer T O L U)} {s : LeastBusy T O L U}
    (h : TrackerSound configured s.tracker) {servers : List (VLLMServer T O L U)}
    (hs : ∀ server ∈ servers, server ∈ configured) (acc : Dict U PyFloat × Option U)
    (hacc : NoNan acc.1) :
    ((∃ url ∈ servers.map (·.url), UnreachedAt s url) ∧
      (servers.map (·.url)).foldlM s.scoreUrl acc = .error .PercentileComputationError) ∨
    ((∀ url ∈ servers.map (·.url), ¬UnreachedAt s url) ∧
      ∃ acc', (servers.map (·.url)).foldlM s.scoreUrl acc = .ok acc' ∧ NoNan acc'.1) := by
  induction servers generalizing acc with
  | nil => exact .inr ⟨by simp, acc, rfl, hacc⟩
  | cons server servers ih =>
    rw [List.map_cons, List.foldlM_cons]
    rcases get_server_score_iff h (hs server List.mem_cons_self) with ⟨hu, he⟩ | ⟨hu, v, hv, he⟩
    · refine .inl ⟨⟨server.url, List.mem_cons_self, hu⟩, ?_⟩
      simp [LeastBusy.scoreUrl, he, bind, Except.bind]
    · have hnext : NoNan (acc.1.insert server.url v) := by
        intro k w hk
        rw [Dict.lookup_insert_eq] at hk
        split at hk
        · cases hk
          exact hv
        · exact hacc k w hk
      have hstep : s.scoreUrl acc server.url = .ok (acc.1.insert server.url v,
          if v.eq (.fin (-1)) then some server.url else acc.2) := by
        unfold LeastBusy.scoreUrl
        rw [he]
      rw [hstep]
      rcases ih (fun x hx => hs x (List.mem_cons_of_mem _ hx)) (_, _) hnext with
        ⟨⟨url, hurl, hun⟩, hf⟩ | ⟨hall, acc', hf, hn⟩
      · exact .inl ⟨⟨url, List.mem_cons_of_mem _ hurl, hun⟩, hf⟩
      · refine .inr ⟨?_, acc', hf, hn⟩
        intro url hurl
        rcases List.mem_cons.mp hurl with rfl | hurl
        · exact hu
        · exact hall url hurl

theorem eq_self_of_ne_nan {v : PyFloat} (h : v ≠ .nan) : v.eq v = true := by
  simp [PyFloat.eq, h]

/-- With scores and no NaN, some url has the least one. -/
theorem least_busy_ok {scores : Dict U PyFloat} (hne : scores.items ≠ [])
    (hn : NoNan scores) (random : Nat) : ∃ r, least_busy scores random = .ok r := by
  have hvalues : scores.items.map (·.2) ≠ [] := by simpa using hne
  obtain ⟨v, hv⟩ := exists_minimum hvalues
  obtain ⟨⟨k, w⟩, hk, rfl⟩ := List.mem_map.mp (minimum_mem hv)
  have hw := hn k w (Dict.mem_items_iff_lookup.mp hk)
  have hcand : (scores.items.filter fun e => e.2.eq w).map (·.1) ≠ [] := by
    have hm : k ∈ (scores.items.filter fun e => e.2.eq w).map (·.1) :=
      List.mem_map.mpr ⟨(k, w), List.mem_filter.mpr ⟨hk, eq_self_of_ne_nan hw⟩, rfl⟩
    exact List.ne_nil_of_mem hm
  obtain ⟨url, _, hc⟩ := choice_of_ne_nil hcand random
  unfold least_busy
  simp only [hv, hc]
  exact ⟨_, rfl⟩

theorem leastBusyUrl_ok [UrlField U] {acc : Dict U PyFloat × Option U} (hn : NoNan acc.1)
    (random : Nat) : ∃ r, leastBusyUrl random acc = .ok r := by
  obtain ⟨scores, url⟩ := acc
  by_cases hif : scores.items ≠ [] ∧ isFalsy url
  · obtain ⟨r, hr⟩ := least_busy_ok hif.1 hn random
    simp only [leastBusyUrl, if_pos hif, hr]
    exact ⟨_, rfl⟩
  · simp only [leastBusyUrl, if_neg hif]
    exact ⟨_, rfl⟩

/-- `choose_server` of least busy raises exactly at a percentile that is not reached. -/
theorem leastBusy_choose_cases [UrlField U] {configured : List (VLLMServer T O L U)}
    {s : LeastBusy T O L U} (h : LeastBusySound configured s) (random : Nat) :
    ((∃ url ∈ s.tracker.urls, UnreachedAt s url) ∧
      s.choose_server random = .error .PercentileComputationError) ∨
    ((∀ url ∈ s.tracker.urls, ¬UnreachedAt s url) ∧
      ((∃ server ∈ configured, ∃ indicator, s.choose_server random = .ok (server, indicator)) ∨
        s.choose_server random = .error .ServerNotFound)) := by
  rw [h.urls]
  unfold LeastBusy.choose_server
  rw [h.urls]
  rcases scoreUrls_cases h.tracker h.servers (∅, none) (fun k v hk => by cases hk) with
    ⟨hu, he⟩ | ⟨hall, acc, he, hn⟩
  · refine .inl ⟨hu, ?_⟩
    rw [he]
    rfl
  · refine .inr ⟨hall, ?_⟩
    obtain ⟨⟨url, indicator⟩, hr⟩ := leastBusyUrl_ok hn random
    simp only [he, hr, bind, Except.bind]
    cases hf : s.servers.find? fun server => some server.url = url with
    | none => exact .inr rfl
    | some server =>
      exact .inl ⟨server, h.servers server (List.mem_of_find?_eq_some hf), indicator, rfl⟩

omit [DecidableEq U] in
theorem roundRobin_choose_cases {configured : List (VLLMServer T O L U)} {s : RoundRobin T O L U}
    (h : RoundRobinSound configured s) :
    ((∃ server ∈ configured, s.choose_server.1 = .ok server) ∨
      s.choose_server.1 = .error .ServerNotFound) ∧
    RoundRobinSound configured s.choose_server.2 := by
  unfold RoundRobin.choose_server
  split
  · exact ⟨.inr rfl, h⟩
  · rename_i hne
    have hlt := h.idx.resolve_left hne
    rw [List.getElem?_eq_getElem hlt]
    refine ⟨.inl ⟨_, h.servers _ (List.getElem_mem hlt), rfl⟩, h.servers, .inr ?_⟩
    exact Nat.mod_lt _ (List.length_pos_of_ne_nil hne)

/-- A choice among all servers raises. -/
def ChoiceRaises : Strategy T O L U → Prop
  | .round_robin _ => False
  | .least_busy s => ∃ url ∈ s.tracker.urls, UnreachedAt s url

/-- What a choice can do: it raises, it gives a configured server, with a score only where
there is a threshold, or it finds none. -/
theorem choose_server_cases [UrlField U] {cfg : Settings T O L U} {s : Strategy T O L U}
    (h : StrategySound cfg s) (random : Nat) :
    (ChoiceRaises s ∧ (s.choose_server random).1 = .error .PercentileComputationError) ∨
    (¬ChoiceRaises s ∧
      ((∃ server ∈ cfg.VLLM_SERVERS, ∃ indicator,
          (s.choose_server random).1 = .ok (server, indicator) ∧
          (indicator ≠ none → cfg.TIME_TO_FIRST_TOKEN_THRESHOLD ≠ none)) ∨
        (s.choose_server random).1 = .error .ServerNotFound)) := by
  cases s with
  | round_robin s =>
    refine .inr ⟨id, ?_⟩
    rcases (roundRobin_choose_cases h.2).1 with ⟨server, hs, he⟩ | he
    · refine .inl ⟨server, hs, none, ?_, fun hne => absurd rfl hne⟩
      simp only [Strategy.choose_server, he]
    · exact .inr (by simp only [Strategy.choose_server, he])
  | least_busy s =>
    obtain ⟨t, ht⟩ := threshold_of_least_busy cfg h.1
    rcases leastBusy_choose_cases h.2 random with ⟨hu, he⟩ | ⟨hall, ⟨server, hs, ind, he⟩ | he⟩
    · exact .inl ⟨hu, he⟩
    · refine .inr ⟨?_, .inl ⟨server, hs, ind, he, fun _ => by simp [ht]⟩⟩
      rintro ⟨url, hurl, hu⟩
      exact hall url hurl hu
    · refine .inr ⟨?_, .inr he⟩
      rintro ⟨url, hurl, hu⟩
      exact hall url hurl hu

theorem strategySound_choose [UrlField U] {cfg : Settings T O L U} {s : Strategy T O L U}
    (h : StrategySound cfg s) (random : Nat) : StrategySound cfg (s.choose_server random).2 := by
  cases s with
  | round_robin s => exact ⟨h.1, (roundRobin_choose_cases h.2).2⟩
  | least_busy s => exact h

end aristote_dispatcher.strategy
