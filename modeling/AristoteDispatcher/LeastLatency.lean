-- Where the requests go with least busy. Whatever the pings, the failed scrapes and the
-- restarts of the tracker do in the life of a consumer, a choice goes to the server whose
-- requests of the window had their first token soonest, by the percentile of its buckets.
import AristoteDispatcher.Latencies
import AristoteDispatcher.Lifecycle

open pydict pyfloat runs exposition samples
open aristote_dispatcher.settings aristote_dispatcher.histogram
open aristote_dispatcher.metrics_tracker aristote_dispatcher.strategy
open aristote_dispatcher.rpc_server

namespace aristote_dispatcher.main_consumer

variable {cfg : Settings} {c c' : Consumer} {e : Event}

/-! ## The scrapes of a run -/

/-- The texts that the server returned in the run. -/
def scrapes (url : String) (es : List Event) : List String :=
  es.filterMap fun
    | .tracker e => contentOf url (.task e)
    | _ => none

/-- The strategies have the same histograms. -/
def Kept : Strategy → Strategy → Prop
  | .least_busy s, .least_busy s' => SameHistograms s.tracker s'.tracker
  | .round_robin _, .round_robin _ => True
  | _, _ => False

theorem Kept.refl (s : Strategy) : Kept s s := by
  cases s with
  | least_busy s => exact ⟨rfl, fun _ => rfl⟩
  | round_robin s => trivial

theorem sameHistograms_stop_monitor (tr : MetricsTracker) : SameHistograms tr tr.stop_monitor :=
  ⟨refresh_count_stop_monitor tr, slot_stop_monitor tr⟩

theorem sameHistograms_updated (s : LeastBusy) (servers : List VLLMServer) :
    SameHistograms s.tracker (s.updated servers).tracker :=
  ⟨refresh_count_monitor _, slot_updated s servers⟩

/-- Only a task of the tracker changes a histogram. -/
theorem kept_select {s s' : Strategy} {e : SelectionEvent} (he : ∀ te, e ≠ .task te)
    (hs : s.select cfg e = some s') : Kept s s' := by
  cases s with
  | round_robin self =>
    obtain ⟨self', _, rfl⟩ := select_round_robin hs
    trivial
  | least_busy self =>
    obtain ⟨self', hself, rfl⟩ := select_least_busy hs
    cases e with
    | task te => exact absurd rfl (he te)
    | ping results =>
      obtain ⟨_, heq⟩ := Option.ite_none_right_eq_some.mp hself
      cases heq
      unfold LeastBusy.round
      split
      · exact sameHistograms_updated self _
      · unfold LeastBusy.update_servers
        split
        · exact sameHistograms_stop_monitor self.tracker
        · exact .refl (.least_busy self)
    | tasks_ended =>
      obtain ⟨l, _, rfl⟩ := Option.map_eq_some_iff.mp hself
      exact sameHistograms_updated self l
    | pinger_cancelled =>
      cases hself
      exact .refl (.least_busy self)
    | stop_monitor =>
      cases hself
      exact sameHistograms_stop_monitor self.tracker
    | choose_server random =>
      cases hself
      exact .refl (.least_busy self)

theorem kept_stop_tracker (c : Consumer) : Kept c.strategy c.stop_tracker.strategy := by
  unfold Consumer.stop_tracker
  split
  · exact .refl _
  · rename_i self hself
    rw [hself]
    exact sameHistograms_stop_monitor self.tracker

theorem kept_stop_pinger (c : Consumer) : Kept c.strategy c.stop_pinger.strategy := by
  unfold Consumer.stop_pinger
  split
  · exact .refl _
  · exact kept_stop_tracker c

theorem kept_step (he : ∀ te, e ≠ .tracker te) (hs : c.step cfg e = some c') :
    Kept c.strategy c'.strategy := by
  cases moves_of_step hs with
  | signalled hmain => exact kept_stop_pinger c
  | @closed ok hmain => exact kept_stop_pinger { c with connection := c.connection && !ok }
  | pinger_ended hmain htask => exact kept_stop_tracker c
  | pinged htask hc hselect => exact kept_select (fun _ h => (by cases h)) hselect
  | updated htask hc hselect => exact kept_select (fun _ h => (by cases h)) hselect
  | cancelled htask hc hselect => exact kept_select (fun _ h => (by cases h)) hselect
  | choose_server hselect => exact kept_select (fun _ h => (by cases h)) hselect
  | tracker hselect => exact absurd rfl (he _)
  | _ => exact .refl _

/-- The strategy slides the window of the url over the scrapes of the run. -/
def SlidesOver (n : Nat) (url : String) (es : List Event) : Strategy → Prop
  | .round_robin _ => False
  | .least_busy s => ∀ hs, Scraped (scrapes url es) hs → KeysGrow hs → Slides s.tracker url n hs

theorem scrapes_snoc_tracker (url : String) (es : List Event) (te : TaskEvent) :
    scrapes url (es ++ [.tracker te]) =
      scrapes url es ++ (contentOf url (.task te)).toList := by
  unfold scrapes
  rw [List.filterMap_append]
  cases h : contentOf url (.task te) <;> simp [h]

theorem scrapes_snoc_of_ne (url : String) (es : List Event) (he : ∀ te, e ≠ .tracker te) :
    scrapes url (es ++ [e]) = scrapes url es := by
  unfold scrapes
  rw [List.filterMap_append]
  cases e with
  | tracker te => exact absurd rfl (he te)
  | _ => exact List.append_nil _

theorem slidesOver_create {server : VLLMServer} (hstrategy : cfg.ROUTING_STRATEGY = .least_busy)
    (hs : server ∈ cfg.VLLM_SERVERS) :
    SlidesOver cfg.REFRESH_COUNT_PER_WINDOW server.url [] (.create cfg) := by
  unfold Strategy.create
  rw [hstrategy]
  intro hists hscraped _
  have hnil : hists = [] := List.map_eq_nil_iff.mp hscraped.2.symm
  rw [hnil]
  have hslides := slides_create cfg.REFRESH_COUNT_PER_WINDOW (List.mem_map_of_mem (f := (·.url)) hs)
  exact hslides.congr (refresh_count_monitor _) (slot_monitor _ _)

theorem slidesOver_step {n : Nat} {url : String} {es : List Event} (hn : 0 < n)
    (ho : InOrder c.strategy) (h : SlidesOver n url es c.strategy) (hs : c.step cfg e = some c') :
    SlidesOver n url (es ++ [e]) c'.strategy := by
  by_cases he : ∀ te, e ≠ .tracker te
  · have hkept := kept_step he hs
    revert h hkept
    cases c.strategy with
    | round_robin self => exact fun h => h.elim
    | least_busy self =>
      cases c'.strategy with
      | round_robin self' => exact fun _ hkept => hkept.elim
      | least_busy self' =>
        intro h hkept hists hscraped hgrow
        rw [scrapes_snoc_of_ne url es he] at hscraped
        exact (h hists hscraped hgrow).congr hkept.refresh_count (hkept.slot url)
  · obtain ⟨te, rfl⟩ := not_forall_not.mp he
    cases moves_of_step hs with
    | tracker hselect =>
      revert ho h hselect
      cases c.strategy with
      | round_robin self => exact fun _ h => h.elim
      | least_busy self =>
        intro ho h hselect
        obtain ⟨self', hself, rfl⟩ := select_least_busy hselect
        obtain ⟨tracker, htracker, rfl⟩ := Option.map_eq_some_iff.mp hself
        intro hists hscraped hgrow
        rw [scrapes_snoc_tracker] at hscraped
        exact slides_step (e := .task te) hn ho.1 h htracker hscraped hgrow

theorem slidesOver_run {es : List Event} {server : VLLMServer}
    (hstrategy : cfg.ROUTING_STRATEGY = .least_busy) (hserver : server ∈ cfg.VLLM_SERVERS)
    (h : Run (Consumer.step cfg) Any (.create cfg) es c) :
    SlidesOver cfg.REFRESH_COUNT_PER_WINDOW server.url es c.strategy := by
  refine (h.invariant_of_events (I := fun es c => Sound cfg c ∧
    SlidesOver cfg.REFRESH_COUNT_PER_WINDOW server.url es c.strategy) ?_ ?_).2
  · exact ⟨sound_create cfg, slidesOver_create hstrategy hserver⟩
  · intro es c e c' ⟨hsound, ih⟩ _ hs
    exact ⟨sound_step hsound hs, slidesOver_step cfg.refresh_count_pos hsound.inOrder ih hs⟩

/-! ## The choice -/

/-- A choice from scores that are what they should be. -/
theorem choice_of_scores {s : LeastBusy} {n : Nat} {m : VLLMServer → Metrics}
    {seen : VLLMServer → List (List ℚ)} (htracker : s.tracker.urls = s.servers.map (·.url))
    (hnodup : s.tracker.urls.Nodup) (hurls : ∀ server ∈ s.servers, server.url ≠ "")
    (hscores : ∀ server ∈ s.servers, ∃ v, s.get_server_score server.url = .ok v ∧
      ScoreIs (m server) n (seen server) v)
    (hne : s.servers ≠ []) (random : Nat) :
    ∃ server ∈ s.servers,
      (s.choose_server random = .ok (server, none) ∧ ¬(m server).Known (seen server)) ∨
      ∃ b, s.choose_server random = .ok (server, some (.ofBound b)) ∧
        Percentile (m server) n (seen server) b ∧
        ∀ other ∈ s.servers, (m other).Known (seen other) ∧
          ∀ b', Percentile (m other) n (seen other) b' → b ≤ b' := by
  have hdef : ∀ server ∈ s.servers, ∃ v, s.get_server_score server.url = .ok v := by
    intro server hserver
    obtain ⟨v, hv, _⟩ := hscores server hserver
    exact ⟨v, hv⟩
  have hidle : ∀ server ∈ s.servers, Idle (.least_busy s) server ↔
      ¬(m server).Known (seen server) := by
    intro server hserver
    obtain ⟨v, hv, hscore⟩ := hscores server hserver
    rw [idle_iff, hv, Except.ok.injEq]
    exact hscore.idle_iff
  by_cases hsome : ∃ server ∈ s.servers, Idle (.least_busy s) server
  · obtain ⟨server, hserver, hc⟩ := choose_server_of_idle htracker hdef hurls hsome random
    refine ⟨server, hserver, .inl ⟨hc, ?_⟩⟩
    exact (hidle server hserver).mp (idle_of_choose_server htracker hdef hc)
  · have hbusy : ∀ server ∈ s.servers, ¬Idle (.least_busy s) server :=
      fun server hserver h => hsome ⟨server, hserver, h⟩
    have hknown : ∀ server ∈ s.servers, (m server).Known (seen server) :=
      fun server hserver => not_not.mp (mt (hidle server hserver).mpr (hbusy server hserver))
    have hpercentile : ∀ server ∈ s.servers, ∃ b,
        s.get_server_score server.url = .ok (.ofBound b) ∧
          Percentile (m server) n (seen server) b := by
      intro server hserver
      obtain ⟨v, hv, ⟨hnot, _⟩ | ⟨_, b, rfl, hb⟩⟩ := hscores server hserver
      · exact absurd (hknown server hserver) hnot
      · exact ⟨b, hv, hb⟩
    obtain ⟨server, hserver, indicator, hc⟩ := choose_server_found htracker hdef hne random
    obtain ⟨v, hv, rfl, hleast⟩ :=
      ((choose_server_possible htracker hdef (htracker ▸ hnodup) hbusy hne).mp ⟨random, hc⟩).least
    obtain ⟨b, hb, hserverPercentile⟩ := hpercentile server hserver
    cases hb.symm.trans hv
    refine ⟨server, hserver, .inr ⟨b, hc, hserverPercentile, fun other hother => ?_⟩⟩
    refine ⟨hknown other hother, fun b' hb' => ?_⟩
    obtain ⟨b'', hscore, hp⟩ := hpercentile other hother
    rw [IsPercentile.unique hb' hp]
    exact not_lt_ofBound (hleast other hother _ hscore)

/-- Whatever happened in the run: a choice goes to a server whose series no scrape showed yet,
if there is one, and otherwise to one where the percentile of the time to first token, over the
requests of the window, is the least of all servers, and gives that percentile. -/
theorem requests_go_where_the_latency_is_least {es : List Event}
    (h : Run (Consumer.step cfg) Any (.create cfg) es c)
    (hstrategy : cfg.ROUTING_STRATEGY = .least_busy)
    (hurls : ∀ server ∈ cfg.VLLM_SERVERS, server.url ≠ "")
    {m : VLLMServer → Metrics} {seen : VLLMServer → List (List ℚ)}
    (hwatched : ∀ server ∈ servers c.strategy, (m server).Watched cfg.REFRESH_COUNT_PER_WINDOW
      (scrapes server.url es) (seen server))
    (hne : servers c.strategy ≠ []) (random : Nat) :
    ∃ server ∈ servers c.strategy,
      ((c.strategy.choose_server random).1 = .ok (server, none) ∧
        ¬(m server).Known (seen server)) ∨
      ∃ b, (c.strategy.choose_server random).1 = .ok (server, some (.ofBound b)) ∧
        Percentile (m server) cfg.REFRESH_COUNT_PER_WINDOW (seen server) b ∧
        ∀ other ∈ servers c.strategy, (m other).Known (seen other) ∧
          ∀ b', Percentile (m other) cfg.REFRESH_COUNT_PER_WINDOW (seen other) b' → b ≤ b' := by
  have hselection := (sound_run h).selection
  have hinOrder := (sound_run h).inOrder
  have hslides : ∀ server ∈ cfg.VLLM_SERVERS,
      SlidesOver cfg.REFRESH_COUNT_PER_WINDOW server.url es c.strategy :=
    fun server hserver => slidesOver_run hstrategy hserver h
  cases hs : c.strategy with
  | round_robin self =>
    rw [hs] at hselection hslides hne
    obtain ⟨server, hserver⟩ := List.exists_mem_of_ne_nil _ hne
    exact (hslides server (hselection.servers server hserver)).elim
  | least_busy self =>
    rw [hs] at hselection hinOrder hslides hwatched hne
    exact choice_of_scores hselection.sound.urls (hinOrder.1.urls_nodup)
      (fun server hserver => hurls server (hselection.sound.servers server hserver))
      (fun server hserver => score_of_watched (hwatched server hserver)
        (hslides server (hselection.sound.servers server hserver))) hne random

/-- A server with one finite bucket, of half a second. -/
def oneBound : Metrics where
  before := (oneBucketSeries 0).before
  after := (oneBucketSeries 0).after
  bounds := [1 / 2]
  from_start := false
  wellNamed := (oneBucketSeries 0).wellNamed
  bounds_pos := by simp
  bounds_increasing := List.pairwise_singleton _ _

/-- The numbers of its series. -/
def goNumber (v : ℚ) : List Char := if v = 0 then "0.0".toList else goText v

theorem prints_goNumber {v : ℚ} (hne : v ≠ 0) (h : Prints v (goText v)) :
    Prints v (goNumber v) := by
  rw [goNumber, if_neg hne]
  exact h

theorem prints_zero : Prints 0 (goNumber 0) := by
  have h : Prints (decimalVal ['0'] ['0']) (['0'] ++ '.' :: ['0']) :=
    .plain (by simp) (by simp) (List.all_eq_true.mp rfl) (List.all_eq_true.mp rfl)
      (.inl (by decide +kernel))
  have hv : decimalVal ['0'] ['0'] = 0 := by decide +kernel
  rw [hv] at h
  exact h

/-- The text after three requests with these times. -/
def textOf (latencies : List ℚ) : String :=
  String.ofList (exposed ((oneBound.series latencies).lines goNumber))

/-- Three requests of a second, or of a quarter of one. -/
def slow : List ℚ := [1, 1, 1]

def fast : List ℚ := [1 / 4, 1 / 4, 1 / 4]

theorem shows_of_count {latencies : List ℚ} {count : ℕ}
    (hcount : upTo latencies ((1 / 2 : ℚ) : Bound) = count) (hlength : latencies.length = 3)
    (hprints : Prints count (goNumber count)) (hlt : count < 1000000)
    (hlines : (oneBound.series latencies).ExposedIn goNumber
      ((oneBound.series latencies).lines goNumber)) :
    oneBound.Shows latencies (textOf latencies) := by
  have hbuckets : (oneBound.series latencies).buckets = [(1 / 2, count)] := by
    rw [← hcount]
    rfl
  have htotal : (oneBound.series latencies).total = 3 := hlength
  have hp : (oneBound.series latencies).PrintedBy goNumber := by
    refine ⟨?_, ?_, by rw [htotal]; exact prints_goNumber (by norm_num) prints_three⟩
    · rw [hbuckets]
      intro b hb
      rw [List.mem_singleton.mp hb]
      exact prints_goNumber (by norm_num) prints_half
    · rw [hbuckets]
      intro b hb
      rw [List.mem_singleton.mp hb]
      exact hprints
  refine .series (.inl (List.ne_nil_of_length_pos (by omega))) hp hlines ?_
  apply allLegible_of_plain hp
  · exact (by decide : ∀ l ∈ oneBound.before, ¬LooksLikeBound l)
  · exact (by decide : ∀ l ∈ oneBound.after, decimalIn (escape l.value) = none)
  · rw [hbuckets]
    intro b hb
    rw [List.mem_singleton.mp hb]
    exact ⟨.inr (by norm_num), hlt⟩
  · rw [htotal]
    decide

theorem shows_slow : oneBound.Shows slow (textOf slow) :=
  have hcount : upTo slow ((1 / 2 : ℚ) : Bound) = 0 := by decide +kernel
  shows_of_count hcount rfl (by exact_mod_cast prints_zero) (by decide)
    ⟨by decide +kernel, by decide +kernel⟩

theorem shows_fast : oneBound.Shows fast (textOf fast) :=
  have hcount : upTo fast ((1 / 2 : ℚ) : Bound) = 3 := by decide +kernel
  shows_of_count hcount rfl (by exact_mod_cast prints_goNumber (by norm_num) prints_three)
    (by decide) ⟨by decide +kernel, by decide +kernel⟩

theorem percentile_slow {b : Bound} (h : Percentile oneBound 1 [slow] b) : b = ⊤ := by
  obtain ⟨⟨htop | ⟨q, hq, rfl⟩, hreaches⟩, _⟩ := h
  · exact htop
  · rw [List.mem_singleton.mp hq] at hreaches
    exact absurd hreaches (by decide +kernel)

theorem percentile_fast : Percentile oneBound 1 [fast] ((1 / 2 : ℚ) : Bound) := by
  refine ⟨⟨.inr ⟨1 / 2, List.mem_singleton_self _, rfl⟩, by decide +kernel⟩, ?_⟩
  rintro b ⟨rfl | ⟨q, hq, rfl⟩, _⟩
  · exact le_top
  · rw [List.mem_singleton.mp hq]

def twoLeastBusy : Settings := twoServerSettings .least_busy .warning_log

/-- Both tasks of the tracker come to their fetch. -/
def bothFetching : List Event :=
  [.vllms true, .connected true, .tracker (.start "http://a"), .tracker (.start "http://b")]

/-- Both servers are scraped once. -/
def bothScraped : List Event :=
  bothFetching ++ [.tracker (.scrape "http://a" 0 (.content (textOf slow)))] ++
    [.tracker (.scrape "http://b" 0 (.content (textOf fast)))]

/-- A scrape leaves the other tasks of the tracker. -/
theorem mem_scraped {tr : MetricsTracker} {url : String} {i : Nat} {o : Scrape} {t : MonitorTask}
    (ht : t ∈ tr.monitor_tasks) (hne : t ≠ ⟨url, .fetching i, false⟩) :
    t ∈ (tr.scraped url i o).monitor_tasks := by
  have hbecome : ∀ tasks next : List MonitorTask, t ∈ tasks →
      t ∈ next ++ tasks.erase ⟨url, .fetching i, false⟩ :=
    fun tasks next h => List.mem_append_right _ ((List.mem_erase_of_ne hne).mpr h)
  unfold MetricsTracker.scraped
  split
  · split
    · rename_i updated hok
      apply hbecome
      change t ∈ updated.monitor_tasks
      rw [(update_all_metrics_tasks hok).2.2.1]
      exact ht
    · exact hbecome _ _ ht
  · exact hbecome _ _ ht
  · exact hbecome _ _ ht

theorem exists_scraped (cfg : Settings) {url : String} {i : Nat} (o : Scrape)
    (ht : ⟨url, .fetching i, false⟩ ∈ monitor_tasks c.strategy) :
    ∃ c', c.step cfg (.tracker (.scrape url i o)) = some c' ∧
      servers c'.strategy = servers c.strategy ∧
      ∀ t ∈ monitor_tasks c.strategy, t ≠ ⟨url, .fetching i, false⟩ →
        t ∈ monitor_tasks c'.strategy := by
  cases hs : c.strategy with
  | round_robin self =>
    rw [hs] at ht
    cases ht
  | least_busy self =>
    have htask : ⟨url, .fetching i, false⟩ ∈ self.tracker.monitor_tasks := by
      rw [hs] at ht
      exact ht
    have hstep : c.strategy.select cfg (.task (.scrape url i o)) =
        some (.least_busy { self with tracker := self.tracker.scraped url i o }) := by
      rw [hs]
      simp only [Strategy.select, LeastBusy.select, MetricsTracker.taskStep, if_pos htask,
        Option.map_some]
    refine ⟨{ c with
      strategy := .least_busy { self with tracker := self.tracker.scraped url i o } },
      ?_, rfl, fun t => mem_scraped⟩
    simp only [Consumer.step, hstep, Option.map_some]

theorem watched_once {latencies : List ℚ} {text : String} (h : oneBound.Shows latencies text) :
    oneBound.Watched 1 [text] [latencies] :=
  ⟨.cons h .nil, List.pairwise_singleton _ _, List.nil_prefix⟩

theorem requests_go_to_the_fast_server : ∃ c,
    Run (Consumer.step twoLeastBusy) Any (.create twoLeastBusy) bothScraped c ∧
    ∀ random, (c.strategy.choose_server random).1 =
      .ok (⟨"http://b", none, "org", 1⟩, some (.ofBound ((1 / 2 : ℚ) : Bound))) := by
  have hexec : ((exec (Consumer.step twoLeastBusy) (.create twoLeastBusy) bothFetching).map
      fun c => (servers c.strategy, monitor_tasks c.strategy)) =
      some ([⟨"http://a", none, "org", 1⟩, ⟨"http://b", none, "org", 1⟩],
        [⟨"http://b", .fetching 0, false⟩, ⟨"http://a", .fetching 0, false⟩]) := by
    decide +kernel
  obtain ⟨c₀, hc₀, hpair⟩ := Option.map_eq_some_iff.mp hexec
  obtain ⟨hservers, htasks⟩ := Prod.mk.inj hpair
  obtain ⟨c₁, h₁, hservers₁, hothers⟩ := exists_scraped twoLeastBusy (.content (textOf slow))
    (htasks ▸ List.mem_cons_of_mem _ List.mem_cons_self)
  obtain ⟨c, h₂, hservers₂, _⟩ := exists_scraped twoLeastBusy (.content (textOf fast))
    (hothers _ (htasks ▸ List.mem_cons_self) (by decide))
  rw [← hservers₁, ← hservers₂] at hservers
  have hc : Run (Consumer.step twoLeastBusy) Any (.create twoLeastBusy) bothScraped c :=
    .snoc (.snoc (run_of_exec hc₀) trivial h₁) trivial h₂
  refine ⟨c, hc, fun random => ?_⟩
  let seen : VLLMServer → List (List ℚ) :=
    fun server => if server.url = "http://a" then [slow] else [fast]
  have hknown : ∀ server, oneBound.Known (seen server) := by
    intro server
    by_cases hurl : server.url = "http://a"
    · exact ⟨slow, by simp [seen, hurl], .inl (by simp [slow])⟩
    · exact ⟨fast, by simp [seen, hurl], .inl (by simp [fast])⟩
  have hwatched : ∀ server ∈ servers c.strategy,
      oneBound.Watched 1 (scrapes server.url bothScraped) (seen server) := by
    rw [hservers]
    intro server hserver
    rcases List.mem_pair.mp hserver with rfl | rfl
    · simpa [scrapes, bothScraped, bothFetching, contentOf, seen] using watched_once shows_slow
    · simpa [scrapes, bothScraped, bothFetching, contentOf, seen] using watched_once shows_fast
  obtain ⟨server, hserver, ⟨_, hnot⟩ | ⟨b, hchoice, hb, hleast⟩⟩ :=
    requests_go_where_the_latency_is_least (m := fun _ => oneBound) hc rfl
      (by decide) hwatched (by rw [hservers]; simp) random
  · exact absurd (hknown server) hnot
  · rw [hservers] at hserver
    rcases List.mem_pair.mp hserver with rfl | rfl
    · -- the fast one has a smaller percentile
      have hle := (hleast ⟨"http://b", none, "org", 1⟩ (by rw [hservers]; simp)).2 _ percentile_fast
      rw [percentile_slow hb] at hle
      exact absurd hle (by simp)
    · rw [hchoice, IsPercentile.unique hb percentile_fast]

end aristote_dispatcher.main_consumer
