-- When the monitoring of a server goes on (strategy/metrics_tracker.py). The loop
-- of `_monitor_server` catches a refused connection and nothing else: any other
-- error of a scrape ends the task of its url, and no step starts it again.
import AristoteDispatcher.HistogramText
import AristoteDispatcher.SlidingWindow

open pydict pyfloat regex runs
open aristote_dispatcher.settings aristote_dispatcher.histogram

namespace aristote_dispatcher.metrics_tracker

/-! ## The texts that parse -/

/-- Every bound that the parse reads is a number. The last line is read as `inf`. -/
def BoundsRead (text : String) : Prop :=
  ∀ line ∈ (findallLines time_to_first_token_pattern text.toList).dropLast, ∀ m,
    search bucket_pattern line = some m → float (group1 m) ≠ none

/-- A count is digits, a point and digits, so it always reads. -/
theorem countOf_of_search {line : List Char} {m : Match}
    (h : search bucket_pattern line = some m) : ∃ count, countOf m = .ok count := by
  have htook := search_took h
  unfold bucket_pattern count_pattern at htook
  obtain ⟨_, _, rfl⟩ : ∃ t m', m = t :: m' := by cases htook; exact ⟨_, _, rfl⟩
  -- the texts of the eleven items, one after the other
  cases htook with | cons _ h1
  cases h1 with | cons _ h2
  cases h2 with | cons _ h3
  cases h3 with | cons _ h4
  cases h4 with | cons _ h5
  cases h5 with | cons _ h6
  cases h6 with | cons _ h7
  cases h7 with | cons _ h8
  cases h8 with | cons hip h9
  cases h9 with | cons hpoint h10
  cases h10 with | cons hfp h11
  cases h11
  obtain ⟨c, rfl, hc⟩ := hpoint
  obtain rfl : c = '.' := (toLower_eq (by decide)).mp (of_decide_eq_true hc)
  have hread := float_decimal hip.1 hip.2 hfp.2
  unfold countOf
  simp only [group2, List.drop_succ_cons, List.drop_zero, List.flatten_cons, List.flatten_nil,
    List.append_nil, List.singleton_append, hread]
  exact ⟨_, rfl⟩

theorem addLine_ok_iff {h : Histogram} {line : List Char} :
    (∃ g, addLine h line = .ok g) ↔
      ∀ m, search bucket_pattern line = some m → float (group1 m) ≠ none := by
  unfold addLine
  cases hs : search bucket_pattern line with
  | none => simp
  | some m =>
    obtain ⟨count, hcount⟩ := countOf_of_search hs
    simp only [hcount, boundOf, bind, Except.bind, Option.some.injEq]
    cases hf : float (group1 m) with
    | none => simp [hf]
    | some b => simp [hf]

theorem foldlM_addLine_ok_iff {lines : List (List Char)} {h : Histogram} :
    (∃ g, lines.foldlM addLine h = .ok g) ↔
      ∀ line ∈ lines, ∀ m, search bucket_pattern line = some m → float (group1 m) ≠ none := by
  induction lines generalizing h with
  | nil => simp [pure, Except.pure]
  | cons line lines ih =>
    rw [List.foldlM_cons, List.forall_mem_cons, ← addLine_ok_iff (h := h)]
    cases hl : addLine h line with
    | error e => simp [bind, Except.bind]
    | ok g =>
      simp only [bind, Except.bind, ih]
      simp

theorem addLastLine_ok (h : Histogram) (line : List Char) : ∃ g, addLastLine h line = .ok g := by
  unfold addLastLine
  cases hs : search bucket_pattern line with
  | none => exact ⟨h, rfl⟩
  | some m =>
    obtain ⟨count, hcount⟩ := countOf_of_search hs
    simp only [hcount, bind, Except.bind]
    exact ⟨_, rfl⟩

/-- A text parses exactly when its bounds read. -/
theorem parse_ok_iff (text : String) :
    (∃ h, Histogram.parse text time_to_first_token_pattern = .ok h) ↔ BoundsRead text := by
  unfold Histogram.parse BoundsRead
  cases hlines : findallLines time_to_first_token_pattern text.toList with
  | nil => simp
  | cons line lines =>
    rw [← foldlM_addLine_ok_iff (h := ∅)]
    cases hf : (line :: lines).dropLast.foldlM addLine ∅ with
    | error e => simp [bind, Except.bind, hf]
    | ok g =>
      obtain ⟨g', hg'⟩ := addLastLine_ok g ((line :: lines).getLast (List.cons_ne_nil _ _))
      simp [bind, Except.bind, hf, hg']

/-! ## What ends the task of a url -/

/-- The loop of `_monitor_server` goes on after the scrape. -/
def Survives : Scrape → Prop
  | .content text => text = "" ∨ BoundsRead text
  | .connector_error => True
  | .other_error => False

/-- If the event is a scrape of the url, the loop goes on after it. -/
def ScrapeSurvives (url : String) (e : Event) : Prop :=
  ∀ window_index outcome, e = .task (.scrape url window_index outcome) → Survives outcome

/-- The monitoring of the url is not ended: no `stop_monitor`, and no cancellation of its
task. -/
def NotStopped (url : String) (_ : MetricsTracker) : Event → Prop
  | .stop_monitor => False
  | .cancel t => t.url ≠ url
  | _ => True

/-- The tracker has a window for the url. -/
structure HasWindow (tr : MetricsTracker) (url : String) (n : Nat) : Prop where
  refresh_count : tr.refresh_count_per_window = n
  index : ∃ i, i < n ∧ tr.window_indexes.lookup url = some i
  ring : ∃ ring, tr.time_to_first_token_last_histograms.lookup url = some ring ∧ ring.length = n
  diff : ∃ diff, tr.time_to_first_token_diff_histograms.lookup url = some diff

variable {tr tr' : MetricsTracker} {url : String} {n : Nat}

theorem hasWindow_create {urls : List String} (hn : 0 < n) (h : url ∈ urls) :
    HasWindow (MetricsTracker.create urls n) url n := by
  refine ⟨rfl, ⟨0, hn, ?_⟩, ⟨List.replicate n ∅, ?_, by simp⟩, ⟨∅, ?_⟩⟩
  all_goals simp [MetricsTracker.create, Dict.lookup_ofKeys, h]

theorem HasWindow.congr (h : HasWindow tr url n)
    (hn : tr'.refresh_count_per_window = tr.refresh_count_per_window)
    (hslot : tr'.slot url = tr.slot url) : HasWindow tr' url n := by
  simp only [MetricsTracker.slot, Prod.mk.injEq] at hslot
  obtain ⟨h1, h2, h3⟩ := hslot
  exact ⟨hn.trans h.refresh_count, h1 ▸ h.index, h2 ▸ h.ring, h3 ▸ h.diff⟩

/-- A fetch of the url that returns a content is taken in exactly when the loop goes on. -/
theorem update_ok_iff (h : HasWindow tr url n) {i : Nat} (hi : i < n) (text : String) :
    (∃ updated, tr.update_all_metrics_for_server url i text = .ok updated) ↔
      Survives (.content text) := by
  obtain ⟨ring, hring, hlength⟩ := h.ring
  obtain ⟨diff, hdiff⟩ := h.diff
  have hlast : ring[i]? = some ring[i] := List.getElem?_eq_getElem (hlength ▸ hi)
  unfold MetricsTracker.update_all_metrics_for_server
  by_cases hc : text = ""
  · rw [if_pos hc]
    exact iff_of_true ⟨_, rfl⟩ (.inl hc)
  · have hsurvives : Survives (.content text) ↔ BoundsRead text := or_iff_right hc
    rw [if_neg hc, hsurvives, ← parse_ok_iff]
    cases hparse : Histogram.parse text time_to_first_token_pattern with
    | error e => simp
    | ok new => simp [hring, hlast, hdiff]

theorem hasWindow_advance (hn : 0 < n) (h : HasWindow tr url n) (u : String) :
    HasWindow (tr.advance u) url n := by
  refine ⟨h.refresh_count, ?_, h.ring, h.diff⟩
  simp only [MetricsTracker.advance, Dict.lookup_insert_eq, h.refresh_count]
  split
  · exact ⟨_, Nat.mod_lt _ hn, rfl⟩
  · exact h.index

theorem hasWindow_update {u text : String} {i : Nat} (h : HasWindow tr url n)
    (hu : tr.update_all_metrics_for_server u i text = .ok tr') : HasWindow tr' url n := by
  by_cases hc : text = ""
  · unfold MetricsTracker.update_all_metrics_for_server at hu
    rw [if_pos hc] at hu
    cases hu
    exact h
  · obtain ⟨new, ring, last, diff, _, hring, _, _, rfl⟩ := update_all_metrics_ok hc hu
    refine ⟨h.refresh_count, h.index, ?_, ?_⟩
    · simp only [Dict.lookup_insert_eq]
      split
      · rename_i hurl
        subst hurl
        obtain ⟨ring', hring', hlength⟩ := h.ring
        rw [hring] at hring'
        cases hring'
        exact ⟨_, rfl, by rw [List.length_set, hlength]⟩
      · exact h.ring
    · simp only [Dict.lookup_insert_eq]
      split
      · exact ⟨_, rfl⟩
      · exact h.diff

theorem hasWindow_step (hn : 0 < n) {e : Event} (h : HasWindow tr url n)
    (hs : tr.step e = some tr') : HasWindow tr' url n := by
  rcases step_cases hs with ⟨u, i, text, rfl, _, rfl⟩ | ⟨_, hsame⟩
  · unfold MetricsTracker.scraped
    dsimp only
    split
    · rename_i updated hu
      have hnext := hasWindow_advance hn (hasWindow_update h hu) u
      exact hnext.congr rfl rfl
    · exact h.congr rfl rfl
  · exact h.congr hsame.refresh_count (hsame.slot url)

/-! ## The task of the url -/

/-- The head of the loop goes on with a fetch, for a task of the url. -/
theorem countP_loop_head (h : HasWindow tr url n) (hm : tr.monitoring = true) (u : String) :
    ((tr.loop_head u).countP fun t => t.url = url && !t.cancelled) = if u = url then 1 else 0 := by
  unfold MetricsTracker.loop_head
  rw [if_pos hm]
  by_cases hu : u = url
  · subst hu
    obtain ⟨i, _, hi⟩ := h.index
    simp [hi]
  · cases tr.window_indexes.lookup u <;> simp [hu]

/-- A task that goes on at the head of the loop is as live as it was. -/
theorem live_loop_head (h : HasWindow tr url n) (hm : tr.monitoring = true) {t : MonitorTask}
    (ht : t ∈ tr.monitor_tasks) (hc : t.cancelled = false) :
    live (tr.become t (tr.loop_head t.url)) url = live tr url := by
  have hbecome := live_become (tr.loop_head t.url) ht url
  rw [countP_loop_head h hm] at hbecome
  simp only [hc, Bool.not_false, Bool.and_true, decide_eq_true_eq] at hbecome
  omega

theorem live_end {t : MonitorTask} (ht : t ∈ tr.monitor_tasks) (hc : t.cancelled = false) :
    live (tr.become t []) url + (if t.url = url then 1 else 0) = live tr url := by
  have hbecome := live_become [] ht url
  simpa [hc] using hbecome

theorem live_advance (u : String) : live (tr.advance u) url = live tr url := rfl

theorem live_update {u text : String} {i : Nat}
    (hu : tr.update_all_metrics_for_server u i text = .ok tr') : live tr' url = live tr url := by
  unfold live
  rw [(update_all_metrics_tasks hu).2.2.1]

/-- A scrape of the url keeps its task, or ends it where the loop does not go on. A scrape of
another url keeps it. -/
theorem live_scraped (h : HasWindow tr url n) (ho : TasksInOrder tr) (hm : tr.monitoring = true)
    {u : String} {i : Nat} (ht : ⟨u, .fetching i, false⟩ ∈ tr.monitor_tasks) (o : Scrape) :
    (ScrapeSurvives url (.task (.scrape u i o)) ∧ live (tr.scraped u i o) url = live tr url) ∨
    (¬ScrapeSurvives url (.task (.scrape u i o)) ∧
      live (tr.scraped u i o) url + 1 = live tr url) := by
  have hsurvives : ScrapeSurvives url (.task (.scrape u i o)) ↔ (u = url → Survives o) := by
    constructor
    · rintro hall rfl
      exact hall i o rfl
    · intro himp j o' heq
      cases heq
      exact himp rfl
  -- how the task ends, where the loop does not go on
  have hends : (u = url → ¬Survives o) → tr.scraped u i o =
      tr.become ⟨u, .fetching i, false⟩ [] →
      (ScrapeSurvives url (.task (.scrape u i o)) ∧ live (tr.scraped u i o) url = live tr url) ∨
      (¬ScrapeSurvives url (.task (.scrape u i o)) ∧
        live (tr.scraped u i o) url + 1 = live tr url) := by
    intro hnot heq
    have hend : live (tr.become ⟨u, .fetching i, false⟩ []) url + (if u = url then 1 else 0) =
        live tr url := live_end ht rfl
    rw [heq, hsurvives]
    by_cases hu : u = url
    · exact .inr ⟨fun himp => hnot hu (himp hu), by simpa [hu] using hend⟩
    · exact .inl ⟨fun hsame => absurd hsame hu, by simpa [hu] using hend⟩
  cases o with
  | connector_error =>
    exact .inl ⟨hsurvives.mpr fun _ => trivial, live_loop_head h hm ht rfl⟩
  | other_error => exact hends (fun _ => id) rfl
  | content text =>
    cases hu : tr.update_all_metrics_for_server u i text with
    | ok updated =>
      refine .inl ⟨hsurvives.mpr ?_, ?_⟩
      · rintro rfl
        obtain ⟨j, hj, hindex⟩ := h.index
        have hi : i = j := Option.some.inj ((ho.index_read u i ht).symm.trans hindex)
        exact (update_ok_iff h (hi ▸ hj) text).mp ⟨updated, hu⟩
      · have ht' : (⟨u, .fetching i, false⟩ : MonitorTask) ∈ (updated.advance u).monitor_tasks := by
          have htasks : (updated.advance u).monitor_tasks = tr.monitor_tasks :=
            (update_all_metrics_tasks hu).2.2.1
          rw [htasks]
          exact ht
        have hbecome := live_become [⟨u, .sleeping, false⟩] ht' url
        rw [live_advance, live_update hu] at hbecome
        simp only [MetricsTracker.scraped, hu]
        simpa using hbecome
    | error e =>
      refine hends ?_ (by simp only [MetricsTracker.scraped, hu])
      rintro rfl hs
      obtain ⟨j, hj, hindex⟩ := h.index
      have hi : i = j := Option.some.inj ((ho.index_read u i ht).symm.trans hindex)
      obtain ⟨updated, hok⟩ := (update_ok_iff h (hi ▸ hj) text).mpr hs
      rw [hu] at hok
      cases hok

theorem scrapeSurvives_of_other {e : Event} (h : ∀ i o, e ≠ .task (.scrape url i o)) :
    ScrapeSurvives url e := fun i o he => absurd he (h i o)

/-- A step that does not stop the monitoring keeps the task of the url, or it is a scrape
after which the loop does not go on, and then the task ends. -/
theorem live_step (h : HasWindow tr url n) (ho : TasksInOrder tr) (hm : tr.monitoring = true)
    {e : Event} (hok : NotStopped url tr e) (hs : tr.step e = some tr') :
    tr'.monitoring = true ∧
    ((ScrapeSurvives url e ∧ live tr' url = live tr url) ∨
      (¬ScrapeSurvives url e ∧ live tr' url + 1 = live tr url)) := by
  cases e with
  | monitor =>
    cases hs
    have hsame : tr.monitor = tr := if_pos hm
    rw [hsame]
    exact ⟨hm, .inl ⟨scrapeSurvives_of_other fun _ _ => by simp, rfl⟩⟩
  | stop_monitor => exact hok.elim
  | update_urls urls =>
    obtain ⟨_, heq⟩ := Option.ite_none_right_eq_some.mp hs
    cases heq
    exact ⟨hm, .inl ⟨scrapeSurvives_of_other fun _ _ => by simp, rfl⟩⟩
  | cancel t =>
    obtain ⟨⟨ht, _⟩, heq⟩ := Option.ite_none_right_eq_some.mp hs
    cases heq
    have hbecome := live_become [{ t with cancelled := true }] ht url
    have hurl : t.url ≠ url := hok
    refine ⟨hm, .inl ⟨scrapeSurvives_of_other fun _ _ => by simp, ?_⟩⟩
    simpa [hurl] using hbecome
  | task te =>
    cases te with
    | start u =>
      obtain ⟨ht, heq⟩ := Option.ite_none_right_eq_some.mp hs
      cases heq
      exact ⟨hm, .inl ⟨scrapeSurvives_of_other fun _ _ => by simp, live_loop_head h hm ht rfl⟩⟩
    | wake u =>
      obtain ⟨ht, heq⟩ := Option.ite_none_right_eq_some.mp hs
      cases heq
      exact ⟨hm, .inl ⟨scrapeSurvives_of_other fun _ _ => by simp, live_loop_head h hm ht rfl⟩⟩
    | cancelled t =>
      obtain ⟨⟨ht, hc⟩, heq⟩ := Option.ite_none_right_eq_some.mp hs
      cases heq
      have hbecome := live_become [] ht url
      refine ⟨hm, .inl ⟨scrapeSurvives_of_other fun _ _ => by simp, ?_⟩⟩
      simpa [hc] using hbecome
    | scrape u i o =>
      obtain ⟨ht, heq⟩ := Option.ite_none_right_eq_some.mp hs
      cases heq
      refine ⟨?_, live_scraped h ho hm ht o⟩
      unfold MetricsTracker.scraped
      split
      · split
        · rename_i hu
          exact (update_all_metrics_tasks hu).2.1.trans hm
        · exact hm
      · exact hm
      · exact hm

/-! ## The law -/

/-- A scrape writes what it parsed into the ring of the url and into its difference. -/
def Updates (tr : MetricsTracker) (url : String) (window_index : Nat) (text : String)
    (tr' : MetricsTracker) : Prop :=
  ∃ new ring last diff, Histogram.parse text time_to_first_token_pattern = .ok new ∧
    tr.time_to_first_token_last_histograms.lookup url = some ring ∧
    ring[window_index]? = some last ∧
    tr.time_to_first_token_diff_histograms.lookup url = some diff ∧
    tr'.time_to_first_token_last_histograms.lookup url =
      some (ring.set window_index (last.update new)) ∧
    tr'.time_to_first_token_diff_histograms.lookup url = some (diff.update (new.sub last))

theorem updates_of_scrape (h : HasWindow tr url n) (ho : TasksInOrder tr) {i : Nat}
    {text : String} (htext : text ≠ "") (hread : BoundsRead text)
    (hs : tr.step (.task (.scrape url i (.content text))) = some tr') :
    Updates tr url i text tr' := by
  obtain ⟨ht, heq⟩ := Option.ite_none_right_eq_some.mp hs
  cases heq
  obtain ⟨j, hj, hindex⟩ := h.index
  have hi : i = j := Option.some.inj ((ho.index_read url i ht).symm.trans hindex)
  obtain ⟨updated, hu⟩ := (update_ok_iff h (hi ▸ hj) text).mpr (.inr hread)
  obtain ⟨new, ring, last, diff, hnew, hring, hlast, hdiff, rfl⟩ := update_all_metrics_ok htext hu
  refine ⟨new, ring, last, diff, hnew, hring, hlast, hdiff, ?_, ?_⟩
  · simp only [MetricsTracker.scraped, hu, MetricsTracker.become, MetricsTracker.advance,
      AList.lookup_insert]
  · simp only [MetricsTracker.scraped, hu, MetricsTracker.become, MetricsTracker.advance,
      AList.lookup_insert]

/-- While nobody stops the monitoring of a url, its task is active exactly if each of its
scrapes so far was one after which the loop goes on. Each scrape with a text that parses
updates its histograms. -/
theorem the_monitoring_goes_on_iff_every_scrape_survives {urls : List String} {url : String}
    {n : Nat} (hn : 0 < n) (hurls : urls.Nodup) (hurl : url ∈ urls) {before after : List Event}
    {tr tr' : MetricsTracker}
    (hbefore : Run MetricsTracker.step Any (MetricsTracker.create urls n) before tr)
    (hactive : live tr url = 1) (h : Run MetricsTracker.step (NotStopped url) tr after tr') :
    (live tr' url = 1 ↔ ∀ e ∈ after, ScrapeSurvives url e) ∧
    ∀ window_index text tr'', text ≠ "" → BoundsRead text →
      tr'.step (.task (.scrape url window_index (.content text))) = some tr'' →
      Updates tr' url window_index text tr'' := by
  obtain ⟨hwindow, horder⟩ : HasWindow tr url n ∧ TasksInOrder tr :=
    hbefore.invariant (I := fun tr => HasWindow tr url n ∧ TasksInOrder tr)
      ⟨hasWindow_create hn hurl, tasksInOrder_create n hurls⟩
      fun _ _ _ hi _ hs => ⟨hasWindow_step hn hi.1 hs, tasksInOrder_step hi.2 hs⟩
  have hmonitoring : tr.monitoring = true := by
    by_contra hm
    rw [live_eq_zero (horder.stopped (by simpa using hm))] at hactive
    cases hactive
  obtain ⟨hwindow', horder', _, hlive⟩ := h.invariant_of_events
    (I := fun es tr => HasWindow tr url n ∧ TasksInOrder tr ∧ tr.monitoring = true ∧
      ((live tr url = 1 ∧ ∀ e ∈ es, ScrapeSurvives url e) ∨
        (live tr url = 0 ∧ ¬∀ e ∈ es, ScrapeSurvives url e)))
    ⟨hwindow, horder, hmonitoring, .inl ⟨hactive, by simp⟩⟩ (by
      rintro es tr e tr' ⟨hw, ho, hm, hl⟩ hok hs
      obtain ⟨hm', hstep⟩ := live_step hw ho hm hok hs
      refine ⟨hasWindow_step hn hw hs, tasksInOrder_step ho hs, hm', ?_⟩
      simp only [List.forall_mem_append, List.forall_mem_singleton]
      rcases hl with ⟨h1, hall⟩ | ⟨h0, hnot⟩
      · rcases hstep with ⟨hsurvives, hl'⟩ | ⟨hends, hl'⟩
        · exact .inl ⟨hl'.trans h1, hall, hsurvives⟩
        · exact .inr ⟨by omega, fun h => hends h.2⟩
      · refine .inr ⟨?_, fun h => hnot h.1⟩
        rcases hstep with ⟨_, hl'⟩ | ⟨_, hl'⟩
        · exact hl'.trans h0
        · omega)
  refine ⟨?_, fun i text tr'' htext hread hs => updates_of_scrape hwindow' horder' htext hread hs⟩
  rcases hlive with ⟨h1, hall⟩ | ⟨h0, hnot⟩
  · exact iff_of_true h1 hall
  · exact iff_of_false (by omega) hnot

/-- The tracker of one server, monitoring. -/
def monitored : MetricsTracker := (MetricsTracker.create ["http://a"] 1).monitor

theorem run_to_monitored :
    Run MetricsTracker.step Any (MetricsTracker.create ["http://a"] 1) [.monitor] monitored :=
  .single trivial rfl

/-- The server refuses the connection, and answers an empty text at the next fetch. -/
def refusedThenEmpty : List Event :=
  [.task (.start "http://a"), .task (.scrape "http://a" 0 .connector_error),
    .task (.scrape "http://a" 0 (.content ""))]

theorem the_monitoring_outlives_a_refused_connection : ∃ tr,
    exec MetricsTracker.step monitored refusedThenEmpty = some tr ∧ live tr "http://a" = 1 := by
  have hexec : (exec MetricsTracker.step monitored refusedThenEmpty).isSome = true := by
    decide +kernel
  obtain ⟨tr, htr⟩ := Option.isSome_iff_exists.mp hexec
  have hrun : Run MetricsTracker.step (NotStopped "http://a") monitored refusedThenEmpty tr :=
    (run_of_exec htr).of_events (by simp [refusedThenEmpty, NotStopped])
  refine ⟨tr, htr, ((the_monitoring_goes_on_iff_every_scrape_survives Nat.one_pos
    (by simp) (by simp) run_to_monitored rfl hrun).1).mpr ?_⟩
  intro e he i o heq
  subst heq
  simp only [refusedThenEmpty, List.mem_cons, Event.task.injEq, reduceCtorEq,
    TaskEvent.scrape.injEq, true_and, List.not_mem_nil, or_false, false_or] at he
  rcases he with ⟨_, rfl⟩ | ⟨_, rfl⟩
  · trivial
  · exact .inl rfl

/-- One answer with a status that is no 2xx, and the server is never scraped again. -/
theorem a_bad_status_ends_the_monitoring :
    ¬∀ (urls : List String) (url : String) (n : Nat), 0 < n → urls.Nodup → url ∈ urls →
      ∀ before after tr tr',
        Run MetricsTracker.step Any (MetricsTracker.create urls n) before tr → live tr url = 1 →
        Run MetricsTracker.step (NotStopped url) tr after tr' → live tr' url = 1 := by
  intro h
  have hexec : (exec MetricsTracker.step monitored
      [.task (.start "http://a"), .task (.scrape "http://a" 0 .other_error)]).map
        (fun tr => live tr "http://a") = some 0 := by decide +kernel
  obtain ⟨tr, htr, hlive⟩ := Option.map_eq_some_iff.mp hexec
  have hrun : Run MetricsTracker.step (NotStopped "http://a") monitored
      [.task (.start "http://a"), .task (.scrape "http://a" 0 .other_error)] tr :=
    (run_of_exec htr).of_events (by simp [NotStopped])
  have hactive := h ["http://a"] "http://a" 1 Nat.one_pos (by simp) (by simp) _ _ _ _
    run_to_monitored rfl hrun
  rw [hlive] at hactive
  cases hactive

end aristote_dispatcher.metrics_tracker
