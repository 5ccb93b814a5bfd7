-- The law of the sliding window: after each successful scrape of a url, its
-- difference is the newest histogram minus the one a window before, whatever
-- failed scrapes, cancellations and restarts of the monitoring come between.
import AristoteDispatcher.Lib.Window
import AristoteDispatcher.MetricsTracker

open pydict runs
open aristote_dispatcher.settings aristote_dispatcher.histogram

namespace aristote_dispatcher.metrics_tracker

variable {U : Type} [DecidableEq U]

/-! ## What a step leaves as it was -/

/-- What the tracker keeps for one url: its index, its ring and its difference. -/
def MetricsTracker.slot (self : MetricsTracker U) (url : U) :
    Option Nat × Option (List Histogram) × Option Histogram :=
  (self.window_indexes.lookup url, self.time_to_first_token_last_histograms.lookup url,
    self.time_to_first_token_diff_histograms.lookup url)

@[simp] theorem slot_become (tr : MetricsTracker U) (t : MonitorTask U)
    (next : List (MonitorTask U)) (url : U) : (tr.become t next).slot url = tr.slot url := rfl

theorem slot_monitor (tr : MetricsTracker U) (url : U) : tr.monitor.slot url = tr.slot url := by
  unfold MetricsTracker.monitor
  split <;> rfl

theorem slot_stop_monitor (tr : MetricsTracker U) (url : U) :
    tr.stop_monitor.slot url = tr.slot url := by
  unfold MetricsTracker.stop_monitor
  split <;> rfl

/-- The update of a url writes its ring and its difference, and nothing else. -/
theorem update_all_metrics_ok {tr tr' : MetricsTracker U} {url : U} {content : String} {i : Nat}
    (hc : content ≠ "") (h : tr.update_all_metrics_for_server url i content = .ok tr') :
    ∃ new ring last diff,
      Histogram.parse content time_to_first_token_pattern = .ok new ∧
      tr.time_to_first_token_last_histograms.lookup url = some ring ∧ ring[i]? = some last ∧
      tr.time_to_first_token_diff_histograms.lookup url = some diff ∧
      tr' = { tr with
        time_to_first_token_last_histograms :=
          tr.time_to_first_token_last_histograms.insert url (ring.set i (last.update new))
        time_to_first_token_diff_histograms :=
          tr.time_to_first_token_diff_histograms.insert url (diff.update (new.sub last)) } := by
  unfold MetricsTracker.update_all_metrics_for_server at h
  rw [if_neg hc] at h
  split at h
  · cases h
  rename_i new hnew
  split at h
  · cases h
  rename_i ring hring
  split at h
  · cases h
  rename_i last hlast
  split at h
  · cases h
  rename_i diff hdiff
  cases h
  exact ⟨new, ring, last, diff, hnew, hring, hlast, hdiff, rfl⟩

theorem update_all_metrics_slot_ne {tr tr' : MetricsTracker U} {url : U} {content : String}
    {i : Nat} (h : tr.update_all_metrics_for_server url i content = .ok tr') {u : U}
    (hu : u ≠ url) :
    tr'.slot u = tr.slot u := by
  by_cases hc : content = ""
  · unfold MetricsTracker.update_all_metrics_for_server at h
    rw [if_pos hc] at h
    cases h
    rfl
  · obtain ⟨new, ring, last, diff, _, _, _, _, rfl⟩ := update_all_metrics_ok hc h
    simp only [MetricsTracker.slot, AList.lookup_insert_ne hu]

theorem slot_advance_ne (tr : MetricsTracker U) {url u : U} (hu : u ≠ url) :
    (tr.advance url).slot u = tr.slot u := by
  simp only [MetricsTracker.slot, MetricsTracker.advance, AList.lookup_insert_ne hu]

/-- A scrape of one url changes nothing of another. -/
theorem slot_scraped_ne (tr : MetricsTracker U) {url u : U} (i : Nat) (o : Scrape)
    (hu : u ≠ url) : (tr.scraped url i o).slot u = tr.slot u := by
  unfold MetricsTracker.scraped
  split
  · split
    · rename_i hok
      rw [slot_become, slot_advance_ne _ hu, update_all_metrics_slot_ne hok hu]
    · rfl
  · rfl
  · rfl

/-- The event is a scrape of `url` that returned a content. -/
def contentOf (url : U) : Event U → Option String
  | .task (.scrape u _ (.content text)) => if u = url then some text else none
  | _ => none

/-- What the tracker keeps, for all urls. -/
structure SameHistograms (tr tr' : MetricsTracker U) : Prop where
  refresh_count : tr'.refresh_count_per_window = tr.refresh_count_per_window
  slot : ∀ url, tr'.slot url = tr.slot url

/-- A step is a scrape that returned a content, or it leaves all histograms as they were. -/
theorem step_cases {tr tr' : MetricsTracker U} {e : Event U} (h : tr.step e = some tr') :
    (∃ url i text, e = .task (.scrape url i (.content text)) ∧
      ⟨url, .fetching i, false⟩ ∈ tr.monitor_tasks ∧ tr' = tr.scraped url i (.content text)) ∨
    ((∀ url, contentOf url e = none) ∧ SameHistograms tr tr') := by
  cases e with
  | monitor =>
    cases h
    refine .inr ⟨fun _ => rfl, ?_, slot_monitor tr⟩
    unfold MetricsTracker.monitor
    split <;> rfl
  | stop_monitor =>
    cases h
    refine .inr ⟨fun _ => rfl, ?_, slot_stop_monitor tr⟩
    unfold MetricsTracker.stop_monitor
    split <;> rfl
  | update_urls urls =>
    obtain ⟨_, hs⟩ := Option.ite_none_right_eq_some.mp h
    cases hs
    exact .inr ⟨fun _ => rfl, rfl, fun _ => rfl⟩
  | cancel t =>
    obtain ⟨_, hs⟩ := Option.ite_none_right_eq_some.mp h
    cases hs
    exact .inr ⟨fun _ => rfl, rfl, fun _ => rfl⟩
  | task te =>
    cases te with
    | scrape url i o =>
      obtain ⟨ht, hs⟩ := Option.ite_none_right_eq_some.mp h
      cases hs
      cases o with
      | content text => exact .inl ⟨url, i, text, rfl, ht, rfl⟩
      | connector_error => exact .inr ⟨fun _ => rfl, rfl, fun _ => rfl⟩
      | other_error => exact .inr ⟨fun _ => rfl, rfl, fun _ => rfl⟩
    | start url =>
      obtain ⟨_, hs⟩ := Option.ite_none_right_eq_some.mp h
      cases hs
      exact .inr ⟨fun _ => rfl, rfl, fun _ => rfl⟩
    | wake url =>
      obtain ⟨_, hs⟩ := Option.ite_none_right_eq_some.mp h
      cases hs
      exact .inr ⟨fun _ => rfl, rfl, fun _ => rfl⟩
    | cancelled t =>
      obtain ⟨_, hs⟩ := Option.ite_none_right_eq_some.mp h
      cases hs
      exact .inr ⟨fun _ => rfl, rfl, fun _ => rfl⟩

/-- Only a scrape that returns a content changes what the tracker keeps for a url. -/
theorem slot_step {tr tr' : MetricsTracker U} {e : Event U} {url : U}
    (h : tr.step e = some tr') (he : contentOf url e = none) : tr'.slot url = tr.slot url := by
  rcases step_cases h with ⟨u, i, text, rfl, _, rfl⟩ | ⟨_, hsame⟩
  · apply slot_scraped_ne
    intro hu
    simp [contentOf, hu] at he
  · exact hsame.slot url

/-! ## One live task for each url -/

/-- How many tasks of a url can still scrape. -/
def live (tr : MetricsTracker U) (url : U) : Nat :=
  tr.monitor_tasks.countP fun t => t.url = url && !t.cancelled

/-- The discipline of the tasks: one live task at most for each url, and the index that it
read before its fetch is still the index of the url. -/
structure TasksInOrder (tr : MetricsTracker U) : Prop where
  urls_nodup : tr.urls.Nodup
  stopped : tr.monitoring = false → ∀ t ∈ tr.monitor_tasks, t.cancelled = true
  one_task : ∀ url, live tr url ≤ 1
  index_read : ∀ url i, ⟨url, .fetching i, false⟩ ∈ tr.monitor_tasks →
    tr.window_indexes.lookup url = some i

theorem tasksInOrder_create {urls : List U} (n : Nat) (h : urls.Nodup) :
    TasksInOrder (MetricsTracker.create urls n) := by
  refine ⟨h, ?_, ?_, ?_⟩
  · intro _ t ht
    simp [MetricsTracker.create] at ht
  · intro url
    simp [live, MetricsTracker.create]
  · intro url i hi
    simp [MetricsTracker.create] at hi

theorem live_become {tr : MetricsTracker U} {t : MonitorTask U} (next : List (MonitorTask U))
    (ht : t ∈ tr.monitor_tasks) (url : U) :
    live (tr.become t next) url + (if t.url = url && !t.cancelled then 1 else 0) =
      live tr url + next.countP fun t => t.url = url && !t.cancelled := by
  have hp := (List.perm_cons_erase ht).countP_eq
    fun t : MonitorTask U => t.url = url && !t.cancelled
  unfold live MetricsTracker.become
  rw [hp, List.countP_append, List.countP_cons]
  omega

theorem mem_loop_head {tr : MetricsTracker U} {url : U} {t : MonitorTask U}
    (h : t ∈ tr.loop_head url) : ∃ i, t = ⟨url, .fetching i, false⟩ ∧
      tr.window_indexes.lookup url = some i ∧ tr.loop_head url = [t] ∧ tr.monitoring = true := by
  unfold MetricsTracker.loop_head at h ⊢
  split at h
  · rename_i hm
    split at h
    · rename_i i hi
      rw [List.mem_singleton] at h
      exact ⟨i, h, hi, by simp [h, hm], hm⟩
    · simp at h
  · simp at h

/-- A task that goes on from `t` as at most one task of the same url, or ends, keeps the
discipline. -/
theorem tasksInOrder_become {tr : MetricsTracker U} {t : MonitorTask U}
    {next : List (MonitorTask U)} (h : TasksInOrder tr) (ht : t ∈ tr.monitor_tasks)
    (hnext : ∀ t' ∈ next, next = [t'] ∧ (t'.cancelled = false → t'.url = t.url ∧
      t.cancelled = false) ∧
      ∀ i, t'.await = .fetching i → t'.cancelled = false →
        tr.window_indexes.lookup t'.url = some i) :
    TasksInOrder (tr.become t next) := by
  refine ⟨h.urls_nodup, ?_, ?_, ?_⟩
  · intro hm t' ht'
    rcases List.mem_append.mp ht' with hn | he
    · by_contra hc
      have hlive := (hnext t' hn).2.1 (by simpa using hc)
      have := h.stopped hm t ht
      rw [hlive.2] at this
      cases this
    · exact h.stopped hm t' (List.mem_of_mem_erase he)
  · intro url
    have hb := live_become next ht url
    have hone := h.one_task url
    have hcount : (next.countP fun t => t.url = url && !t.cancelled) ≤
        if t.url = url && !t.cancelled then 1 else 0 := by
      rcases next with _ | ⟨t', rest⟩
      · simp
      · obtain ⟨heq, hlive, _⟩ := hnext t' List.mem_cons_self
        rw [heq]
        by_cases hc : t'.cancelled = false
        · obtain ⟨h1, h2⟩ := hlive hc
          simp [hc, h1, h2]
        · simp [hc]
    omega
  · intro url i hi
    rcases List.mem_append.mp hi with hn | he
    · exact (hnext _ hn).2.2 i rfl rfl
    · exact h.index_read url i (List.mem_of_mem_erase he)

/-- The index of a url goes on while its one live task is past its fetch. -/
theorem tasksInOrder_advance {tr : MetricsTracker U} {url : U} {i : Nat}
    (h : TasksInOrder tr) (ht : ⟨url, .fetching i, false⟩ ∈ tr.monitor_tasks) :
    TasksInOrder ((tr.advance url).become ⟨url, .fetching i, false⟩ [⟨url, .sleeping, false⟩]) := by
  have hb : TasksInOrder (tr.become ⟨url, .fetching i, false⟩ [⟨url, .sleeping, false⟩]) := by
    apply tasksInOrder_become h ht
    intro t' ht'
    rw [List.mem_singleton] at ht'
    subst ht'
    exact ⟨rfl, fun _ => ⟨rfl, rfl⟩, fun j hj => by cases hj⟩
  refine ⟨hb.urls_nodup, hb.stopped, hb.one_task, ?_⟩
  intro u j hj
  have hold := hb.index_read u j hj
  by_cases hu : u = url
  · -- another fetch of the same url would be a second live task
    exfalso
    subst hu
    have hmem : (⟨u, .fetching j, false⟩ : MonitorTask U) ∈
        tr.monitor_tasks.erase ⟨u, .fetching i, false⟩ := by
      rcases List.mem_append.mp hj with hs | he
      · simp at hs
      · exact he
    have hone := h.one_task u
    have hp := (List.perm_cons_erase ht).countP_eq
      fun t : MonitorTask U => t.url = u && !t.cancelled
    have hpos : 0 < (tr.monitor_tasks.erase ⟨u, .fetching i, false⟩).countP
        fun t : MonitorTask U => t.url = u && !t.cancelled := by
      rw [List.countP_pos_iff]
      exact ⟨_, hmem, by simp⟩
    unfold live at hone
    rw [hp, List.countP_cons] at hone
    simp only [decide_true, Bool.not_false, Bool.and_self, if_true] at hone
    omega
  · simpa [MetricsTracker.become, MetricsTracker.advance, AList.lookup_insert_ne hu] using hold

theorem tasksInOrder_congr {tr tr' : MetricsTracker U} (h : TasksInOrder tr)
    (hu : tr'.urls = tr.urls) (hm : tr'.monitoring = tr.monitoring)
    (ht : tr'.monitor_tasks = tr.monitor_tasks) (hi : tr'.window_indexes = tr.window_indexes) :
    TasksInOrder tr' := by
  obtain ⟨h1, h2, h3, h4⟩ := h
  refine ⟨hu ▸ h1, ?_, ?_, ?_⟩
  · rw [hm, ht]; exact h2
  · unfold live at *
    rw [ht]; exact h3
  · rw [ht, hi]; exact h4

theorem update_all_metrics_tasks {tr tr' : MetricsTracker U} {url : U} {content : String} {i : Nat}
    (h : tr.update_all_metrics_for_server url i content = .ok tr') :
    tr'.urls = tr.urls ∧ tr'.monitoring = tr.monitoring ∧
      tr'.monitor_tasks = tr.monitor_tasks ∧ tr'.window_indexes = tr.window_indexes ∧
      tr'.refresh_count_per_window = tr.refresh_count_per_window := by
  by_cases hc : content = ""
  · unfold MetricsTracker.update_all_metrics_for_server at h
    rw [if_pos hc] at h
    cases h
    exact ⟨rfl, rfl, rfl, rfl, rfl⟩
  · obtain ⟨new, ring, last, diff, _, _, _, _, rfl⟩ := update_all_metrics_ok hc h
    exact ⟨rfl, rfl, rfl, rfl, rfl⟩

/-- What the loop head gives a task of the url keeps the discipline. -/
theorem tasksInOrder_loop_head {tr : MetricsTracker U} {t : MonitorTask U} (h : TasksInOrder tr)
    (ht : t ∈ tr.monitor_tasks) (hc : t.cancelled = false) :
    TasksInOrder (tr.become t (tr.loop_head t.url)) := by
  apply tasksInOrder_become h ht
  intro t' ht'
  obtain ⟨i, rfl, hi, heq, _⟩ := mem_loop_head ht'
  refine ⟨heq, fun _ => ⟨rfl, hc⟩, ?_⟩
  intro j hj _
  cases hj
  exact hi

theorem tasksInOrder_end {tr : MetricsTracker U} {t : MonitorTask U} (h : TasksInOrder tr)
    (ht : t ∈ tr.monitor_tasks) : TasksInOrder (tr.become t []) := by
  apply tasksInOrder_become h ht
  intro t' ht'
  simp at ht'

theorem tasksInOrder_taskStep {tr tr' : MetricsTracker U} {e : TaskEvent U} (h : TasksInOrder tr)
    (hs : tr.taskStep e = some tr') : TasksInOrder tr' := by
  cases e with
  | start url =>
    simp only [MetricsTracker.taskStep] at hs
    split at hs
    · rename_i ht
      cases hs
      exact tasksInOrder_loop_head h ht rfl
    · cases hs
  | wake url =>
    simp only [MetricsTracker.taskStep] at hs
    split at hs
    · rename_i ht
      cases hs
      exact tasksInOrder_loop_head h ht rfl
    · cases hs
  | cancelled t =>
    simp only [MetricsTracker.taskStep] at hs
    split at hs
    · rename_i ht
      cases hs
      exact tasksInOrder_end h ht.1
    · cases hs
  | scrape url i o =>
    simp only [MetricsTracker.taskStep] at hs
    split at hs
    · rename_i ht
      cases hs
      unfold MetricsTracker.scraped
      split
      · split
        · rename_i updated hok
          obtain ⟨h1, h2, h3, h4, _⟩ := update_all_metrics_tasks hok
          apply tasksInOrder_advance (tasksInOrder_congr h h1 h2 h3 h4)
          rw [h3]
          exact ht
        · exact tasksInOrder_end h ht
      · exact tasksInOrder_loop_head h ht rfl
      · exact tasksInOrder_end h ht
    · cases hs

theorem live_eq_zero {tr : MetricsTracker U} (h : ∀ t ∈ tr.monitor_tasks, t.cancelled = true)
    (url : U) : live tr url = 0 := by
  unfold live
  rw [List.countP_eq_zero]
  intro t ht
  simp [h t ht]

/-- `monitor` starts one task for each url, when no live task is left. -/
theorem tasksInOrder_monitor {tr : MetricsTracker U} (h : TasksInOrder tr) :
    TasksInOrder tr.monitor := by
  unfold MetricsTracker.monitor
  split
  · exact h
  · rename_i hm
    have hstop := h.stopped (by simpa using hm)
    refine ⟨h.urls_nodup, fun hf => (by cases hf), ?_, ?_⟩
    · intro url
      have h0 := live_eq_zero hstop url
      unfold live at h0 ⊢
      rw [List.countP_append, h0, List.countP_map, Nat.zero_add]
      have hcount := List.nodup_iff_count_le_one.mp h.urls_nodup url
      rw [List.count] at hcount
      refine le_trans (le_of_eq ?_) hcount
      apply List.countP_congr
      intro u _
      simp
    · intro url i hi
      rcases List.mem_append.mp hi with ho | hn
      · have := hstop _ ho
        cases this
      · simp at hn

theorem tasksInOrder_stop_monitor {tr : MetricsTracker U} (h : TasksInOrder tr) :
    TasksInOrder tr.stop_monitor := by
  unfold MetricsTracker.stop_monitor
  split
  · have hall : ∀ t ∈ tr.monitor_tasks.map fun t => { t with cancelled := true },
        t.cancelled = true := by
      intro t ht
      obtain ⟨t', _, rfl⟩ := List.mem_map.mp ht
      rfl
    refine ⟨h.urls_nodup, fun _ => hall, ?_, ?_⟩
    · intro url
      rw [live_eq_zero hall]
      omega
    · intro url i hi
      have := hall _ hi
      cases this
  · exact h

theorem tasksInOrder_step {tr tr' : MetricsTracker U} {e : Event U} (h : TasksInOrder tr)
    (hs : tr.step e = some tr') : TasksInOrder tr' := by
  cases e with
  | task e => exact tasksInOrder_taskStep h hs
  | monitor => cases hs; exact tasksInOrder_monitor h
  | stop_monitor => cases hs; exact tasksInOrder_stop_monitor h
  | update_urls urls =>
    simp only [MetricsTracker.step] at hs
    split at hs
    · rename_i hn
      cases hs
      exact ⟨hn, h.stopped, h.one_task, h.index_read⟩
    · cases hs
  | cancel t =>
    simp only [MetricsTracker.step] at hs
    split at hs
    · rename_i ht
      cases hs
      apply tasksInOrder_become h ht.1
      intro t' ht'
      rw [List.mem_singleton] at ht'
      subst ht'
      exact ⟨rfl, fun hf => (by cases hf), fun _ _ hf => (by cases hf)⟩
    · cases hs

/-! ## The ring holds the last histograms -/

/-- What a histogram holds, without the order of its entries. -/
def lookups (h : Histogram) : Bound → Option ℚ := fun key => h.lookup key

/-- The texts that the content scrapes of `url` returned, in turn. -/
def scrapesOf (url : U) (es : List (Event U)) : List String := es.filterMap (contentOf url)

/-- The newest histogram minus the one a window before it. -/
def difference (n : Nat) (hs : List Histogram) : Histogram :=
  match hs.getLast? with
  | none => ∅
  | some newest => newest.sub (window.back ∅ hs.dropLast n)

/-- No histogram lacks a key of an earlier one. -/
def KeysGrow (hs : List Histogram) : Prop := hs.Pairwise fun h h' => ∀ key ∈ h, key ∈ h'

/-- What the tracker keeps for `url` after it scraped the histograms `hs`. -/
structure Slides (tr : MetricsTracker U) (url : U) (n : Nat) (hs : List Histogram) : Prop where
  refresh_count : tr.refresh_count_per_window = n
  index : tr.window_indexes.lookup url = some (hs.length % n)
  ring : ∃ ring, tr.time_to_first_token_last_histograms.lookup url = some ring ∧
    window.Holds n (lookups ∅) (ring.map lookups) (hs.map lookups)
  diff : ∃ diff, tr.time_to_first_token_diff_histograms.lookup url = some diff ∧
    lookups diff = lookups (difference n hs)

theorem slides_create {urls : List U} {url : U} (n : Nat) (h : url ∈ urls) :
    Slides (MetricsTracker.create urls n) url n [] := by
  refine ⟨rfl, ?_, ?_, ?_⟩
  · simp [MetricsTracker.create, Dict.lookup_ofKeys, h]
  · refine ⟨List.replicate n ∅, by simp [MetricsTracker.create, Dict.lookup_ofKeys, h], ?_⟩
    rw [List.map_replicate]
    exact window.holds_start n _
  · exact ⟨∅, by simp [MetricsTracker.create, Dict.lookup_ofKeys, h], rfl⟩

theorem Slides.congr {tr tr' : MetricsTracker U} {url : U} {n : Nat} {hs : List Histogram}
    (h : Slides tr url n hs)
    (hn : tr'.refresh_count_per_window = tr.refresh_count_per_window)
    (hs' : tr'.slot url = tr.slot url) : Slides tr' url n hs := by
  simp only [MetricsTracker.slot, Prod.mk.injEq] at hs'
  obtain ⟨h1, h2, h3⟩ := hs'
  refine ⟨hn.trans h.refresh_count, h1.trans h.index, ?_, ?_⟩
  · rw [h2]; exact h.ring
  · rw [h3]; exact h.diff

theorem back_map {α β : Type*} (f : α → β) (d : α) (xs : List α) (n : Nat) :
    window.back (f d) (xs.map f) n = f (window.back d xs n) := by
  unfold window.back
  rw [List.length_map]
  split
  · rfl
  · rw [List.getD_map]

/-- The histogram a window back is one of the earlier ones, or empty. -/
theorem back_mem {hs : List Histogram} {n : Nat} {key : Bound}
    (h : key ∈ window.back ∅ hs n) : window.back ∅ hs n ∈ hs := by
  unfold window.back at h ⊢
  split
  · rename_i hlt
    rw [if_pos hlt] at h
    exact absurd h (AList.notMem_empty key)
  · rename_i hlt
    rw [if_neg hlt] at h
    rcases Nat.lt_or_ge (hs.length - n) hs.length with hl | hl
    · rw [List.getD_eq_getElem _ _ hl]
      exact List.getElem_mem hl
    · rw [List.getD_eq_default _ _ hl] at h
      exact absurd h (AList.notMem_empty key)

theorem mem_iff_of_lookups {h g : Histogram} (he : lookups h = lookups g) (key : Bound) :
    key ∈ h ↔ key ∈ g := by
  have := congrFun he key
  unfold lookups at this
  rw [← AList.lookup_isSome, ← AList.lookup_isSome, this]

/-- Every key of the difference is a key of a scraped histogram. -/
theorem mem_of_mem_difference {hs : List Histogram} {n : Nat} {key : Bound}
    (h : key ∈ difference n hs) : ∃ g ∈ hs, key ∈ g := by
  unfold difference at h
  split at h
  · exact absurd h (AList.notMem_empty key)
  · rename_i newest hnewest
    rcases Histogram.mem_sub.mp h with hk | hk
    · exact ⟨newest, List.mem_of_getLast? hnewest, hk⟩
    · exact ⟨_, List.mem_of_mem_dropLast (back_mem hk), hk⟩

/-- A merge into a histogram whose keys the new one has is the new one. -/
theorem lookups_update {h new : Histogram} (hk : ∀ key ∈ h, key ∈ new) :
    lookups (h.update new) = lookups new := by
  funext key
  unfold lookups
  rw [Dict.lookup_update]
  by_cases hn : key ∈ new
  · obtain ⟨v, hv⟩ := Dict.exists_of_mem hn
    rw [hv, Option.some_or]
  · have hh : key ∉ h := fun hh => hn (hk key hh)
    rw [AList.lookup_eq_none.mpr hn, AList.lookup_eq_none.mpr hh, Option.or_self]

/-- A content scrape writes the slot of its turn and the difference, and goes one on. -/
theorem slides_scrape {tr : MetricsTracker U} {url : U} {text : String} {n i : Nat}
    {hs : List Histogram} {new : Histogram} (hn : 0 < n) (h : Slides tr url n hs)
    (ho : TasksInOrder tr) (ht : ⟨url, .fetching i, false⟩ ∈ tr.monitor_tasks)
    (htext : text ≠ "") (hnew : Histogram.parse text time_to_first_token_pattern = .ok new)
    (hkeys : ∀ g ∈ hs, ∀ key ∈ g, key ∈ new) :
    Slides (tr.scraped url i (.content text)) url n (hs ++ [new]) := by
  obtain ⟨ring, hring, hholds⟩ := h.ring
  obtain ⟨diff, hdiff, hdl⟩ := h.diff
  have hi : i = hs.length % n := by
    have := ho.index_read url i ht
    rw [h.index] at this
    exact (Option.some.inj this).symm
  -- the slot that this scrape writes holds the histogram a window back
  have hev := hholds.evicts hn
  rw [List.length_map, ← hi, back_map lookups, List.getElem?_map, Option.map_eq_some_iff] at hev
  obtain ⟨last, hlast, hll⟩ := hev
  have hlk : ∀ key ∈ last, key ∈ new := by
    intro key hk
    have hb := (mem_iff_of_lookups hll key).mp hk
    exact hkeys _ (back_mem hb) key hb
  have hdk : ∀ key ∈ diff, key ∈ new.sub last := by
    intro key hk
    obtain ⟨g, hg, hkg⟩ := mem_of_mem_difference ((mem_iff_of_lookups hdl key).mp hk)
    exact Histogram.mem_sub.mpr (.inl (hkeys g hg key hkg))
  have hupdate : tr.update_all_metrics_for_server url i text = .ok { tr with
      time_to_first_token_last_histograms :=
        tr.time_to_first_token_last_histograms.insert url (ring.set i (last.update new))
      time_to_first_token_diff_histograms :=
        tr.time_to_first_token_diff_histograms.insert url (diff.update (new.sub last)) } := by
    unfold MetricsTracker.update_all_metrics_for_server
    rw [if_neg htext, hnew]
    simp only [hring, hlast, hdiff, update_histogram]
  simp only [MetricsTracker.scraped, hupdate]
  refine ⟨h.refresh_count, ?_, ?_, ?_⟩
  · simp only [MetricsTracker.become, MetricsTracker.advance, AList.lookup_insert, Dict.get,
      h.index, h.refresh_count, Option.getD_some, List.length_append, List.length_singleton,
      Nat.mod_add_mod]
  · refine ⟨ring.set i (last.update new), ?_, ?_⟩
    · simp only [MetricsTracker.become, MetricsTracker.advance, AList.lookup_insert]
    · rw [List.map_set, List.map_append, lookups_update hlk, hi]
      have hpush := hholds.push hn (lookups new)
      rw [List.length_map] at hpush
      exact hpush
  · refine ⟨diff.update (new.sub last), ?_, ?_⟩
    · simp only [MetricsTracker.become, MetricsTracker.advance, AList.lookup_insert]
    · rw [lookups_update hdk]
      funext key
      have hd : difference n (hs ++ [new]) = new.sub (window.back ∅ hs n) := by
        simp [difference]
      rw [hd]
      exact Histogram.lookup_sub_congr (fun _ => rfl) (congrFun hll) key

theorem refresh_count_step {tr tr' : MetricsTracker U} {e : Event U} (h : tr.step e = some tr') :
    tr'.refresh_count_per_window = tr.refresh_count_per_window := by
  rcases step_cases h with ⟨url, i, text, rfl, _, rfl⟩ | ⟨_, hsame⟩
  · unfold MetricsTracker.scraped
    split
    · split
      · rename_i hok
        exact (update_all_metrics_tasks hok).2.2.2.2
      · rfl
    · rfl
    · rfl
  · exact hsame.refresh_count

/-! ## The law -/

/-- The histograms of the texts, one for each. A text is not empty and parses. -/
def Scraped (texts : List String) (hs : List Histogram) : Prop :=
  "" ∉ texts ∧ texts.map (Histogram.parse · time_to_first_token_pattern) = hs.map .ok

theorem scrapesOf_snoc (url : U) (es : List (Event U)) (e : Event U) :
    scrapesOf url (es ++ [e]) = scrapesOf url es ++ (contentOf url e).toList := by
  unfold scrapesOf
  rw [List.filterMap_append]
  cases h : contentOf url e <;> simp [h]

theorem scraped_snoc {texts : List String} {text : String} {hs : List Histogram}
    (h : Scraped (texts ++ [text]) hs) : ∃ hs' new, hs = hs' ++ [new] ∧ Scraped texts hs' ∧
      text ≠ "" ∧ Histogram.parse text time_to_first_token_pattern = .ok new := by
  obtain ⟨hne, hmap⟩ := h
  rw [List.map_append, List.map_singleton] at hmap
  obtain ⟨hs', tail, rfl, hbefore, hlast⟩ := List.map_eq_append_iff.mp hmap.symm
  obtain ⟨new, rfl, hnew⟩ := List.map_eq_singleton_iff.mp hlast
  rw [List.mem_append, List.mem_singleton, not_or] at hne
  exact ⟨hs', new, rfl, ⟨hne.1, hbefore.symm⟩, Ne.symm hne.2, hnew.symm⟩

/-- One step more: a content scrape of the url slides the window by one, and no other step
does. -/
theorem slides_step {tr tr' : MetricsTracker U} {e : Event U} {url : U} {n : Nat} (hn : 0 < n)
    {texts : List String} (ho : TasksInOrder tr)
    (h : ∀ hs, Scraped texts hs → KeysGrow hs → Slides tr url n hs) (hs : tr.step e = some tr')
    {hists : List Histogram} (hscraped : Scraped (texts ++ (contentOf url e).toList) hists)
    (hgrow : KeysGrow hists) : Slides tr' url n hists := by
  cases hc : contentOf url e with
  | none =>
    rw [hc, Option.toList_none, List.append_nil] at hscraped
    exact (h hists hscraped hgrow).congr (refresh_count_step hs) (slot_step hs hc)
  | some text =>
    rw [hc, Option.toList_some] at hscraped
    obtain ⟨hists', new, rfl, hbefore, htext, hnew⟩ := scraped_snoc hscraped
    obtain ⟨hgrow', _, hkeys⟩ := List.pairwise_append.mp hgrow
    rcases step_cases hs with ⟨u, i, text', rfl, ht, rfl⟩ | ⟨hnone, _⟩
    · obtain ⟨rfl, htt⟩ : u = url ∧ text' = text := by simpa [contentOf] using hc
      rw [htt]
      exact slides_scrape hn (h hists' hbefore hgrow') ho ht htext hnew
        fun g hg key hk => hkeys g hg new List.mem_cons_self key hk
    · rw [hnone url] at hc
      cases hc

theorem slides_run {urls : List U} {url : U} {n : Nat} (hn : 0 < n)
    (hurls : urls.Nodup) (hurl : url ∈ urls) {es : List (Event U)} {tr : MetricsTracker U}
    (h : Run MetricsTracker.step Any (MetricsTracker.create urls n) es tr) :
    TasksInOrder tr ∧ ∀ hs, Scraped (scrapesOf url es) hs → KeysGrow hs → Slides tr url n hs := by
  refine h.invariant_of_events (I := fun es tr => TasksInOrder tr ∧
    ∀ hs, Scraped (scrapesOf url es) hs → KeysGrow hs → Slides tr url n hs) ?_ ?_
  · refine ⟨tasksInOrder_create n hurls, ?_⟩
    intro hs hscraped _
    have hnil : hs = [] := List.map_eq_nil_iff.mp hscraped.2.symm
    rw [hnil]
    exact slides_create n hurl
  · intro es tr e tr' ⟨ho, ih⟩ _ hs
    refine ⟨tasksInOrder_step ho hs, ?_⟩
    intro hists hscraped hgrow
    rw [scrapesOf_snoc] at hscraped
    exact slides_step hn ho ih hs hscraped hgrow

/-- After the scrape of `newest`, the difference of the url is `newest` minus the histogram
a window before it, key by key. No step changes what is kept for a url but a content scrape
of that url. -/
theorem the_difference_slides {urls : List U} {url : U} {n : Nat} (hn : 1 ≤ n)
    (hurls : urls.Nodup) (hurl : url ∈ urls) {es : List (Event U)} {tr : MetricsTracker U}
    (h : Run MetricsTracker.step Any (MetricsTracker.create urls n) es tr)
    {hs : List Histogram} {newest : Histogram}
    (hscraped : Scraped (scrapesOf url es) (hs ++ [newest])) (hgrow : KeysGrow (hs ++ [newest])) :
    (∃ diff, tr.time_to_first_token_diff_histograms.lookup url = some diff ∧
      ∀ key, diff.lookup key =
        (newest.sub (if hs.length < n then ∅ else hs.getD (hs.length - n) ∅)).lookup key) ∧
    ∀ e tr', tr.step e = some tr' → ∀ u, contentOf u e = none → tr'.slot u = tr.slot u := by
  refine ⟨?_, fun e tr' hs u hu => slot_step hs hu⟩
  obtain ⟨_, hslides⟩ := slides_run hn hurls hurl h
  obtain ⟨diff, hdiff, hl⟩ := (hslides _ hscraped hgrow).diff
  refine ⟨diff, hdiff, ?_⟩
  intro key
  have hk := congrFun hl key
  simp only [difference, List.getLast?_concat, List.dropLast_concat] at hk
  exact hk

theorem exists_parse (text : String) (keys : List Bound)
    (h : (Histogram.parse text time_to_first_token_pattern).toOption.map (·.keys) = some keys) :
    ∃ new, Histogram.parse text time_to_first_token_pattern = .ok new ∧ new.keys = keys := by
  cases hp : Histogram.parse text time_to_first_token_pattern with
  | error e => simp [hp, Except.toOption] at h
  | ok new =>
    rw [hp] at h
    exact ⟨new, rfl, Option.some.inj h⟩

/-- Two scrapes of a url, with a restart of the monitoring between them. -/
def aroundARestart (first second : String) : List Event :=
  [.monitor, .task (.start "http://a"), .task (.scrape "http://a" 0 (.content first)),
    .stop_monitor, .monitor, .task (.start "http://a"),
    .task (.scrape "http://a" 0 (.content second))]

/-- A text with one bucket of a `count`. -/
def oneBucket (count : String) : String :=
  "vllm:time_to_first_token_seconds_bucket\x7ble=\"+Inf\"\x7d " ++ count ++ "\n"

theorem the_difference_slides_over_a_restart :
    ∃ tr, ∃ hs : List Histogram, ∃ newest : Histogram,
      Run MetricsTracker.step Any (MetricsTracker.create ["http://a", "http://b"] 1)
        (aroundARestart (oneBucket "3.0") (oneBucket "5.0")) tr ∧
      (∃ diff, tr.time_to_first_token_diff_histograms.lookup "http://a" = some diff ∧
        ∀ key, diff.lookup key =
          (newest.sub (if hs.length < 1 then ∅ else hs.getD (hs.length - 1) ∅)).lookup key) ∧
      ∀ e tr', tr.step e = some tr' → ∀ u, contentOf u e = none → tr'.slot u = tr.slot u := by
  obtain ⟨first, h1, k1⟩ := exists_parse (oneBucket "3.0") [⊤] (by decide +kernel)
  obtain ⟨second, h2, k2⟩ := exists_parse (oneBucket "5.0") [⊤] (by decide +kernel)
  have hexec : (exec MetricsTracker.step (MetricsTracker.create ["http://a", "http://b"] 1)
      (aroundARestart (oneBucket "3.0") (oneBucket "5.0"))).isSome = true := by decide +kernel
  obtain ⟨tr, htr⟩ := Option.isSome_iff_exists.mp hexec
  refine ⟨tr, [first], second, run_of_exec htr, ?_⟩
  apply the_difference_slides (Nat.le_refl 1) (by decide) (by decide) (run_of_exec htr)
  · have htexts : scrapesOf "http://a" (aroundARestart (oneBucket "3.0") (oneBucket "5.0")) =
        [oneBucket "3.0", oneBucket "5.0"] := by decide +kernel
    rw [htexts]
    refine ⟨by decide, ?_⟩
    simp only [List.map_cons, List.map_nil, h1, h2, List.cons_append, List.nil_append]
  · refine List.pairwise_pair.mpr ?_
    intro key hk
    rw [AList.mem_keys] at hk ⊢
    rw [k1] at hk
    rw [k2]
    exact hk

end aristote_dispatcher.metrics_tracker
