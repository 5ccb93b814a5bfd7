-- When the counts of the window differences mean something. They are below
-- zero exactly when a scrape brought a count below the one that it replaces in
-- the ring, as a restarted server does.
import AristoteDispatcher.SlidingWindow
import AristoteDispatcher.Strategy

open pydict runs pyfloat
open aristote_dispatcher.settings aristote_dispatcher.histogram
open aristote_dispatcher.metrics_tracker

namespace aristote_dispatcher.strategy

/-! ## What a step of the strategy leaves as it was -/

variable {T O L U : Type} [DecidableEq U]

theorem slot_create (servers : List (VLLMServer T O L U)) (n : Nat) (url : U) :
    (LeastBusy.create servers n).tracker.slot url =
      (MetricsTracker.create (servers.map (·.url)) n).slot url := slot_monitor _ _

theorem slot_updated (s : LeastBusy T O L U) (servers : List (VLLMServer T O L U)) (url : U) :
    (s.updated servers).tracker.slot url = s.tracker.slot url :=
  slot_monitor _ _

variable [DecidableEq T] [DecidableEq O] [DecidableEq L]

theorem slot_update_servers (s : LeastBusy T O L U) (servers : List (VLLMServer T O L U))
    (url : U) : (s.update_servers servers).tracker.slot url = s.tracker.slot url := by
  unfold LeastBusy.update_servers
  split
  · exact slot_stop_monitor _ _
  · rfl

/-- A step is the step of a monitoring task, or it leaves all histograms as they were. -/
theorem leastBusy_step_cases {configured : List (VLLMServer T O L U)} {s s' : LeastBusy T O L U}
    {e : StrategyEvent U} (h : s.step configured e = some s') :
    (∃ te tracker, e = .task te ∧ s.tracker.step (.task te) = some tracker ∧
      s' = { s with tracker := tracker }) ∨
    ((∀ te, e ≠ .task te) ∧ ∀ url, s'.tracker.slot url = s.tracker.slot url) := by
  cases e with
  | task te =>
    obtain ⟨tracker, ht, rfl⟩ := Option.map_eq_some_iff.mp h
    exact .inl ⟨te, tracker, rfl, ht, rfl⟩
  | ping results =>
    obtain ⟨_, hs⟩ := Option.ite_none_right_eq_some.mp h
    cases hs
    exact .inr ⟨fun te he => (by cases he), slot_update_servers s _⟩
  | tasks_ended =>
    simp only [LeastBusy.step] at h
    split at h
    · obtain ⟨_, hs⟩ := Option.ite_none_right_eq_some.mp h
      cases hs
      exact .inr ⟨fun te he => (by cases he), slot_updated s _⟩
    · cases h

/-! ## Counts that mean something -/

/-- A url with a ring has a difference. -/
def Paired (s : LeastBusy) : Prop :=
  ∀ url ring, s.tracker.time_to_first_token_last_histograms.lookup url = some ring →
    ∃ diff, s.tracker.time_to_first_token_diff_histograms.lookup url = some diff

theorem diff_of_slot {tr tr' : MetricsTracker U} {url : U} (h : tr'.slot url = tr.slot url) :
    tr'.time_to_first_token_last_histograms.lookup url =
        tr.time_to_first_token_last_histograms.lookup url ∧
      tr'.time_to_first_token_diff_histograms.lookup url =
        tr.time_to_first_token_diff_histograms.lookup url := by
  simp only [MetricsTracker.slot, Prod.mk.injEq] at h
  exact h.2

/-- What a content scrape writes: nothing, or the merged difference of its url. -/
theorem scraped_cases (tr : MetricsTracker U) (url : U) (text : String) (i : Nat) :
    (∃ new ring last diff, text ≠ "" ∧
      Histogram.parse text time_to_first_token_pattern = .ok new ∧
      tr.time_to_first_token_last_histograms.lookup url = some ring ∧ ring[i]? = some last ∧
      tr.time_to_first_token_diff_histograms.lookup url = some diff ∧
      (tr.scraped url i (.content text)).time_to_first_token_last_histograms =
        tr.time_to_first_token_last_histograms.insert url (ring.set i (last.update new)) ∧
      (tr.scraped url i (.content text)).time_to_first_token_diff_histograms =
        tr.time_to_first_token_diff_histograms.insert url (diff.update (new.sub last))) ∨
    ((text ≠ "" → ∀ new ring last diff,
        Histogram.parse text time_to_first_token_pattern = .ok new →
        tr.time_to_first_token_last_histograms.lookup url = some ring → ring[i]? = some last →
        tr.time_to_first_token_diff_histograms.lookup url ≠ some diff) ∧
      (tr.scraped url i (.content text)).time_to_first_token_last_histograms =
        tr.time_to_first_token_last_histograms ∧
      (tr.scraped url i (.content text)).time_to_first_token_diff_histograms =
        tr.time_to_first_token_diff_histograms) := by
  by_cases hc : text = ""
  · subst hc
    exact .inr ⟨fun hne => absurd rfl hne, rfl, rfl⟩
  cases hu : tr.update_all_metrics_for_server url i text with
  | ok tr' =>
    obtain ⟨new, ring, last, diff, h1, h2, h3, h4, rfl⟩ := update_all_metrics_ok hc hu
    refine .inl ⟨new, ring, last, diff, hc, h1, h2, h3, h4, ?_, ?_⟩
    · simp only [MetricsTracker.scraped, hu]
      rfl
    · simp only [MetricsTracker.scraped, hu]
      rfl
  | error e =>
    refine .inr ⟨?_, ?_, ?_⟩
    · intro _ new ring last diff h1 h2 h3 h4
      unfold MetricsTracker.update_all_metrics_for_server at hu
      rw [if_neg hc, h1] at hu
      simp [h2, h3, h4] at hu
    · simp only [MetricsTracker.scraped, hu]
      rfl
    · simp only [MetricsTracker.scraped, hu]
      rfl

theorem paired_step {configured : List VLLMServer} {s s' : LeastBusy} {e : StrategyEvent}
    (hp : Paired s) (h : s.step configured e = some s') : Paired s' := by
  intro url ring hr
  rcases leastBusy_step_cases h with ⟨te, tr, rfl, ht, rfl⟩ | ⟨_, hslot⟩
  · rcases step_cases ht with ⟨u, i, text, _, _, rfl⟩ | ⟨_, hsame⟩
    · rcases scraped_cases s.tracker u text i with
        ⟨new, ring', last, diff, _, _, hring', _, _, hw, hd⟩ | ⟨_, hw, hd⟩
      · simp only [hw, hd, Dict.lookup_insert_eq] at hr ⊢
        split
        · exact ⟨_, rfl⟩
        · rename_i hne
          rw [if_neg hne] at hr
          exact hp url ring hr
      · simp only [hw, hd] at hr ⊢
        exact hp url ring hr
    · obtain ⟨h1, h2⟩ := diff_of_slot (hsame.slot url)
      rw [h1] at hr
      obtain ⟨diff, hd⟩ := hp url ring hr
      exact ⟨diff, h2.trans hd⟩
  · obtain ⟨h1, h2⟩ := diff_of_slot (hslot url)
    rw [h1] at hr
    obtain ⟨diff, hd⟩ := hp url ring hr
    exact ⟨diff, h2.trans hd⟩

/-- One server. -/
def oneServer : List VLLMServer := [⟨"http://a", none, "org", 1⟩]

end aristote_dispatcher.strategy
