-- The metrics tracker (consumer/strategy/metrics_tracker.py): one monitoring
-- task for each url scrapes its server and keeps a ring of histograms. A task
-- gives up the event loop only at its awaits, so one event below is what runs
-- from one await to the next.
import AristoteDispatcher.Histogram
import AristoteDispatcher.Lib.Runs

open pydict
open aristote_dispatcher.settings aristote_dispatcher.histogram

namespace aristote_dispatcher.metrics_tracker

/-- `^vllm:time_to_first_token_seconds_bucket.*$` without its anchors and its end. -/
def time_to_first_token_pattern : List Char := "vllm:time_to_first_token_seconds_bucket".toList

/-- Where a task of `_monitor_server` stands. The index of the window is read before the
fetch. -/
inductive Await
  | starting
  | fetching (window_index : Nat)
  | sleeping
  deriving DecidableEq, Repr

structure MonitorTask (U : Type := String) where
  url : U
  await : Await
  cancelled : Bool
  deriving DecidableEq, Repr

structure MetricsTracker (U : Type := String) where
  urls : List U
  refresh_count_per_window : Nat
  window_indexes : Dict U Nat
  time_to_first_token_last_histograms : Dict U (List Histogram)
  time_to_first_token_diff_histograms : Dict U Histogram
  monitoring : Bool
  /-- The tasks that have not ended yet. -/
  monitor_tasks : List (MonitorTask U)

variable {U : Type} [DecidableEq U]

/-- The constructor. -/
def MetricsTracker.create (urls : List U) (refresh_count_per_window : Nat) :
    MetricsTracker U where
  urls := urls
  refresh_count_per_window := refresh_count_per_window
  window_indexes := Dict.ofKeys urls fun _ => 0
  time_to_first_token_last_histograms :=
    Dict.ofKeys urls fun _ => List.replicate refresh_count_per_window ∅
  time_to_first_token_diff_histograms := Dict.ofKeys urls fun _ => ∅
  monitoring := false
  monitor_tasks := []

/-- How `fetch_metrics` ends: a text, an `aiohttp.ClientConnectorError`, or any other
exception (a status that is no 2xx, a disconnection, a timeout). -/
inductive Scrape
  | content (text : String)
  | connector_error
  | other_error
  deriving DecidableEq, Repr

/-- The new last histogram and the new difference. -/
def update_histogram (new_histogram last_histogram diff_histogram : Histogram) :
    Histogram × Histogram :=
  (last_histogram.update new_histogram, diff_histogram.update (new_histogram.sub last_histogram))

def MetricsTracker.update_urls (self : MetricsTracker U) (urls : List U) : MetricsTracker U :=
  { self with urls := urls }

/-- What `update_all_metrics_for_server` does with the content that it fetched. -/
def MetricsTracker.update_all_metrics_for_server (self : MetricsTracker U) (url : U)
    (window_index : Nat) (content : String) : Except Exn (MetricsTracker U) :=
  if content = "" then .ok self
  else
    match Histogram.parse content time_to_first_token_pattern with
    | .error e => .error e
    | .ok new_histogram =>
      match self.time_to_first_token_last_histograms.lookup url with
      | none => .error .KeyError
      | some ring =>
        match ring[window_index]? with
        | none => .error .IndexError
        | some last_histogram =>
          match self.time_to_first_token_diff_histograms.lookup url with
          | none => .error .KeyError
          | some diff_histogram =>
            let updated := update_histogram new_histogram last_histogram diff_histogram
            .ok { self with
              time_to_first_token_last_histograms :=
                self.time_to_first_token_last_histograms.insert url
                  (ring.set window_index updated.1)
              time_to_first_token_diff_histograms :=
                self.time_to_first_token_diff_histograms.insert url updated.2 }

/-- The index of the window goes one on. -/
def MetricsTracker.advance (self : MetricsTracker U) (url : U) : MetricsTracker U :=
  { self with
    window_indexes := self.window_indexes.insert url
      ((self.window_indexes.get url 0 + 1) % self.refresh_count_per_window) }

/-- The head of the loop `while self.monitoring`: the task that awaits the next fetch, or
none when the loop ends or a KeyError ends the task. -/
def MetricsTracker.loop_head (self : MetricsTracker U) (url : U) : List (MonitorTask U) :=
  if self.monitoring then
    match self.window_indexes.lookup url with
    | some window_index => [⟨url, .fetching window_index, false⟩]
    | none => []
  else []

def MetricsTracker.monitor (self : MetricsTracker U) : MetricsTracker U :=
  if self.monitoring then self
  else { self with
    monitoring := true
    monitor_tasks := self.monitor_tasks ++ self.urls.map fun url => ⟨url, .starting, false⟩ }

/-- `stop_monitor` up to its `gather`: every task is told to end. -/
def MetricsTracker.stop_monitor (self : MetricsTracker U) : MetricsTracker U :=
  if self.monitoring then
    { self with
      monitoring := false
      monitor_tasks := self.monitor_tasks.map fun t => { t with cancelled := true } }
  else self

/-- One task goes from `t` to `next`. -/
def MetricsTracker.become (self : MetricsTracker U) (t : MonitorTask U)
    (next : List (MonitorTask U)) : MetricsTracker U :=
  { self with monitor_tasks := next ++ self.monitor_tasks.erase t }

/-- A step of one monitoring task. -/
inductive TaskEvent (U : Type := String)
  | start (url : U)
  | scrape (url : U) (window_index : Nat) (outcome : Scrape)
  | wake (url : U)
  | cancelled (t : MonitorTask U)
  deriving DecidableEq, Repr

/-- A task that awaits its fetch goes on. -/
def MetricsTracker.scraped (self : MetricsTracker U) (url : U) (window_index : Nat) :
    Scrape → MetricsTracker U
  | .content text =>
    match self.update_all_metrics_for_server url window_index text with
    | .ok updated =>
      (updated.advance url).become ⟨url, .fetching window_index, false⟩ [⟨url, .sleeping, false⟩]
    -- the exception ends the task
    | .error _ => self.become ⟨url, .fetching window_index, false⟩ []
  | .connector_error =>
    self.become ⟨url, .fetching window_index, false⟩ (self.loop_head url)
  | .other_error => self.become ⟨url, .fetching window_index, false⟩ []

/-- One step of `_monitor_server`. A task that was told to end gets its CancelledError at
its await, before anything else. -/
def MetricsTracker.taskStep (self : MetricsTracker U) : TaskEvent U → Option (MetricsTracker U)
  | .start url =>
    if ⟨url, .starting, false⟩ ∈ self.monitor_tasks then
      some (self.become ⟨url, .starting, false⟩ (self.loop_head url))
    else none
  | .scrape url window_index outcome =>
    if ⟨url, .fetching window_index, false⟩ ∈ self.monitor_tasks then
      some (self.scraped url window_index outcome)
    else none
  | .wake url =>
    if ⟨url, .sleeping, false⟩ ∈ self.monitor_tasks then
      some (self.become ⟨url, .sleeping, false⟩ (self.loop_head url))
    else none
  | .cancelled t =>
    if t ∈ self.monitor_tasks ∧ t.cancelled = true then some (self.become t []) else none

/-- What happens to a tracker: a step of a task, a call of one of its methods, or the
cancellation of one task. -/
inductive Event (U : Type := String)
  | task (e : TaskEvent U)
  | monitor
  | stop_monitor
  | update_urls (urls : List U)
  | cancel (t : MonitorTask U)
  deriving DecidableEq, Repr

/-- Every caller gives `update_urls` the urls of distinct servers. -/
def MetricsTracker.step (self : MetricsTracker U) : Event U → Option (MetricsTracker U)
  | .task e => self.taskStep e
  | .monitor => some self.monitor
  | .stop_monitor => some self.stop_monitor
  | .update_urls urls => if urls.Nodup then some (self.update_urls urls) else none
  | .cancel t =>
    if t ∈ self.monitor_tasks ∧ t.cancelled = false then
      some (self.become t [{ t with cancelled := true }])
    else none

end aristote_dispatcher.metrics_tracker
