-- The two routing strategies (consumer/strategy): round robin, and least busy
-- over the tracker's differences. The pinger (consumer/server_pinger.py) hands
-- them the servers that answered.
import Mathlib.Data.List.Sort
import AristoteDispatcher.Fields
import AristoteDispatcher.MetricsTracker

open pydict pyfloat
open aristote_dispatcher.settings aristote_dispatcher.histogram
open aristote_dispatcher.metrics_tracker
open aristote_dispatcher.rpc_server (UrlField)

namespace aristote_dispatcher.strategy

/-- `random.choice(xs)`. The number is what the generator draws. -/
def choice {α : Type*} (xs : List α) (random : Nat) : Except Exn α :=
  match xs[random % xs.length]? with
  | some x => .ok x
  | none => .error .IndexError

theorem choice_of_ne_nil {α : Type*} {xs : List α} (h : xs ≠ []) (random : Nat) :
    ∃ x ∈ xs, choice xs random = .ok x := by
  have hlt : random % xs.length < xs.length := Nat.mod_lt _ (List.length_pos_of_ne_nil h)
  refine ⟨xs[random % xs.length], List.getElem_mem hlt, ?_⟩
  unfold choice
  rw [List.getElem?_eq_getElem hlt]

/-! ## Least busy -/

structure LeastBusy (T : Type := ServerToken) (O : Type := String) (L : Type := Int)
    (U : Type := String) where
  servers : List (VLLMServer T O L U)
  tracker : MetricsTracker U
  /-- The servers of an `update_servers` that waits for the tasks of the tracker to end. -/
  updating : Option (List (VLLMServer T O L U))

variable {T O L U : Type} [DecidableEq U]

/-- `create`: the monitoring starts at once. -/
def LeastBusy.create (servers : List (VLLMServer T O L U)) (refresh_count_per_window : Nat) :
    LeastBusy T O L U where
  servers := servers
  tracker := (MetricsTracker.create (servers.map (·.url)) refresh_count_per_window).monitor
  updating := none

/-- `sorted(histogram.items())`. The buckets differ, so no counts are compared. -/
def sorted_buckets (histogram : Histogram) : List (Bound × ℚ) :=
  histogram.items.insertionSort fun a b => a.1 ≤ b.1

def get_percentile (histogram : Histogram) (percentile : ℚ) : Except Exn (Option (Nat × Bound)) :=
  match (sorted_buckets histogram).getLast? with
  | none => .ok none
  | some (_, total_requests) =>
    match (sorted_buckets histogram).zipIdx.find? fun e =>
        decide (percentile * total_requests ≤ e.1.2) with
    | some ((bucket, _), i) => .ok (some (i, bucket))
    | none => .error .PercentileComputationError

def business_score : Option (Nat × Bound) → PyFloat
  | some (_, bucket) => .ofBound bucket
  | none => .fin (-1)

def LeastBusy.get_server_score (self : LeastBusy T O L U) (url : U) : Except Exn PyFloat :=
  match self.tracker.time_to_first_token_diff_histograms.lookup url with
  | none => .error .KeyError
  | some tft_histogram =>
    match get_percentile tft_histogram (95 / 100) with
    | .error e => .error e
    | .ok tft_bucket_95 => .ok (business_score tft_bucket_95)

/-- One of the urls of least score, and that score. -/
def least_busy (scores : Dict U PyFloat) (random : Nat) : Except Exn (U × PyFloat) :=
  match minimum (scores.items.map (·.2)) with
  | none => .error .ValueError
  | some min_value =>
    match choice ((scores.items.filter fun e => e.2.eq min_value).map (·.1)) random with
    | .error e => .error e
    | .ok url => .ok (url, min_value)

/-- One turn of the loop over the tracker's urls. A server that never had a request goes
first. -/
def LeastBusy.scoreUrl (self : LeastBusy T O L U) (acc : Dict U PyFloat × Option U)
    (url : U) : Except Exn (Dict U PyFloat × Option U) :=
  match self.get_server_score url with
  | .error e => .error e
  | .ok score => .ok (acc.1.insert url score, if score.eq (.fin (-1)) then some url else acc.2)

/-- `not url_least_busy`: None and the empty string. -/
def isFalsy [UrlField U] (url : Option U) : Bool := url.all UrlField.empty

/-- The url to route to and its score, from the scores of all urls. -/
def leastBusyUrl [UrlField U] (random : Nat) : Dict U PyFloat × Option U →
    Except Exn (Option U × Option PyFloat)
  | (scores, url_least_busy) =>
    if scores.items ≠ [] ∧ isFalsy url_least_busy then
      match least_busy scores random with
      | .error e => .error e
      | .ok (url, min_value) => .ok (some url, some min_value)
    else .ok (url_least_busy, none)

def LeastBusy.choose_server [UrlField U] (self : LeastBusy T O L U) (random : Nat) :
    Except Exn (VLLMServer T O L U × Option PyFloat) := do
  let acc ← self.tracker.urls.foldlM self.scoreUrl (∅, none)
  let (url_least_busy, current_time_to_first_token) ← leastBusyUrl random acc
  match self.servers.find? fun server => some server.url = url_least_busy with
  | some server => .ok (server, current_time_to_first_token)
  | none => .error .ServerNotFound

/-- `update_servers` up to the wait for the tasks of `stop_monitor`. -/
def LeastBusy.update_servers [DecidableEq T] [DecidableEq O] [DecidableEq L]
    (self : LeastBusy T O L U) (servers : List (VLLMServer T O L U)) : LeastBusy T O L U :=
  if servers ≠ self.servers then
    { self with tracker := self.tracker.stop_monitor, updating := some servers }
  else self

/-- `update_servers` after that wait. -/
def LeastBusy.updated (self : LeastBusy T O L U) (servers : List (VLLMServer T O L U)) :
    LeastBusy T O L U where
  servers := servers
  tracker := (self.tracker.update_urls (servers.map (·.url))).monitor
  updating := none

/-! ## Round robin -/

structure RoundRobin (T : Type := ServerToken) (O : Type := String) (L : Type := Int)
    (U : Type := String) where
  servers : List (VLLMServer T O L U)
  round_robin_idx : Nat
  deriving DecidableEq, Repr

def RoundRobin.create (servers : List (VLLMServer T O L U)) : RoundRobin T O L U := ⟨servers, 0⟩

def RoundRobin.update_servers (_ : RoundRobin T O L U) (servers : List (VLLMServer T O L U)) :
    RoundRobin T O L U :=
  ⟨servers, 0⟩

def RoundRobin.choose_server (self : RoundRobin T O L U) :
    Except Exn (VLLMServer T O L U) × RoundRobin T O L U :=
  if self.servers = [] then (.error .ServerNotFound, self)
  else
    match self.servers[self.round_robin_idx]? with
    | none => (.error .IndexError, self)
    | some choice =>
      (.ok choice, { self with
        round_robin_idx := (self.round_robin_idx + 1) % self.servers.length })

/-! ## A strategy and what changes it -/

inductive Strategy (T : Type := ServerToken) (O : Type := String) (L : Type := Int)
    (U : Type := String)
  | round_robin (self : RoundRobin T O L U)
  | least_busy (self : LeastBusy T O L U)

/-- The strategy that the main program builds. -/
def Strategy.create (cfg : Settings T O L U) : Strategy T O L U :=
  match cfg.ROUTING_STRATEGY with
  | .least_busy => .least_busy (LeastBusy.create cfg.VLLM_SERVERS cfg.REFRESH_COUNT_PER_WINDOW)
  | .round_robin => .round_robin (RoundRobin.create cfg.VLLM_SERVERS)

def Strategy.choose_server [UrlField U] (self : Strategy T O L U) (random : Nat) :
    Except Exn (VLLMServer T O L U × Option PyFloat) × Strategy T O L U :=
  match self with
  | .round_robin s =>
    (match s.choose_server.1 with
      | .ok server => .ok (server, none)
      | .error e => .error e,
      .round_robin s.choose_server.2)
  | .least_busy s => (s.choose_server random, self)

/-- The strategies that read no metrics give no score. -/
def Strategy.get_server_score (self : Strategy T O L U) (url : U) :
    Except Exn (Option PyFloat) :=
  match self with
  | .round_robin _ => .ok none
  | .least_busy s =>
    match s.get_server_score url with
    | .ok score => .ok (some score)
    | .error e => .error e

/-- What goes on beside the callbacks: a step of a monitoring task, a round of pings with
the result of each, and the end of the tasks that `update_servers` waits for. -/
inductive StrategyEvent (U : Type := String)
  | task (e : TaskEvent U)
  | ping (results : List Bool)
  | tasks_ended
  deriving DecidableEq, Repr

/-- The servers whose ping succeeded. -/
def healthy_servers (servers_to_monitor : List (VLLMServer T O L U)) (results : List Bool) :
    List (VLLMServer T O L U) :=
  ((servers_to_monitor.zip results).filter (·.2)).map (·.1)

def LeastBusy.step [DecidableEq T] [DecidableEq O] [DecidableEq L]
    (configured : List (VLLMServer T O L U)) (self : LeastBusy T O L U) :
    StrategyEvent U → Option (LeastBusy T O L U)
  | .task e => (self.tracker.taskStep e).map fun tracker => { self with tracker := tracker }
  | .ping results =>
    -- the pinger awaits each update before its next round
    if self.updating = none ∧ results.length = configured.length then
      some (self.update_servers (healthy_servers configured results))
    else none
  | .tasks_ended =>
    match self.updating with
    | some servers => if self.tracker.monitor_tasks = [] then some (self.updated servers) else none
    | none => none

def RoundRobin.step (configured : List (VLLMServer T O L U)) (self : RoundRobin T O L U) :
    StrategyEvent U → Option (RoundRobin T O L U)
  | .ping results =>
    if results.length = configured.length then
      some (self.update_servers (healthy_servers configured results))
    else none
  | _ => none

def Strategy.step [DecidableEq T] [DecidableEq O] [DecidableEq L]
    (configured : List (VLLMServer T O L U)) (self : Strategy T O L U) (e : StrategyEvent U) :
    Option (Strategy T O L U) :=
  match self with
  | .round_robin s => (s.step configured e).map .round_robin
  | .least_busy s => (s.step configured e).map .least_busy

omit [DecidableEq U] in
theorem mem_of_mem_healthy {servers : List (VLLMServer T O L U)} {results : List Bool}
    {s : VLLMServer T O L U} (h : s ∈ healthy_servers servers results) : s ∈ servers := by
  unfold healthy_servers at h
  obtain ⟨e, he, rfl⟩ := List.mem_map.mp h
  exact (List.of_mem_zip (List.mem_filter.mp he).1).1

/-! ## The percentile -/

theorem mem_sorted_buckets {h : Histogram} {b : Bound} {c : ℚ} :
    (b, c) ∈ sorted_buckets h ↔ h.lookup b = some c := by
  unfold sorted_buckets
  rw [List.mem_insertionSort, Dict.mem_items_iff_lookup]

/-- The count of the last bucket. -/
def totalOf (h : Histogram) : Option ℚ := (sorted_buckets h).getLast?.map (·.2)

/-- No bucket of the histogram reaches 95 % of its last count. -/
def Unreached (h : Histogram) : Prop :=
  ∃ total, totalOf h = some total ∧ ∀ b c, h.lookup b = some c → c < 95 / 100 * total

/-- The percentile is found in a bucket, or the histogram is empty, or no bucket reaches it. -/
theorem get_percentile_cases (h : Histogram) :
    (totalOf h = none ∧ get_percentile h (95 / 100) = .ok none) ∨
    (¬Unreached h ∧ ∃ i b, b ∈ h ∧ get_percentile h (95 / 100) = .ok (some (i, b))) ∨
    (Unreached h ∧ get_percentile h (95 / 100) = .error .PercentileComputationError) := by
  unfold get_percentile
  cases hl : (sorted_buckets h).getLast? with
  | none => exact .inl ⟨by simp [totalOf, hl], rfl⟩
  | some e =>
    obtain ⟨b, total⟩ := e
    have ht : totalOf h = some total := by simp [totalOf, hl]
    refine .inr ?_
    cases hf : (sorted_buckets h).zipIdx.find? fun e => decide (95 / 100 * total ≤ e.1.2) with
    | none =>
      refine .inr ⟨⟨total, ht, ?_⟩, by simp only [hf]⟩
      intro b' c hc
      obtain ⟨i, hi, he⟩ := List.mem_iff_getElem.mp (mem_sorted_buckets.mpr hc)
      have hmem : ((b', c), i) ∈ (sorted_buckets h).zipIdx := by
        rw [List.mem_zipIdx_iff_getElem?, List.getElem?_eq_getElem hi, he]
      have hn := List.find?_eq_none.mp hf _ hmem
      simpa using hn
    | some e =>
      obtain ⟨⟨b', c⟩, i⟩ := e
      refine .inl ⟨?_, i, b', ?_, by simp only [hf]⟩
      · rintro ⟨total', ht', hall⟩
        rw [ht] at ht'
        cases ht'
        have hle := List.find?_some hf
        have hmem := List.mem_of_find?_eq_some hf
        rw [List.mem_zipIdx_iff_getElem?] at hmem
        have hlt := hall b' c (mem_sorted_buckets.mp (List.mem_of_getElem? hmem))
        simp only [decide_eq_true_eq] at hle
        exact absurd hle (not_le.mpr hlt)
      · have hmem := List.mem_of_find?_eq_some hf
        rw [List.mem_zipIdx_iff_getElem?] at hmem
        exact Dict.mem_of_lookup (mem_sorted_buckets.mp (List.mem_of_getElem? hmem))

end aristote_dispatcher.strategy
