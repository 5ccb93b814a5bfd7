-- The end of a consumer (consumer/main.py: what `main_consumer` does behind its signal). The
-- work that is left is counted, and while there is some a step takes from it.
import AristoteDispatcher.Lifecycle

open runs
open aristote_dispatcher.settings aristote_dispatcher.metrics_tracker
open aristote_dispatcher.strategy
open aristote_dispatcher.rpc_server (servers)

namespace aristote_dispatcher.main_consumer

variable {cfg : Settings} {c c' : Consumer} {e : Event} {s : Strategy}

/-! ## The shutdown -/

/-- What is left to do when the signal has come. -/
def Consumer.work (c : Consumer) : Nat :=
  match c.main with
  | .shutdown_signal => (monitor_tasks c.strategy).length + 5
  | .close => (monitor_tasks c.strategy).length + 4
  | .stop_pinger =>
    (monitor_tasks c.strategy).length + if c.pinger.task = none then 2 else 3
  | .stop_tracker => (monitor_tasks c.strategy).length + 1
  | _ => 0

/-- `main_consumer` serves, or shuts down. -/
def Serving : Main → Prop
  | .wait_for_vllms | .first_connect | .raised => False
  | _ => True

theorem length_stop_monitor (tr : MetricsTracker) :
    tr.stop_monitor.monitor_tasks.length = tr.monitor_tasks.length := by
  unfold MetricsTracker.stop_monitor
  split
  · exact List.length_map ..
  · rfl

theorem work_stop_tracker (c : Consumer) :
    Serving c.stop_tracker.main ∧ c.stop_tracker.shutdown_signal = c.shutdown_signal ∧
      c.stop_tracker.work ≤ (monitor_tasks c.strategy).length + 1 := by
  unfold Consumer.stop_tracker
  split
  · exact ⟨trivial, rfl, Nat.zero_le _⟩
  · rename_i self hself
    dsimp only
    split
    · refine ⟨trivial, rfl, ?_⟩
      simp [Consumer.work, monitor_tasks, hself, length_stop_monitor]
    · exact ⟨trivial, rfl, Nat.zero_le _⟩

theorem work_stop_pinger (hm : c.pinger.monitoring = true) :
    Serving c.stop_pinger.main ∧ c.stop_pinger.shutdown_signal = c.shutdown_signal ∧
      c.stop_pinger.work ≤ (monitor_tasks c.strategy).length + 3 := by
  rw [Consumer.stop_pinger, if_pos hm]
  refine ⟨trivial, rfl, ?_⟩
  simp only [Consumer.work]
  split <;> omega

/-- A tracker that does not monitor can end each of its tasks. -/
theorem exists_cancelled (cfg : Settings) (h : InOrder s) (hm : monitoring s = false)
    {t : MonitorTask} (ht : t ∈ monitor_tasks s) :
    ∃ s', s.select cfg (.task (.cancelled t)) = some s' ∧
      (monitor_tasks s').length + 1 = (monitor_tasks s).length := by
  cases s with
  | round_robin self => cases ht
  | least_busy self =>
    have hcancelled : t.cancelled = true := h.1.stopped hm t ht
    refine ⟨.least_busy { self with tracker := self.tracker.become t [] }, ?_, ?_⟩
    · simp only [Strategy.select, LeastBusy.select, MetricsTracker.taskStep]
      rw [if_pos ⟨ht, hcancelled⟩]
      rfl
    · have ht : t ∈ self.tracker.monitor_tasks := ht
      have hpos : 0 < self.tracker.monitor_tasks.length := List.length_pos_of_mem ht
      simp only [monitor_tasks, MetricsTracker.become, List.nil_append]
      rw [List.length_erase_of_mem ht]
      omega

theorem exists_pinger_cancelled (cfg : Settings) (s : Strategy) :
    ∃ s', s.select cfg .pinger_cancelled = some s' ∧ monitor_tasks s' = monitor_tasks s := by
  cases s with
  | round_robin self => exact ⟨.round_robin self, rfl, rfl⟩
  | least_busy self => exact ⟨.least_busy { self with updating := none }, rfl, rfl⟩

/-- While the shutdown is not over, some step brings it on. -/
theorem shutdown_advances (h : Sound cfg c) (hserving : Serving c.main)
    (hsignal : c.shutdown_signal = true) (hwork : c.work ≠ 0) :
    ∃ e c', c.step cfg e = some c' ∧ Serving c'.main ∧ c'.shutdown_signal = true ∧
      c'.work < c.work := by
  have hexpects := h.expects
  cases hmain : c.main with
  | shutdown_signal =>
    rw [hmain] at hexpects
    have hw : c.work = (monitor_tasks c.strategy).length + 5 := by rw [Consumer.work, hmain]
    cases hc : c.connection with
    | true =>
      refine ⟨.signalled, { c with main := .close }, ?_, trivial, hsignal, ?_⟩
      · simp [Consumer.step, hmain, hsignal, hc]
      · rw [hw]
        exact Nat.lt_succ_self _
    | false =>
      obtain ⟨hs, hsig, hle⟩ := work_stop_pinger hexpects.1
      refine ⟨.signalled, c.stop_pinger, ?_, hs, hsig.trans hsignal, by omega⟩
      simp [Consumer.step, hmain, hsignal, hc]
  | close =>
    rw [hmain] at hexpects
    have hw : c.work = (monitor_tasks c.strategy).length + 4 := by rw [Consumer.work, hmain]
    have hm : ({ c with connection := c.connection && !true } : Consumer).pinger.monitoring =
        true := hexpects.1
    obtain ⟨hs, hsig, hle⟩ := work_stop_pinger hm
    refine ⟨.closed true, Consumer.stop_pinger { c with connection := c.connection && !true },
      ?_, hs, hsig.trans hsignal, ?_⟩
    · simp [Consumer.step, hmain]
    · dsimp only at hle
      omega
  | stop_pinger =>
    rw [hmain] at hexpects
    cases htask : c.pinger.task with
    | none =>
      have hw : c.work = (monitor_tasks c.strategy).length + 2 := by
        simp only [Consumer.work, hmain, htask, if_true]
      obtain ⟨hs, hsig, hle⟩ := work_stop_tracker c
      refine ⟨.pinger_ended, c.stop_tracker, ?_, hs, hsig.trans hsignal, by omega⟩
      simp [Consumer.step, hmain, htask]
    | some task =>
      have hw : c.work = (monitor_tasks c.strategy).length + 3 := by
        simp [Consumer.work, hmain, htask]
      obtain ⟨s', hselect, htasks⟩ := exists_pinger_cancelled cfg c.strategy
      refine ⟨.pinger .cancelled,
        { c with strategy := s', pinger := { c.pinger with task := none } }, ?_, ?_, hsignal, ?_⟩
      · simp [Consumer.step, Consumer.pingerStep, htask, hexpects.2, hselect]
      · dsimp only
        rw [hmain]
        trivial
      · rw [hw]
        simp only [Consumer.work, hmain, htasks, if_true]
        omega
  | stop_tracker =>
    have hw : c.work = (monitor_tasks c.strategy).length + 1 := by rw [Consumer.work, hmain]
    cases htasks : monitor_tasks c.strategy with
    | nil =>
      refine ⟨.tracker_ended, { c with main := .returned }, ?_, trivial, hsignal, ?_⟩
      · simp [Consumer.step, hmain, htasks]
      · rw [hw]
        exact Nat.succ_pos _
    | cons t rest =>
      have ht : t ∈ monitor_tasks c.strategy := by rw [htasks]; exact List.mem_cons_self
      obtain ⟨s', hselect, hlen⟩ :=
        exists_cancelled cfg h.inOrder (h.stopped (.inl hmain)) ht
      refine ⟨.tracker (.cancelled t), { c with strategy := s' }, ?_, hserving, hsignal, ?_⟩
      · simp [Consumer.step, hselect]
      · simp only [Consumer.work, hmain]
        omega
  | returned => exact absurd (by rw [Consumer.work, hmain]) hwork
  | _ =>
    rw [hmain] at hserving
    exact hserving.elim

theorem work_le (c : Consumer) : c.work ≤ (monitor_tasks c.strategy).length + 5 := by
  unfold Consumer.work
  split
  · exact le_rfl
  · omega
  · split <;> omega
  · omega
  · exact Nat.zero_le _

/-- A shutdown with nothing left to do is over. -/
theorem returned_of_work (hserving : Serving c.main) (hwork : c.work = 0) :
    c.main = .returned := by
  cases hmain : c.main with
  | returned => rfl
  | shutdown_signal => simp [Consumer.work, hmain] at hwork
  | close => simp [Consumer.work, hmain] at hwork
  | stop_pinger =>
    simp only [Consumer.work, hmain] at hwork
    split at hwork <;> omega
  | stop_tracker => simp [Consumer.work, hmain] at hwork
  | _ =>
    rw [hmain] at hserving
    exact hserving.elim

/-- Behind its return the consumer stays as it is. -/
theorem returned_step (h : Sound cfg c) (hmain : c.main = .returned)
    (hs : c.step cfg e = some c') :
    c'.main = .returned ∧ servers c'.strategy = servers c.strategy := by
  have hexpects := h.expects
  rw [hmain] at hexpects
  have hother : ∀ {main : Main}, c.main = main → main ≠ .returned → False := fun heq hne =>
    hne (heq.symm.trans hmain)
  cases moves_of_step hs with
  | vllms hm => exact (hother hm (by simp)).elim
  | connected hm => exact (hother hm (by simp)).elim
  | refused hm => exact (hother hm (by simp)).elim
  | closes hm => exact (hother hm (by simp)).elim
  | signalled hm => exact (hother hm (by simp)).elim
  | closed hm => exact (hother hm (by simp)).elim
  | pinger_ended hm htask => exact (hother hm (by simp)).elim
  | tracker_ended hm => exact (hother hm (by simp)).elim
  | connection => exact ⟨hmain, rfl⟩
  | shutdown => exact ⟨hmain, rfl⟩
  | start htask hc => exact absurd (htask.symm.trans hexpects.2) (by simp)
  | pinged htask hc hselect => exact absurd (htask.symm.trans hexpects.2) (by simp)
  | updated htask hc hselect => exact absurd (htask.symm.trans hexpects.2) (by simp)
  | wake htask hc => exact absurd (htask.symm.trans hexpects.2) (by simp)
  | cancelled htask hc hselect => exact absurd hexpects.2 htask
  | tracker hselect => exact ⟨hmain, (servers_of_task hselect).2⟩
  | choose_server hselect => exact ⟨hmain, (servers_of_choose_server hselect).2⟩

/-- The signal can come in any state. Behind it the consumer can always end, and when it has
ended the pinger has too, the tracker's tasks have been told to, and no later step changes the
servers. -/
theorem a_shutdown_ends_and_stops_everything {es : List Event}
    (h : Run (Consumer.step cfg) Any (.create cfg) es c) :
    (Serving c.main → c.shutdown_signal = true →
      ∃ es' c', Run (Consumer.step cfg) Any c es' c' ∧ c'.main = .returned ∧
        es'.length ≤ (monitor_tasks c.strategy).length + 5) ∧
    (c.main = .returned → c.pinger.task = none ∧ monitoring c.strategy = false ∧
      (∀ t ∈ monitor_tasks c.strategy, t.cancelled = true) ∧
      ∀ es' c', Run (Consumer.step cfg) Any c es' c' →
        servers c'.strategy = servers c.strategy) := by
  have hsound := sound_run h
  refine ⟨fun hserving hsignal => ?_, fun hmain => ?_⟩
  · have hadvance : ∀ c, Sound cfg c ∧ Serving c.main ∧ c.shutdown_signal = true → c.work ≠ 0 →
        ∃ e c', Any c e ∧ c.step cfg e = some c' ∧
          (Sound cfg c' ∧ Serving c'.main ∧ c'.shutdown_signal = true) ∧ c'.work < c.work := by
      rintro c ⟨hc, hs, hsig⟩ hwork
      obtain ⟨e, c', hstep, hs', hsig', hlt⟩ := shutdown_advances hc hs hsig hwork
      exact ⟨e, c', trivial, hstep, ⟨sound_step hc hstep, hs', hsig'⟩, hlt⟩
    obtain ⟨es', c', hrun, ⟨_, hserving', _⟩, hzero, hlen⟩ :=
      exists_run_to_rest Consumer.work hadvance ⟨hsound, hserving, hsignal⟩
    exact ⟨es', c', hrun, returned_of_work hserving' hzero, hlen.trans (work_le c)⟩
  · have hexpects := hsound.expects
    rw [hmain] at hexpects
    have hstopped : monitoring c.strategy = false := hsound.stopped (.inr hmain)
    refine ⟨hexpects.2, hstopped, fun t ht => ?_, fun es' c' hrun => ?_⟩
    · have horder := hsound.inOrder
      cases hstrategy : c.strategy with
      | round_robin self =>
        rw [hstrategy] at ht
        cases ht
      | least_busy self =>
        rw [hstrategy] at ht horder hstopped
        exact horder.1.stopped hstopped t ht
    · have hkept : Sound cfg c' ∧ c'.main = .returned ∧
          servers c'.strategy = servers c.strategy := by
        refine hrun.invariant (I := fun c' => Sound cfg c' ∧ c'.main = .returned ∧
          servers c'.strategy = servers c.strategy) ⟨hsound, hmain, rfl⟩ ?_
        rintro d e d' ⟨hd, hm, hservers⟩ _ hstep
        obtain ⟨hm', hservers'⟩ := returned_step hd hm hstep
        exact ⟨sound_step hd hstep, hm', hservers'.trans hservers⟩
      exact hkept.2.2

/-- The signal comes while a round that nobody answered waits for the task of the tracker. -/
def closedInARound : List Event :=
  [.vllms true, .connected true, .pinger .start, .tracker (.start "http://a"),
    .pinger (.pinged [false]), .shutdown]

theorem a_shutdown_in_a_round_stops_everything : ∃ c,
    Run (Consumer.step leastBusySettings) Any (.create leastBusySettings) closedInARound c ∧
    c.pinger.task = some .updating ∧
    ∃ es' c', Run (Consumer.step leastBusySettings) Any c es' c' ∧ c'.main = .returned ∧
      c'.pinger.task = none ∧ monitoring c'.strategy = false := by
  have hexec : ((exec (Consumer.step leastBusySettings) (.create leastBusySettings)
      closedInARound).map fun c => (c.main, c.shutdown_signal, c.pinger.task)) =
      some (.shutdown_signal, true, some .updating) := by decide +kernel
  obtain ⟨c, hc, htriple⟩ := Option.map_eq_some_iff.mp hexec
  obtain ⟨hmain, hsignal, htask⟩ := Prod.mk.injEq .. ▸ Prod.mk.injEq .. ▸ htriple
  have hrun := run_of_exec hc
  obtain ⟨es', c', hrun', hreturned, _⟩ :=
    (a_shutdown_ends_and_stops_everything hrun).1 (by rw [hmain]; trivial) hsignal
  obtain ⟨htask', hstopped, _⟩ :=
    (a_shutdown_ends_and_stops_everything (hrun.append hrun')).2 hreturned
  exact ⟨c, hrun, htask, es', c', hrun', hreturned, htask', hstopped⟩

end aristote_dispatcher.main_consumer
