-- What a round of pings makes of a consumer (consumer/server_pinger.py): from every state in which
-- it serves, the pinger comes to its next round, and behind it the servers are just those that
-- answered. So servers that were given up come back.
import AristoteDispatcher.Shutdown

open runs
open aristote_dispatcher.settings aristote_dispatcher.metrics_tracker
open aristote_dispatcher.strategy
open aristote_dispatcher.rpc_server (servers)

namespace aristote_dispatcher.main_consumer

variable {cfg : Settings} {c c' : Consumer} {e : Event} {s s' : Strategy} {l : List VLLMServer}

/-- The pinger goes on without a ping, and tasks of the tracker that were told to end do. -/
def Settles (_ : Consumer) : Event → Prop
  | .pinger .start | .pinger .updated | .pinger .wake | .tracker (.cancelled _) => True
  | _ => False

/-! ## An update that waits -/

/-- While an update waits, the tracker does not monitor. -/
def Waiting (s : Strategy) : Prop := (updating s).isSome = true → monitoring s = false

theorem waiting_of_none (h : updating s = none) : Waiting s := by
  intro hsome
  rw [h] at hsome
  cases hsome

theorem waiting_select {e : SelectionEvent} (h : Waiting s) (hs : s.select cfg e = some s') :
    Waiting s' := by
  cases e with
  | task e =>
    intro hsome
    rw [(servers_of_task hs).1] at hsome
    exact (monitoring_of_task hs).trans (h hsome)
  | ping results =>
    cases s with
    | round_robin self =>
      obtain ⟨self', _, rfl⟩ := select_round_robin hs
      exact waiting_of_none rfl
    | least_busy self =>
      obtain ⟨self', hself, rfl⟩ := select_least_busy hs
      obtain ⟨⟨hnone, _⟩, heq⟩ := Option.ite_none_right_eq_some.mp hself
      cases heq
      unfold LeastBusy.round
      split
      · exact waiting_of_none rfl
      · unfold LeastBusy.update_servers
        split
        · exact fun _ => monitoring_stop_monitor _
        · exact waiting_of_none hnone
  | tasks_ended => exact waiting_of_none (servers_of_tasks_ended hs).2
  | pinger_cancelled => exact waiting_of_none (servers_of_cancelled hs).1
  | stop_monitor =>
    cases s with
    | round_robin self =>
      obtain ⟨self', hself, _⟩ := select_round_robin hs
      cases hself
    | least_busy self =>
      obtain ⟨self', hself, rfl⟩ := select_least_busy hs
      cases hself
      exact fun _ => monitoring_stop_monitor _
  | choose_server random =>
    intro hsome
    rw [(servers_of_choose_server hs).1] at hsome
    exact (monitoring_of_choose_server hs).trans (h hsome)

theorem exists_tasks_ended (cfg : Settings) (h : updating s = some l) :
    ∃ s', s.select cfg .tasks_ended = some s' ∧ servers s' = l := by
  cases s with
  | round_robin self => cases h
  | least_busy self =>
    have hself : self.updating = some l := h
    refine ⟨.least_busy (self.updated l), ?_, rfl⟩
    simp [Strategy.select, LeastBusy.select, hself]

theorem exists_ping (cfg : Settings) (h : updating s = none) {results : List Bool}
    (hlen : results.length = cfg.VLLM_SERVERS.length) :
    ∃ s', s.select cfg (.ping results) = some s' := by
  cases s with
  | round_robin self => exact ⟨_, congrArg (Option.map _) (if_pos hlen)⟩
  | least_busy self => exact ⟨_, congrArg (Option.map _) (if_pos ⟨h, hlen⟩)⟩

/-! ## A consumer that serves -/

/-- A reachable consumer between the subscriptions and the stop of its pinger. -/
structure Alive (cfg : Settings) (c : Consumer) : Prop where
  sound : Sound cfg c
  waiting : Waiting c.strategy
  serves : c.main = .shutdown_signal ∨ c.main = .close

theorem Alive.pinger (h : Alive cfg c) :
    c.pinger.monitoring = true ∧ c.pinger.task ≠ none ∧ c.pinger.cancelled = false := by
  have hexpects := h.sound.expects
  rcases h.serves with hmain | hmain
  · rw [hmain] at hexpects
    exact hexpects
  · rw [hmain] at hexpects
    exact hexpects

theorem waiting_step (h : Waiting c.strategy) (hs : c.step cfg e = some c') :
    Waiting c'.strategy := by
  rcases select_of_step hs with heq | ⟨e', hselect⟩
  · rw [heq]
    exact h
  · exact waiting_select h hselect

theorem waiting_run {es : List Event} (h : Run (Consumer.step cfg) Any (.create cfg) es c) :
    Waiting c.strategy := by
  have hcreate : Waiting (Consumer.create cfg).strategy := by
    refine waiting_of_none ?_
    simp only [Consumer.create, Strategy.create]
    cases cfg.ROUTING_STRATEGY <;> rfl
  exact h.invariant (I := fun c => Waiting c.strategy) hcreate
    fun _ _ _ hi _ hs => waiting_step hi hs

theorem alive_step (h : Alive cfg c) (hs : c.step cfg e = some c') (hmain : c'.main = c.main) :
    Alive cfg c' :=
  ⟨sound_step h.sound hs, waiting_step h.waiting hs, hmain ▸ h.serves⟩

/-- An update that waits comes to its end: the tasks that it stopped end, and it goes on. -/
theorem exists_updated (h : Alive cfg c) (hl : updating c.strategy = some l) :
    ∃ es c', Run (Consumer.step cfg) Settles c es c' ∧ Alive cfg c' ∧ c'.main = c.main ∧
      c'.pinger.task = some .sleeping ∧ servers c'.strategy = l := by
  have hadvance : ∀ d, Alive cfg d ∧ d.main = c.main ∧ updating d.strategy = some l →
      (monitor_tasks d.strategy).length ≠ 0 →
      ∃ e d', Settles d e ∧ d.step cfg e = some d' ∧
        (Alive cfg d' ∧ d'.main = c.main ∧ updating d'.strategy = some l) ∧
        (monitor_tasks d'.strategy).length < (monitor_tasks d.strategy).length := by
    rintro d ⟨hd, hmain, hu⟩ hwork
    obtain ⟨t, ht⟩ := List.exists_mem_of_length_pos (Nat.pos_of_ne_zero hwork)
    have hstopped : monitoring d.strategy = false := hd.waiting (by rw [hu]; rfl)
    obtain ⟨s', hselect, hlen⟩ := exists_cancelled cfg hd.sound.inOrder hstopped ht
    have hstep : d.step cfg (.tracker (.cancelled t)) = some { d with strategy := s' } := by
      simp [Consumer.step, hselect]
    refine ⟨.tracker (.cancelled t), { d with strategy := s' }, trivial, hstep,
      ⟨alive_step hd hstep rfl, hmain, (servers_of_task hselect).1.trans hu⟩, ?_⟩
    dsimp only
    omega
  obtain ⟨es, d, hrun, ⟨hd, hmain, hu⟩, hzero, _⟩ :=
    exists_run_to_rest (fun d : Consumer => (monitor_tasks d.strategy).length) hadvance ⟨h, rfl, hl⟩
  have htask : d.pinger.task = some .updating := hd.sound.matched.waits.mp (by rw [hu]; rfl)
  have htasks : monitor_tasks d.strategy = [] := List.length_eq_zero_iff.mp hzero
  obtain ⟨s', hselect, hservers⟩ := exists_tasks_ended cfg hu
  have hstep : d.step cfg (.pinger .updated) = some { d with
      strategy := s', pinger := { d.pinger with task := some .sleeping } } := by
    simp [Consumer.step, Consumer.pingerStep, Consumer.goOn, htask, hd.pinger.2.2, htasks, hselect]
  have hok : Settles d (.pinger .updated) := trivial
  exact ⟨es ++ [.pinger .updated], _, hrun.append (.single hok hstep), alive_step hd hstep rfl,
    hmain, rfl, hservers⟩

/-! ## The next round -/

theorem exists_loop_head (h : Alive cfg c)
    (htask : c.pinger.task = some .starting ∨ c.pinger.task = some .sleeping) :
    ∃ es c', Run (Consumer.step cfg) Settles c es c' ∧ Alive cfg c' ∧ c'.main = c.main ∧
      c'.pinger.task = some .pinging := by
  obtain ⟨hm, _, hc⟩ := h.pinger
  have hhead : c.pinger.loop_head.task = some .pinging := if_pos hm
  rcases htask with htask | htask
  · have hstep : c.step cfg (.pinger .start) = some { c with pinger := c.pinger.loop_head } := by
      simp [Consumer.step, Consumer.pingerStep, Consumer.goOn, htask, hc]
    have hok : Settles c (.pinger .start) := trivial
    exact ⟨[.pinger .start], _, .single hok hstep, alive_step h hstep rfl, rfl, hhead⟩
  · have hstep : c.step cfg (.pinger .wake) = some { c with pinger := c.pinger.loop_head } := by
      simp [Consumer.step, Consumer.pingerStep, Consumer.goOn, htask, hc]
    have hok : Settles c (.pinger .wake) := trivial
    exact ⟨[.pinger .wake], _, .single hok hstep, alive_step h hstep rfl, rfl, hhead⟩

/-- Wherever the pinger stands, it comes to its next round. -/
theorem exists_pinging (h : Alive cfg c) :
    ∃ es c', Run (Consumer.step cfg) Settles c es c' ∧ Alive cfg c' ∧ c'.main = c.main ∧
      c'.pinger.task = some .pinging := by
  cases htask : c.pinger.task with
  | none => exact absurd htask h.pinger.2.1
  | some task =>
    cases task with
    | starting => exact exists_loop_head h (.inl htask)
    | sleeping => exact exists_loop_head h (.inr htask)
    | pinging => exact ⟨[], c, .nil, h, rfl, htask⟩
    | updating =>
      obtain ⟨l, hl⟩ := Option.isSome_iff_exists.mp (h.sound.matched.waits.mpr htask)
      obtain ⟨es, d, hrun, hd, hmain, hsleeping, _⟩ := exists_updated h hl
      obtain ⟨es', c', hrun', hc', hmain', hpinging⟩ := exists_loop_head hd (.inr hsleeping)
      exact ⟨es ++ es', c', hrun.append hrun', hc', hmain'.trans hmain, hpinging⟩

/-- A round comes to its end with the servers that answered it. -/
theorem exists_round (h : Alive cfg c) (htask : c.pinger.task = some .pinging)
    {results : List Bool} (hlen : results.length = cfg.VLLM_SERVERS.length) :
    ∃ c₁ es c', c.step cfg (.pinger (.pinged results)) = some c₁ ∧
      Run (Consumer.step cfg) Settles c₁ es c' ∧ Alive cfg c' ∧ c'.main = c.main ∧
      c'.pinger.task = some .sleeping ∧
      servers c'.strategy = healthy_servers cfg.VLLM_SERVERS results := by
  have hnone : updating c.strategy = none := h.sound.matched.updating_eq_none (by simp [htask])
  obtain ⟨s', hselect⟩ := exists_ping cfg hnone hlen
  obtain ⟨c₁, hstep, hmain, hstrategy, hsleeps⟩ : ∃ c₁,
      c.step cfg (.pinger (.pinged results)) = some c₁ ∧ c₁.main = c.main ∧ c₁.strategy = s' ∧
        (updating s' = none → c₁.pinger.task = some .sleeping) := by
    refine ⟨{ c with
      strategy := s'
      pinger :=
        { c.pinger with task := some (if (updating s').isSome then .updating else .sleeping) }
      healthy := some (healthy_servers cfg.VLLM_SERVERS results) }, ?_, rfl, rfl, fun hu => ?_⟩
    · simp only [Consumer.step, Consumer.pingerStep, Consumer.goOn, hselect, Option.map_some]
      exact if_pos ⟨htask, h.pinger.2.2⟩
    · simp [hu]
  have halive := alive_step h hstep hmain
  rcases servers_of_ping hselect with hu | ⟨hu, hservers⟩
  · obtain ⟨es, c', hrun, hc', hmain', hsleeping, hservers⟩ :=
      exists_updated halive (hstrategy ▸ hu)
    exact ⟨c₁, es, c', hstep, hrun, hc', hmain'.trans hmain, hsleeping, hservers⟩
  · exact ⟨c₁, [], c₁, hstep, .nil, halive, hmain, hsleeps hu, hstrategy ▸ hservers⟩

theorem healthy_of_all (configured : List VLLMServer) :
    healthy_servers configured (configured.map fun _ => true) = configured := by
  induction configured with
  | nil => rfl
  | cons server configured ih => exact congrArg (List.cons server) ih

/-- From every reachable state in which the consumer serves, its pinger comes by its own steps to
the next round of pings; and whatever is answered, it comes by its own steps behind the round, with
just the servers that answered. With an answer of each of them, all configured servers are
back. -/
theorem a_round_installs_what_answers {es : List Event}
    (h : Run (Consumer.step cfg) Any (.create cfg) es c)
    (hserves : c.main = .shutdown_signal ∨ c.main = .close) :
    ∃ before c₁, Run (Consumer.step cfg) Settles c before c₁ ∧
      ∀ results : List Bool, results.length = cfg.VLLM_SERVERS.length →
        ∃ c₂ after c', c₁.step cfg (.pinger (.pinged results)) = some c₂ ∧
          Run (Consumer.step cfg) Settles c₂ after c' ∧ c'.main = c.main ∧
          c'.pinger.task = some .sleeping ∧
          servers c'.strategy = healthy_servers cfg.VLLM_SERVERS results ∧
          (results = cfg.VLLM_SERVERS.map (fun _ => true) →
            servers c'.strategy = cfg.VLLM_SERVERS) := by
  have halive : Alive cfg c := ⟨sound_run h, waiting_run h, hserves⟩
  obtain ⟨before, c₁, hrun, halive₁, hmain₁, hpinging⟩ := exists_pinging halive
  refine ⟨before, c₁, hrun, fun results hlen => ?_⟩
  obtain ⟨c₂, after, c', hstep, hrun', _, hmain', hsleeping, hservers⟩ :=
    exists_round halive₁ hpinging hlen
  refine ⟨c₂, after, c', hstep, hrun', hmain'.trans hmain₁, hsleeping, hservers, ?_⟩
  rintro rfl
  exact hservers.trans (healthy_of_all cfg.VLLM_SERVERS)

/-- The one server fails a round, and answers the next one. -/
theorem a_lost_server_comes_back : ∃ c before c₁ c₂ after c',
    Run (Consumer.step leastBusySettings) Any (.create leastBusySettings) noneAnswers c ∧
    servers c.strategy = [] ∧
    Run (Consumer.step leastBusySettings) Settles c before c₁ ∧
    c₁.step leastBusySettings (.pinger (.pinged [true])) = some c₂ ∧
    Run (Consumer.step leastBusySettings) Settles c₂ after c' ∧
    servers c'.strategy = leastBusySettings.VLLM_SERVERS := by
  have hexec : ((exec (Consumer.step leastBusySettings) (.create leastBusySettings)
      noneAnswers).map fun c => (c.main, servers c.strategy)) = some (.shutdown_signal, []) := by
    decide +kernel
  obtain ⟨c, hc, hpair⟩ := Option.map_eq_some_iff.mp hexec
  obtain ⟨hmain, hservers⟩ := Prod.mk.inj hpair
  have hrun := run_of_exec hc
  obtain ⟨before, c₁, hbefore, hround⟩ := a_round_installs_what_answers hrun (.inl hmain)
  obtain ⟨c₂, after, c', hstep, hafter, _, _, _, hall⟩ := hround [true] rfl
  exact ⟨c, before, c₁, c₂, after, c', hrun, hservers, hbefore, hstep, hafter, hall rfl⟩

end aristote_dispatcher.main_consumer
