-- The start of the consumer (consumer/metrics.py). Each server has a task that pings it
-- until it answers or the attempts are over; `wait_for_vllms` goes on when the first tasks
-- have ended and decides by these alone.
import AristoteDispatcher.Lib.Places
import AristoteDispatcher.Lib.Runs

open runs places

namespace aristote_dispatcher.startup

/-- Where the task of a server stands: before its first step, at the await of a ping or at
that of a sleep, with the number of the attempt, or at an end. -/
inductive Task
  | created
  | ping_server (i : Nat)
  | sleep (i : Nat)
  | ready
  | VllmNotReadyException
  | cancelled
  deriving DecidableEq, Repr

/-- `task.done()`, for a task that was not cancelled. -/
def Task.done : Task → Bool
  | .ready | .VllmNotReadyException => true
  | _ => false

/-- `task.cancel()`. The pending ones stand at an await, or before their first step. -/
def Task.cancel (task : Task) : Task := if task.done then task else .cancelled

/-- `wait_for_vllms`: at its await, returned, or raised. -/
inductive Waiter
  | wait
  | returned
  | raised
  deriving DecidableEq, Repr

structure State where
  tasks : List Task
  waiter : Waiter
  deriving DecidableEq, Repr

/-- The tasks are created, and the first await is that of `asyncio.wait`. -/
def State.create (servers : Nat) : State := ⟨List.replicate servers .created, .wait⟩

/-- What happens: the first step of a task, the end of a ping, the end of a sleep, and
`wait_for_vllms` goes on. -/
inductive Event
  | start (k : Nat)
  | pinged (k : Nat)
  | woken (k : Nat)
  | resume
  deriving DecidableEq, Repr

section

variable (MAX_INITIAL_METRICS_RETRIES : Nat)

/-- The head of the loop of `wait_for_vllm`. -/
def loop (i : Nat) : Task :=
  if i < MAX_INITIAL_METRICS_RETRIES then .ping_server i else .VllmNotReadyException

/-- What follows `asyncio.wait`: a task among those that are done that did not raise. -/
def State.decide (s : State) : State :=
  if .ready ∈ s.tasks then ⟨s.tasks.map Task.cancel, .returned⟩ else { s with waiter := .raised }

/-- A task goes on. -/
def State.update (s : State) (k : Nat) (task : Task) : State :=
  { s with tasks := s.tasks.set k task }

/-- `pings k i` tells if the server answers the ping of its attempt. -/
def State.step (pings : Nat → Nat → Bool) (s : State) : Event → Option State
  | .start k =>
    match s.tasks[k]? with
    | some .created => some (s.update k (loop MAX_INITIAL_METRICS_RETRIES 0))
    | _ => none
  | .pinged k =>
    match s.tasks[k]? with
    | some (.ping_server i) => some (s.update k (if pings k i then .ready else .sleep i))
    | _ => none
  | .woken k =>
    match s.tasks[k]? with
    | some (.sleep i) => some (s.update k (loop MAX_INITIAL_METRICS_RETRIES (i + 1)))
    | _ => none
  | .resume =>
    if s.waiter = .wait ∧ ∃ task ∈ s.tasks, task.done then some s.decide else none

/-- The outcome of the task of a server: it answers one of its pings. -/
def GetsReady (pings : Nat → Nat → Bool) (k : Nat) : Prop :=
  ∃ i < MAX_INITIAL_METRICS_RETRIES, pings k i = true

end

variable {max servers : Nat} {pings : Nat → Nat → Bool} {s s' : State} {e : Event}

/-! ## What a step does -/

/-- One step of the task of a server. -/
inductive Advance (max : Nat) (pings : Nat → Nat → Bool) (k : Nat) : Event → Task → Task → Prop
  | start : Advance max pings k (.start k) .created (loop max 0)
  | answers {i : Nat} (h : pings k i = true) :
    Advance max pings k (.pinged k) (.ping_server i) .ready
  | raises {i : Nat} (h : pings k i = false) :
    Advance max pings k (.pinged k) (.ping_server i) (.sleep i)
  | woken {i : Nat} : Advance max pings k (.woken k) (.sleep i) (loop max (i + 1))

/-- A step is one of a task, or `wait_for_vllms` goes on. -/
theorem step_cases (h : s.step max pings e = some s') :
    (∃ k task task', Advance max pings k e task task' ∧ s.tasks[k]? = some task ∧
      s' = s.update k task') ∨
    (e = .resume ∧ s.waiter = .wait ∧ (∃ task ∈ s.tasks, task.done = true) ∧ s' = s.decide) := by
  cases e with
  | start k =>
    rw [State.step] at h
    split at h
    · rename_i htask
      exact .inl ⟨k, _, _, .start, htask, (Option.some.inj h).symm⟩
    · cases h
  | pinged k =>
    rw [State.step] at h
    split at h
    · rename_i i htask
      cases hping : pings k i with
      | true =>
        rw [hping, if_pos rfl] at h
        exact .inl ⟨k, _, _, .answers hping, htask, (Option.some.inj h).symm⟩
      | false =>
        rw [hping, if_neg (by simp)] at h
        exact .inl ⟨k, _, _, .raises hping, htask, (Option.some.inj h).symm⟩
    · cases h
  | woken k =>
    rw [State.step] at h
    split at h
    · rename_i i htask
      exact .inl ⟨k, _, _, .woken, htask, (Option.some.inj h).symm⟩
    · cases h
  | resume =>
    obtain ⟨⟨hwait, hdone⟩, hs⟩ := Option.ite_none_right_eq_some.mp h
    exact .inr ⟨rfl, hwait, hdone, (Option.some.inj hs).symm⟩

theorem Advance.ne_resume {k : Nat} {task task' : Task} (h : Advance max pings k e task task') :
    e ≠ .resume := by
  cases h <;> simp

/-! ## What is known of a task -/

/-- The pings that a task has behind it, and its outcome at its end. -/
def Told (max : Nat) (pings : Nat → Nat → Bool) (waiter : Waiter) (k : Nat) : Task → Prop
  | .created => True
  | .ping_server i => i < max ∧ ∀ j < i, pings k j = false
  | .sleep i => i < max ∧ ∀ j < i + 1, pings k j = false
  | .ready => GetsReady max pings k
  | .VllmNotReadyException => ¬ GetsReady max pings k
  | .cancelled => waiter = .returned

/-- The tasks are those of the servers, and each is where its pings brought it. -/
structure Sound (max servers : Nat) (pings : Nat → Nat → Bool) (s : State) : Prop where
  length : s.tasks.length = servers
  told : ∀ k task, s.tasks[k]? = some task → Told max pings s.waiter k task
  returned : s.waiter = .returned → .ready ∈ s.tasks

theorem sound_create : Sound max servers pings (.create servers) where
  length := List.length_replicate
  told k task h := by
    have hmem := List.mem_of_getElem? h
    rw [(List.mem_replicate.mp hmem).2]
    trivial
  returned h := by cases h

theorem told_loop {waiter : Waiter} {k i : Nat} (h : ∀ j < i, pings k j = false) :
    Told max pings waiter k (loop max i) := by
  unfold loop
  split
  · rename_i hlt
    exact ⟨hlt, h⟩
  · rename_i hge
    rintro ⟨j, hj, hping⟩
    rw [h j (by omega)] at hping
    cases hping

theorem Advance.told {waiter : Waiter} {k : Nat} {task task' : Task}
    (h : Advance max pings k e task task') (htold : Told max pings waiter k task) :
    Told max pings waiter k task' := by
  cases h with
  | start => exact told_loop fun j hj => absurd hj (Nat.not_lt_zero j)
  | @answers i hping => exact ⟨i, htold.1, hping⟩
  | @raises i hping =>
    refine ⟨htold.1, fun j hj => ?_⟩
    rcases Nat.lt_succ_iff_lt_or_eq.mp hj with hlt | rfl
    · exact htold.2 j hlt
    · exact hping
  | woken => exact told_loop htold.2

/-- A task that goes on is at no end. -/
theorem Advance.not_done {k : Nat} {task task' : Task} (h : Advance max pings k e task task') :
    task ≠ .ready := by
  cases h <;> simp

theorem sound_decide (h : Sound max servers pings s) (hwait : s.waiter = .wait) :
    Sound max servers pings s.decide := by
  -- no task is cancelled before
  have hkeep : ∀ waiter k task, s.tasks[k]? = some task → Told max pings waiter k task := by
    intro waiter k task htask
    have htold := h.told k task htask
    cases task with
    | cancelled =>
      rw [Told, hwait] at htold
      cases htold
    | _ => exact htold
  unfold State.decide
  split
  · rename_i hready
    refine ⟨by simp [h.length], ?_, fun _ => List.mem_map.mpr ⟨.ready, hready, rfl⟩⟩
    intro k task htask
    rw [List.getElem?_map] at htask
    obtain ⟨old, hold, rfl⟩ := Option.map_eq_some_iff.mp htask
    unfold Task.cancel
    split
    · exact hkeep _ k old hold
    · rfl
  · exact ⟨h.length, fun k task htask => hkeep _ k task htask, fun hr => by cases hr⟩

theorem sound_step (h : Sound max servers pings s) (hs : s.step max pings e = some s') :
    Sound max servers pings s' := by
  rcases step_cases hs with ⟨k, task, task', hadvance, htask, rfl⟩ | ⟨_, hwait, _, rfl⟩
  · refine ⟨by simp [State.update, h.length], ?_, ?_⟩
    · intro j other hj
      rcases getElem?_set_cases hj with ⟨rfl, rfl⟩ | ⟨_, hold⟩
      · exact hadvance.told (h.told k task htask)
      · exact h.told j other hold
    · intro hreturned
      exact mem_set_of_ne htask (h.returned hreturned) hadvance.not_done.symm
  · exact sound_decide h hwait

/-! ## The end of a start -/

/-- A task that is at no end has a step. -/
theorem exists_advance {k : Nat} {task : Task} (htask : s.tasks[k]? = some task)
    (hdone : task.done = false) (hcancelled : task ≠ .cancelled) :
    ∃ e s', s.step max pings e = some s' := by
  cases task with
  | created => exact ⟨.start k, _, by rw [State.step, htask]⟩
  | ping_server i => exact ⟨.pinged k, _, by rw [State.step, htask]⟩
  | sleep i => exact ⟨.woken k, _, by rw [State.step, htask]⟩
  | ready => cases hdone
  | VllmNotReadyException => cases hdone
  | cancelled => exact absurd rfl hcancelled

/-- While `wait_for_vllms` waits, something can happen. -/
theorem progress (h : Sound max servers pings s) (hne : 0 < servers) (hwait : s.waiter = .wait) :
    ∃ e s', s.step max pings e = some s' := by
  have hlt : 0 < s.tasks.length := by rw [h.length]; exact hne
  have htask := List.getElem?_eq_getElem hlt
  by_cases hdone : s.tasks[0].done = true
  · refine ⟨.resume, s.decide, ?_⟩
    rw [State.step]
    exact if_pos ⟨hwait, _, List.getElem_mem hlt, hdone⟩
  · refine exists_advance htask (by simpa using hdone) ?_
    intro hcancelled
    have htold := h.told 0 _ htask
    rw [hcancelled, Told, hwait] at htold
    cases htold

/-- The number of steps that are left to a task. -/
def Task.left (max : Nat) : Task → Nat
  | .created => 2 * max + 1
  | .ping_server i => 2 * (max - i)
  | .sleep i => 2 * (max - i) - 1
  | _ => 0

def State.left (max : Nat) (s : State) : Nat :=
  (s.tasks.map (Task.left max)).sum + if s.waiter = .wait then 1 else 0

theorem left_loop_le (max i : Nat) : (loop max i).left max ≤ 2 * (max - i) := by
  unfold loop
  split
  · exact Nat.le_refl _
  · exact Nat.zero_le _

theorem Advance.left_lt {k : Nat} {task task' : Task} {waiter : Waiter}
    (h : Advance max pings k e task task') (htold : Told max pings waiter k task) :
    task'.left max < task.left max := by
  cases h with
  | start =>
    have hloop := left_loop_le max 0
    exact Nat.lt_succ_of_le hloop
  | answers =>
    obtain ⟨hlt, _⟩ := htold
    simp only [Task.left]
    omega
  | raises =>
    obtain ⟨hlt, _⟩ := htold
    simp only [Task.left]
    omega
  | @woken i =>
    obtain ⟨hlt, _⟩ := htold
    have hloop := left_loop_le max (i + 1)
    have hsleep : (Task.sleep i).left max = 2 * (max - i) - 1 := rfl
    omega

theorem left_cancel_le (task : Task) : task.cancel.left max ≤ task.left max := by
  unfold Task.cancel
  split
  · exact Nat.le_refl _
  · exact Nat.zero_le _

theorem left_decide_lt (hwait : s.waiter = .wait) : s.decide.left max < s.left max := by
  have hleft : s.left max = (s.tasks.map (Task.left max)).sum + 1 := by
    rw [State.left, if_pos hwait]
  rw [hleft, Nat.lt_succ_iff]
  unfold State.decide
  split
  · rw [State.left, if_neg (by simp), Nat.add_zero, List.map_map]
    exact sum_map_le left_cancel_le
  · rw [State.left, if_neg (by simp)]
    exact Nat.le_refl _

/-- Each step takes from what is left. -/
theorem left_step_lt (h : Sound max servers pings s) (hs : s.step max pings e = some s') :
    s'.left max < s.left max := by
  rcases step_cases hs with ⟨k, task, task', hadvance, htask, rfl⟩ | ⟨_, hwait, _, rfl⟩
  · have hleft := hadvance.left_lt (h.told k task htask)
    have hsum := sum_map_set_lt (f := Task.left max) htask hleft
    unfold State.left State.update
    simpa using hsum
  · exact left_decide_lt hwait

theorem left_create : (State.create servers).left max = servers * (2 * max + 1) + 1 := by
  simp [State.create, State.left, Task.left]

/-- A start takes a bounded number of steps. -/
theorem length_run {ok : State → Event → Prop} {es : List Event}
    (h : Run (State.step max pings) ok (.create servers) es s) :
    es.length + s.left max ≤ servers * (2 * max + 1) + 1 := by
  have hinv : Sound max servers pings s ∧
      es.length + s.left max ≤ servers * (2 * max + 1) + 1 := by
    refine h.invariant_of_events (I := fun es s => Sound max servers pings s ∧
      es.length + s.left max ≤ servers * (2 * max + 1) + 1) ⟨sound_create, ?_⟩ ?_
    · rw [left_create]
      simp
    · intro es s e s' ⟨hsound, hle⟩ _ hs
      have hlt := left_step_lt hsound hs
      refine ⟨sound_step hsound hs, ?_⟩
      rw [List.length_append, List.length_singleton]
      omega
  exact hinv.2

theorem sound_run {ok : State → Event → Prop} {es : List Event}
    (h : Run (State.step max pings) ok (.create servers) es s) : Sound max servers pings s :=
  h.invariant sound_create fun _ _ _ hsound _ hs => sound_step hsound hs

/-! ## Which start raises -/

/-- `wait_for_vllms` did not raise, or no server gets ready. -/
def RightlyRaised (max servers : Nat) (pings : Nat → Nat → Bool) (s : State) : Prop :=
  s.waiter = .raised → ∀ k < servers, ¬ GetsReady max pings k

/-- When `wait_for_vllms` goes on, a server is ready, or none gets ready at all. -/
def ReadyByThen (max servers : Nat) (pings : Nat → Nat → Bool) (s : State) (e : Event) : Prop :=
  e = .resume → .ready ∈ s.tasks ∨ ∀ k < servers, ¬ GetsReady max pings k

/-- A step keeps a start right exactly under that condition. -/
theorem rightlyRaised_step_iff (h : RightlyRaised max servers pings s)
    (hs : s.step max pings e = some s') :
    RightlyRaised max servers pings s' ↔ ReadyByThen max servers pings s e := by
  rcases step_cases hs with ⟨k, task, task', hadvance, htask, rfl⟩ | ⟨rfl, hwait, _, rfl⟩
  · exact iff_of_true h fun he => absurd he hadvance.ne_resume
  · unfold State.decide
    split
    · rename_i hready
      exact iff_of_true (fun hr => by cases hr) fun _ => .inl hready
    · rename_i hready
      exact ⟨fun hright _ => .inr (hright rfl), fun hby _ => (hby rfl).resolve_left hready⟩

theorem Sound.getsReady (h : Sound max servers pings s) (hreturned : s.waiter = .returned) :
    ∃ k < servers, GetsReady max pings k := by
  obtain ⟨k, hk⟩ := List.mem_iff_getElem?.mp (h.returned hreturned)
  refine ⟨k, ?_, h.told k _ hk⟩
  rw [← h.length]
  exact (List.getElem?_eq_some_iff.mp hk).1

/-- In every start whose `wait_for_vllms` goes on with a ready server among those that ended,
or without any server that gets ready, it raises only if no server gets ready; the start takes
a bounded number of steps, and where it ends it has returned exactly if a server gets ready. A
step from such a start breaks this exactly when it is not such a step. -/
theorem the_start_is_right_when_a_server_is_ready_by_then (max servers : Nat)
    (pings : Nat → Nat → Bool) (hne : 0 < servers) {es : List Event} {s : State}
    (h : Run (State.step max pings) (ReadyByThen max servers pings) (.create servers) es s) :
    RightlyRaised max servers pings s ∧ es.length ≤ servers * (2 * max + 1) + 1 ∧
      ((∀ e, s.step max pings e = none) → s.waiter ≠ .wait ∧
        (s.waiter = .returned ↔ ∃ k < servers, GetsReady max pings k)) ∧
      ∀ e s', s.step max pings e = some s' →
        (RightlyRaised max servers pings s' ↔ ReadyByThen max servers pings s e) := by
  have hsound := sound_run h
  have hright : RightlyRaised max servers pings s := by
    refine h.invariant (I := RightlyRaised max servers pings) (fun hr => by cases hr) ?_
    intro s e s' hs hok hstep
    exact (rightlyRaised_step_iff hs hstep).mpr hok
  have hlength := length_run h
  refine ⟨hright, by omega, ?_, fun e s' hs => rightlyRaised_step_iff hright hs⟩
  intro hend
  have hdecided : s.waiter ≠ .wait := by
    intro hwait
    obtain ⟨e, s', hs⟩ := progress hsound hne hwait
    rw [hend e] at hs
    cases hs
  refine ⟨hdecided, hsound.getsReady, ?_⟩
  rintro ⟨k, hk, hready⟩
  cases hwaiter : s.waiter with
  | wait => exact absurd hwaiter hdecided
  | returned => rfl
  | raised => exact absurd hready (hright hwaiter k hk)

/-- The first server never answers, and the second one does at once. -/
def secondAnswers (k _ : Nat) : Bool := k = 1

theorem getsReady_second : GetsReady 1 secondAnswers 1 := ⟨0, by decide, rfl⟩

/-- The ready server ends first. -/
def readyFirst : List Event := [.start 0, .start 1, .pinged 1, .resume]

theorem a_start_with_a_ready_server_returns : ∃ s,
    Run (State.step 1 secondAnswers) (ReadyByThen 1 2 secondAnswers) (.create 2) readyFirst s ∧
    RightlyRaised 1 2 secondAnswers s := by
  have hbefore : Run (State.step 1 secondAnswers) (ReadyByThen 1 2 secondAnswers) (.create 2)
      [.start 0, .start 1, .pinged 1] ⟨[.ping_server 0, .ready], .wait⟩ := by
    refine Run.of_events (run_of_exec (by decide)) ?_
    intro e he s hresume
    rw [hresume] at he
    simp at he
  have hready : ReadyByThen 1 2 secondAnswers ⟨[.ping_server 0, .ready], .wait⟩ .resume :=
    fun _ => .inl (by decide)
  have hstep : (⟨[.ping_server 0, .ready], .wait⟩ : State).step 1 secondAnswers .resume =
      some ⟨[.cancelled, .ready], .returned⟩ := by decide
  have hrun := Run.snoc hbefore hready hstep
  exact ⟨_, hrun,
    (the_start_is_right_when_a_server_is_ready_by_then 1 2 secondAnswers (by decide) hrun).1⟩

/-- The other server ends first, and the start raises with a server that would get ready. -/
theorem a_quick_failure_hides_a_ready_server :
    ¬ ∀ (max servers : Nat) (pings : Nat → Nat → Bool) (es : List Event) (s : State),
      0 < servers → Run (State.step max pings) Any (.create servers) es s →
      RightlyRaised max servers pings s := by
  intro hall
  have hrun : Run (State.step 1 secondAnswers) Any (.create 2)
      [.start 0, .start 1, .pinged 0, .woken 0, .resume]
      ⟨[.VllmNotReadyException, .ping_server 0], .raised⟩ := run_of_exec (by decide)
  exact hall 1 2 secondAnswers _ _ (by decide) hrun rfl 1 (by decide) getsReady_second

end aristote_dispatcher.startup
