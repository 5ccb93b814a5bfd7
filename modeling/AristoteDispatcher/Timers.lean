-- The timers of the counted requests (rpc_server.py). A callback counts an id and
-- starts the timer of the id in one go, with no await between. So whatever
-- completions are lost, every id that is counted has a timer left to remove it.
import AristoteDispatcher.ConsumerInvariant

open json (Json PyStr)
open pydict runs places
open aristote_dispatcher.settings aristote_dispatcher.messages

namespace aristote_dispatcher.rpc_server

variable {cfg : Settings} {repr : Json → PyStr} {s s' : State}

/-- The id that a step counts: `current_parallel_requests[vllm_server].add(...)`. -/
def addition (s : State) : Event → Option (VLLMServer × String)
  | .resume i => do
    let c ← s.callbacks[i]?
    let server ← c.vllm_server
    let _ ← s.current_parallel_requests.lookup server
    some (server, c.message.id)
  | _ => none

/-- A consumer, with the time of its steps: when each pending timer started, and when each id
was last added to the set of a server. -/
structure Timed where
  state : State
  now : Nat
  pending : List ((VLLMServer × String) × Nat)
  latest : VLLMServer × String → Option Nat

def Timed.create (cfg : Settings) : Timed := ⟨.create cfg, 0, [], fun _ => none⟩

/-- The pending timers after a step: those that it starts come behind the others. -/
def Timed.pendingAfter (t : Timed) (state : State) :
    Event → List ((VLLMServer × String) × Nat)
  | .expire i => t.pending.eraseIdx i
  | _ => t.pending ++
    (state.timers.drop t.state.timers.length).map fun timer => (timer, t.now)

def Timed.step (cfg : Settings) (repr : Json → PyStr) (t : Timed) (e : Event) : Option Timed :=
  (t.state.step cfg repr e).map fun state =>
    { state := state
      now := t.now + 1
      pending := t.pendingAfter state e
      latest := match addition t.state e with
        | some added => Function.update t.latest added (some t.now)
        | none => t.latest }

/-! ## What a step does with ids and timers -/

/-- A timer that fires takes its own id out of the set of its own server. -/
theorem ids_expire (server k : VLLMServer) (id : String) :
    (s.expire server id).ids k = if k = server then (s.ids k).erase id else s.ids k := by
  unfold State.expire
  split
  · rename_i hnone
    split
    · rename_i hk
      subst hk
      simp [State.ids, Dict.get, hnone]
    · rfl
  · rename_i ids hids
    simp only [State.ids, get_insert]
    split
    · rename_i hk
      subst hk
      rw [get_of_lookup hids]
    · rfl

theorem timers_expire (server : VLLMServer) (id : String) :
    (s.expire server id).timers = s.timers := by
  unfold State.expire
  split <;> rfl

/-- A step that counts an id starts its timer, and adds the id to no other set. -/
theorem counts_of_addition {e : Event} {server : VLLMServer} {id : String}
    (h : s.step cfg repr e = some s') (ha : addition s e = some (server, id)) :
    s'.timers = s.timers ++ [(server, id)] ∧
    ∀ k, s'.ids k = if k = server then insert id (s.ids k) else s.ids k := by
  unfold addition at ha
  split at ha
  · rename_i i
    obtain ⟨c, hc, ha⟩ := Option.bind_eq_some_iff.mp ha
    obtain ⟨target, htarget, ha⟩ := Option.bind_eq_some_iff.mp ha
    obtain ⟨ids, hids, ha⟩ := Option.bind_eq_some_iff.mp ha
    cases ha
    cases moves_of_step h with
    | resume hc' hp hs =>
      rw [hc] at hc'
      cases hc'
      rw [htarget] at hs
      cases hs
      have hadd : (s.finish i).add server c.message.id =
          { s.finish i with
            current_parallel_requests :=
              s.current_parallel_requests.insert server (insert c.message.id ids)
            timers := s.timers ++ [(server, c.message.id)] } := by
        unfold State.add State.finish
        simp only [hids]
      rw [hadd]
      refine ⟨rfl, fun k => ?_⟩
      simp only [State.ids, get_insert]
      split
      · rename_i hk
        subst hk
        rw [get_of_lookup hids]
      · rfl
    | resume_none hc' hp hs =>
      rw [hc] at hc'
      cases hc'
      rw [htarget] at hs
      cases hs
  · cases ha

/-- A step that counts no id starts no timer and adds to no set. -/
theorem keeps_of_no_addition {e : Event} (h : s.step cfg repr e = some s')
    (ha : addition s e = none) (hexpire : ∀ i, e ≠ .expire i) :
    s'.timers = s.timers ∧ ∀ k, s'.ids k ⊆ s.ids k := by
  cases moves_of_step h with
  | resume hc hp hs =>
    rename_i i c server
    have hnone : (s.finish i).current_parallel_requests.lookup server = none := by
      rw [Option.eq_none_iff_forall_ne_some]
      simpa [addition, hc, hs, State.finish] using ha
    have hsame : (s.finish i).add server c.message.id = s.finish i := by
      unfold State.add
      rw [hnone]
    rw [hsame]
    exact ⟨rfl, fun k => subset_rfl⟩
  | completion hfree => exact ⟨rfl, fun k => ids_completion_subset _ _ _⟩
  | expire ht =>
    rename_i i server id
    exact absurd rfl (hexpire i)
  | _ => exact ⟨rfl, fun k => subset_rfl⟩

/-! ## The invariant -/

/-- The pending timers are the `_expire_request` tasks, and that of the latest addition of a
counted id is one of them. -/
structure Armed (t : Timed) : Prop where
  timers : t.pending.map (·.1) = t.state.timers
  armed : ∀ server id, id ∈ t.state.ids server →
    ∃ n, t.latest (server, id) = some n ∧ ((server, id), n) ∈ t.pending

theorem armed_create (cfg : Settings) : Armed (.create cfg) := by
  refine ⟨rfl, fun server id hid => ?_⟩
  have hempty : id ∈ (State.create cfg).ids server := hid
  rw [ids_create] at hempty
  cases hempty

variable {t t' : Timed}

theorem getElem?_pending (h : Armed t) {i : Nat} {timer : VLLMServer × String}
    (ht : t.state.timers[i]? = some timer) : ∃ n, t.pending[i]? = some (timer, n) := by
  rw [← h.timers, List.getElem?_map] at ht
  obtain ⟨⟨timer', n⟩, hp, rfl⟩ := Option.map_eq_some_iff.mp ht
  exact ⟨n, hp⟩

theorem armed_step {e : Event} (h : Armed t) (hs : t.step cfg repr e = some t') : Armed t' := by
  obtain ⟨state, hstep, rfl⟩ := Option.map_eq_some_iff.mp hs
  by_cases hexpire : ∃ i, e = .expire i
  · obtain ⟨i, rfl⟩ := hexpire
    cases moves_of_step hstep with
    | expire ht =>
      rename_i server id
      obtain ⟨n, hn⟩ := getElem?_pending h ht
      refine ⟨?_, fun k id' hid => ?_⟩
      · rw [timers_expire, ← h.timers]
        exact (List.eraseIdx_map _ _ _).symm
      · rw [ids_expire] at hid
        have hother : (k, id') ≠ (server, id) ∧ id' ∈ t.state.ids k := by
          split at hid
          · obtain ⟨hne, hid⟩ := Finset.mem_erase.mp hid
            exact ⟨fun heq => hne (Prod.mk.inj heq).2, hid⟩
          · rename_i hk
            exact ⟨fun heq => hk (Prod.mk.inj heq).1, hid⟩
        obtain ⟨m, hlatest, hpending⟩ := h.armed k id' hother.2
        refine ⟨m, hlatest, mem_eraseIdx_of_ne hn hpending fun heq => ?_⟩
        exact hother.1 (Prod.mk.inj heq).1
  · have hnot : ∀ i, e ≠ .expire i := fun i heq => hexpire ⟨i, heq⟩
    have hafter : t.pendingAfter state e = t.pending ++
        (state.timers.drop t.state.timers.length).map fun timer => (timer, t.now) := by
      unfold Timed.pendingAfter
      split
      · exact absurd rfl (hnot _)
      · rfl
    cases ha : addition t.state e with
    | none =>
      obtain ⟨htimers, hids⟩ := keeps_of_no_addition hstep ha hnot
      refine ⟨?_, fun server id hid => ?_⟩
      · simp [hafter, htimers, h.timers]
      · obtain ⟨n, hlatest, hpending⟩ := h.armed server id (hids server hid)
        refine ⟨n, by simpa [ha] using hlatest, ?_⟩
        rw [hafter]
        exact List.mem_append_left _ hpending
    | some added =>
      obtain ⟨target, counted⟩ := added
      obtain ⟨htimers, hids⟩ := counts_of_addition hstep ha
      refine ⟨?_, fun server id hid => ?_⟩
      · simp [hafter, htimers, h.timers]
      · by_cases hown : (server, id) = (target, counted)
        · cases hown
          refine ⟨t.now, by simp, ?_⟩
          simp [hafter, htimers]
        · have hbefore : id ∈ t.state.ids server := by
            have hid' : id ∈ state.ids server := hid
            rw [hids] at hid'
            split at hid'
            · rename_i hk
              subst hk
              exact (Finset.mem_insert.mp hid').resolve_left fun heq => hown (by rw [heq])
            · exact hid'
          obtain ⟨n, hlatest, hpending⟩ := h.armed server id hbefore
          refine ⟨n, ?_, ?_⟩
          · exact (Function.update_of_ne hown _ _).trans hlatest
          · rw [hafter]
            exact List.mem_append_left _ hpending

/-! ## The law -/

/-- In every run, at every await: a counted id has a pending timer that started at its latest
addition; once that timer has fired the id is out of the set; and a timer that fires takes its
own id out of the set of its own server, and nothing else. -/
theorem every_counted_request_has_a_timer (cfg : Settings) (repr : Json → PyStr)
    {es : List Event} {t : Timed} (h : Run (Timed.step cfg repr) Any (.create cfg) es t) :
    t.pending.map (·.1) = t.state.timers ∧
    (∀ server id, id ∈ t.state.ids server → ∃ latest started,
      t.latest (server, id) = some latest ∧ latest ≤ started ∧
        ((server, id), started) ∈ t.pending) ∧
    (∀ server id latest, t.latest (server, id) = some latest →
      ((server, id), latest) ∉ t.pending → id ∉ t.state.ids server) ∧
    ∀ i t', t.step cfg repr (.expire i) = some t' →
      ∃ server id, t.state.timers[i]? = some (server, id) ∧ id ∉ t'.state.ids server ∧
        ∀ other id', (other, id') ≠ (server, id) →
          (id' ∈ t'.state.ids other ↔ id' ∈ t.state.ids other) := by
  have harmed : Armed t := h.invariant (armed_create cfg) fun _ _ _ hi _ hs => armed_step hi hs
  refine ⟨harmed.timers, fun server id hid => ?_, fun server id latest hlatest hfired hid => ?_,
    fun i t' ht' => ?_⟩
  · obtain ⟨n, hlatest, hpending⟩ := harmed.armed server id hid
    exact ⟨n, n, hlatest, le_refl n, hpending⟩
  · obtain ⟨n, hn, hpending⟩ := harmed.armed server id hid
    rw [hlatest] at hn
    cases hn
    exact hfired hpending
  · obtain ⟨state, hstep, rfl⟩ := Option.map_eq_some_iff.mp ht'
    cases moves_of_step hstep with
    | expire ht =>
      rename_i server id
      refine ⟨server, id, ht, ?_, fun other id' hne => ?_⟩
      · rw [ids_expire, if_pos rfl]
        exact Finset.notMem_erase _ _
      · rw [ids_expire]
        split
        · rename_i hk
          subst hk
          rw [Finset.mem_erase]
          exact and_iff_right fun heq => hne (by rw [heq])
        · rfl

/-- A request is delivered and served, and its completion is lost. -/
def servedOnce : List Event :=
  [.deliver .main (anyCall "1") 0, .publish 0, .ack 0, .resume 0]

theorem a_lost_completion_leaves_a_timer : ∃ t,
    exec (Timed.step (oneServerSettings .round_robin .warning_log) noRepr)
      (.create (oneServerSettings .round_robin .warning_log)) servedOnce = some t ∧
    "1" ∈ t.state.ids ⟨"http://a", none, "org", 1⟩ ∧
    ∃ started, ((⟨"http://a", none, "org", 1⟩, "1"), started) ∈ t.pending := by
  have hexec : (exec (Timed.step (oneServerSettings .round_robin .warning_log) noRepr)
      (.create (oneServerSettings .round_robin .warning_log)) servedOnce).map
        (fun t => decide ("1" ∈ t.state.ids ⟨"http://a", none, "org", 1⟩)) = some true := by
    decide +kernel
  obtain ⟨t, ht, hid⟩ := Option.map_eq_some_iff.mp hexec
  have hcounted := of_decide_eq_true hid
  obtain ⟨_, started, _, _, hpending⟩ := (every_counted_request_has_a_timer
    (oneServerSettings .round_robin .warning_log) noRepr (run_of_exec ht)).2.1 _ _ hcounted
  exact ⟨t, ht, hcounted, started, hpending⟩

end aristote_dispatcher.rpc_server
