-- Several consumers of one model (README, "Architecture"). Each has its own
-- servers and its own sets of ids; the queue of the model and the queue of the
-- completions are shared, and the broker gives a message to any of them.
import Mathlib.Data.Fintype.Basic
import Mathlib.Logic.Function.Basic
import AristoteDispatcher.Slots

open pydict runs places
open json (Json PyStr)
open aristote_dispatcher.settings aristote_dispatcher.messages

namespace aristote_dispatcher.cluster

open aristote_dispatcher.rpc_server

variable {cfg : Settings} {repr : Json → PyStr} {s s' : State}

/-! ## Who holds a slot -/

/-- The slot that a consumer gives up: the callback to it fails, or the timer of its id fires. -/
def loses (cfg : Settings) (s : State) : Event → List Slot
  | .publish_raises i => (s.callbacks[i]?.bind Callback.slot).toList
  | .ack_raises i => (s.callbacks[i]?.bind Callback.slot).toList
  | .expire i =>
    ((s.timers[i]?.filter fun t => t.1 ∈ cfg.VLLM_SERVERS ∧ t.2 ∈ s.ids t.1).map fun t =>
      (t.1.url, t.2)).toList
  | _ => []

/-- A consumer, with the slots that its deliveries were let through to, each until the consumer
gives it up or gets its completion. -/
structure Holder extends Accounted where
  held : List Slot

def Holder.create (cfg : Settings) : Holder := ⟨.create cfg, []⟩

def Holder.step (cfg : Settings) (repr : Json → PyStr) (h : Holder) (e : Event) : Option Holder :=
  (h.toAccounted.step cfg repr e).map fun accounted => {
    toAccounted := accounted
    held := ((h.held.diff (loses cfg h.state e)).filter fun slot =>
      slot ∉ completes cfg repr e) ++ admits cfg h.state e }

/-- A server with the url counts the id. -/
def Counts (cfg : Settings) (s : State) (slot : Slot) : Prop :=
  ∃ server ∈ cfg.VLLM_SERVERS, server.url = slot.1 ∧ slot.2 ∈ s.ids server

instance (slot : Slot) : Decidable (Counts cfg s slot) :=
  inferInstanceAs (Decidable (∃ server ∈ cfg.VLLM_SERVERS,
    server.url = slot.1 ∧ slot.2 ∈ s.ids server))

/-- The callbacks on their way to the slot, and its id where it is counted. -/
def taken (cfg : Settings) (s : State) (slot : Slot) : Nat :=
  s.callbacks.countP (fun c => c.slot = some slot) + if Counts cfg s slot then 1 else 0

theorem taken_eq_zero_iff {slot : Slot} : taken cfg s slot = 0 ↔ Free cfg s slot := by
  rw [taken, Nat.add_eq_zero_iff, List.countP_eq_zero, ite_eq_right_iff]
  constructor
  · rintro ⟨hcallbacks, hcounts⟩
    refine ⟨fun server hserver hurl hid => ?_, fun c hc => by simpa using hcallbacks c hc⟩
    exact absurd (hcounts ⟨server, hserver, hurl, hid⟩) one_ne_zero
  · intro h
    refine ⟨fun c hc => by simpa using h.callbacks c hc, ?_⟩
    rintro ⟨server, hserver, hurl, hid⟩
    exact absurd hid (h.ids server hserver hurl)

/-- What is counted after a step was so before, unless the step ends a callback. -/
theorem counts_of_step {e : Event} (h : s.step cfg repr e = some s') (hne : ∀ i, e ≠ .resume i)
    {slot : Slot} (hcounts : Counts cfg s' slot) : Counts cfg s slot := by
  obtain ⟨server, hserver, hurl, hid⟩ := hcounts
  rcases ids_step h server with hsub | ⟨i, _, _, _, he, _⟩
  · exact ⟨server, hserver, hurl, hsub hid⟩
  · exact absurd he (hne i)

/-- A step that neither admits nor ends a callback takes no more. -/
theorem taken_le {slot : Slot} (hcallbacks : s'.callbacks.countP (fun c => c.slot = some slot) ≤
      s.callbacks.countP fun c => c.slot = some slot)
    (hcounts : Counts cfg s' slot → Counts cfg s slot) : taken cfg s' slot ≤ taken cfg s slot := by
  unfold taken
  by_cases h : Counts cfg s' slot
  · rw [if_pos h, if_pos (hcounts h)]
    omega
  · rw [if_neg h]
    omega

/-- A callback that ends gives its slot back. -/
theorem taken_finish {i : Nat} {c : Callback} (hc : s.callbacks[i]? = some c) (slot : Slot) :
    taken cfg (s.finish i) slot + c.slot.toList.count slot = taken cfg s slot := by
  have hcount : s.callbacks.countP (fun c => c.slot = some slot) =
      (s.finish i).callbacks.countP (fun c => c.slot = some slot) +
        if decide (c.slot = some slot) then 1 else 0 := countP_eraseIdx _ hc
  have hslot : c.slot.toList.count slot = if decide (c.slot = some slot) then 1 else 0 := by
    cases c.slot with
    | none => rfl
    | some own => simp [List.count_singleton]
  have hcounts : (if Counts cfg (s.finish i) slot then 1 else 0) =
      if Counts cfg s slot then 1 else 0 := rfl
  rw [taken, taken, hcounts, hslot]
  omega

/-- A callback that is let through. -/
theorem taken_deliver (cfg : Settings) (s : State) (subscription : Subscription)
    (message : Message) (random : Nat) (slot : Slot) :
    taken cfg (s.deliver cfg subscription message random) slot =
      taken cfg s slot + (admits cfg s (.deliver subscription message random)).count slot := by
  have hnew : (suspended subscription message
      (s.segment cfg subscription message random).1.stop).countP (fun c => c.slot = some slot) =
      (admits cfg s (.deliver subscription message random)).count slot := by
    rw [admits, List.count_filterMap]
    exact List.countP_congr fun c _ => by simp
  have hcallbacks : (s.deliver cfg subscription message random).callbacks.countP
      (fun c => c.slot = some slot) = s.callbacks.countP (fun c => c.slot = some slot) +
        (admits cfg s (.deliver subscription message random)).count slot := by
    rw [← hnew]
    exact List.countP_append
  have hcounts : (if Counts cfg (s.deliver cfg subscription message random) slot then 1 else 0) =
      if Counts cfg s slot then 1 else 0 := rfl
  rw [taken, taken, hcallbacks, hcounts]
  omega

/-- An id that is counted, if it was not so before. -/
theorem taken_add (server : VLLMServer) (id : String) (slot : Slot) :
    taken cfg (s.add server id) slot ≤ taken cfg s slot + [(server.url, id)].count slot := by
  have hcounts : Counts cfg (s.add server id) slot →
      Counts cfg s slot ∨ (server.url, id) = slot := by
    rintro ⟨other, hother, hurl, hid⟩
    rcases ids_add server other id with hsame | ⟨rfl, hinsert⟩
    · exact .inl ⟨other, hother, hurl, hsame ▸ hid⟩
    · rw [hinsert] at hid
      rcases Finset.mem_insert.mp hid with rfl | hid
      · exact .inr (Prod.ext hurl rfl)
      · exact .inl ⟨other, hother, hurl, hid⟩
  rw [taken, taken, callbacks_add]
  by_cases hnew : Counts cfg (s.add server id) slot
  · rw [if_pos hnew]
    rcases hcounts hnew with hold | rfl
    · rw [if_pos hold]
      omega
    · rw [List.count_singleton_self]
      omega
  · rw [if_neg hnew]
    omega

/-- An id whose timer fires is no longer counted. -/
theorem not_counts_expire {i : Nat} {server : VLLMServer} {id : String}
    (hserver : server ∈ cfg.VLLM_SERVERS) :
    ¬Counts cfg ({ s with timers := s.timers.eraseIdx i }.expire server id) (server.url, id) := by
  rintro ⟨other, hother, hurl, hid⟩
  obtain rfl := server_eq_of_url cfg hserver hother hurl.symm
  unfold State.expire State.ids at hid
  split at hid
  · rename_i hlookup
    simp only [Dict.get, hlookup] at hid
    cases hid
  · rw [get_insert, if_pos rfl] at hid
    exact Finset.notMem_erase _ _ hid

theorem taken_expire {i : Nat} {server : VLLMServer} {id : String} {slot : Slot}
    (ht : s.timers[i]? = some (server, id))
    (hle : taken cfg ({ s with timers := s.timers.eraseIdx i }.expire server id) slot ≤
      taken cfg s slot) :
    taken cfg ({ s with timers := s.timers.eraseIdx i }.expire server id) slot +
      (loses cfg s (.expire i)).count slot ≤ taken cfg s slot := by
  by_cases hgives : server ∈ cfg.VLLM_SERVERS ∧ id ∈ s.ids server
  · have hloses : loses cfg s (.expire i) = [(server.url, id)] := by simp [loses, ht, hgives]
    rw [hloses, List.count_singleton]
    by_cases hslot : (server.url, id) = slot
    · subst hslot
      have hold : Counts cfg s (server.url, id) := ⟨server, hgives.1, rfl, hgives.2⟩
      simp only [taken, callbacks_expire, if_neg (not_counts_expire hgives.1), if_pos hold]
      simp
    · simpa [hslot] using hle
  · have hloses : loses cfg s (.expire i) = [] := by simpa [loses, ht] using hgives
    rwa [hloses]

/-- A step takes of a slot what it admits to it, and no longer what the consumer gives up. -/
theorem taken_step {e : Event} (h : s.step cfg repr e = some s') (slot : Slot) :
    taken cfg s' slot + (loses cfg s e).count slot ≤
      taken cfg s slot + (admits cfg s e).count slot := by
  cases moves_of_step h with
  | deliver hq hfree => exact (taken_deliver cfg s _ _ _ slot).le
  | publish hc hp =>
    refine taken_le (le_of_eq ?_) (counts_of_step h (by simp))
    exact countP_set_of_eq (fun c : Callback => decide (c.slot = some slot)) hc rfl
  | ack hc hp =>
    refine taken_le (le_of_eq ?_) (counts_of_step h (by simp))
    exact countP_set_of_eq (fun c : Callback => decide (c.slot = some slot)) hc rfl
  | publish_raises hc hp =>
    simp only [loses, hc, Option.bind_some]
    exact (taken_finish hc slot).le
  | ack_raises hc hp =>
    simp only [loses, hc, Option.bind_some]
    exact (taken_finish hc slot).le
  | resume_none hc hp hs => exact (Nat.le_add_right _ _).trans (taken_finish hc slot).le
  | resume hc hp hs =>
    -- the place of the callback becomes that of its id
    refine (taken_add _ _ slot).trans (le_of_eq ?_)
    rw [← taken_finish hc slot, Callback.slot, hs]
    rfl
  | expire ht =>
    refine taken_expire ht (taken_le ?_ (counts_of_step h (by simp)))
    rw [callbacks_expire]
  | completion => exact taken_le le_rfl (counts_of_step h (by simp))
  | _ => exact le_rfl

/-- What a consumer takes of a slot it holds. -/
structure Holding (cfg : Settings) (h : Holder) : Prop where
  sound : Sound cfg h.state
  taken : ∀ slot, taken cfg h.state slot ≤ h.held.count slot

theorem holding_create (cfg : Settings) : Holding cfg (.create cfg) := by
  refine ⟨sound_create cfg, fun slot => ?_⟩
  have hfree : Free cfg (State.create cfg) slot := by
    refine ⟨fun server _ _ hid => ?_, fun c hc => (by cases hc)⟩
    rw [ids_create] at hid
    cases hid
  exact (taken_eq_zero_iff.mpr hfree).le

theorem holding_step {h h' : Holder} {e : Event} (hold : Holding cfg h)
    (hended : CallbackEnded cfg repr h.toAccounted e) (hs : h.step cfg repr e = some h') :
    Holding cfg h' := by
  obtain ⟨accounted, ha, rfl⟩ := Option.map_eq_some_iff.mp hs
  obtain ⟨state, hstep, rfl⟩ := Option.map_eq_some_iff.mp ha
  refine ⟨sound_step hold.sound hstep, fun slot => ?_⟩
  by_cases hcompletes : slot ∈ completes cfg repr e
  · have hfree := free_completion hold.sound hstep hcompletes (hended slot hcompletes)
    exact (taken_eq_zero_iff.mpr hfree).le.trans (Nat.zero_le _)
  · have hcount : ((h.held.diff (loses cfg h.state e)).filter fun slot =>
        slot ∉ completes cfg repr e).count slot =
          h.held.count slot - (loses cfg h.state e).count slot := by
      rw [List.count_filter (by simpa using hcompletes), List.count_diff]
    have htaken := taken_step hstep slot
    have hbefore := hold.taken slot
    simp only [List.count_append, hcount]
    omega

/-- A consumer that does not hold the slot has it free. -/
theorem Holding.free {h : Holder} (hold : Holding cfg h) {slot : Slot} (hslot : slot ∉ h.held) :
    Free cfg h.state slot := by
  have htaken := hold.taken slot
  rw [List.count_eq_zero.mpr hslot] at htaken
  exact taken_eq_zero_iff.mp (Nat.le_zero.mp htaken)

/-! ## Several consumers -/

/-- The settings of consumers of one model. -/
structure Consumers (ι : Type*) where
  MODEL : String
  cfg : ι → Settings
  same_model : ∀ i, (cfg i).MODEL = MODEL

variable {ι : Type*} [DecidableEq ι]

/-- The states of all consumers. -/
abbrev Cluster (ι : Type*) := ι → Holder

def Cluster.create (consumers : Consumers ι) : Cluster ι := fun i => .create (consumers.cfg i)

/-- One consumer takes a step. -/
def Cluster.step (consumers : Consumers ι) (repr : Json → PyStr) (all : Cluster ι)
    (e : ι × Event) : Option (Cluster ι) :=
  ((all e.1).step (consumers.cfg e.1) repr e.2).map (Function.update all e.1)

/-! ## The law -/

/-- A completion comes to the consumer that was let through to its slot, in which the callback has
ended: no other consumer was let through, or holds the slot no longer. No delivery takes a
completed slot again. -/
structure ReachesHolder (consumers : Consumers ι) (repr : Json → PyStr) (all : Cluster ι)
    (e : ι × Event) : Prop where
  others : ∀ slot ∈ completes (consumers.cfg e.1) repr e.2, ∀ j ≠ e.1, slot ∉ (all j).held
  ended : CallbackEnded (consumers.cfg e.1) repr (all e.1).toAccounted e.2
  not_again : ∀ slot ∈ admits (consumers.cfg e.1) (all e.1).state e.2,
    ∀ j, slot ∉ (all j).completed

instance [Fintype ι] (consumers : Consumers ι) (repr : Json → PyStr) (all : Cluster ι)
    (e : ι × Event) : Decidable (ReachesHolder consumers repr all e) :=
  decidable_of_iff
    ((∀ slot ∈ completes (consumers.cfg e.1) repr e.2, ∀ j, j ≠ e.1 → slot ∉ (all j).held) ∧
      CallbackEnded (consumers.cfg e.1) repr (all e.1).toAccounted e.2 ∧
      ∀ slot ∈ admits (consumers.cfg e.1) (all e.1).state e.2, ∀ j, slot ∉ (all j).completed)
    ⟨fun h => ⟨h.1, h.2.1, h.2.2⟩, fun h => ⟨h.others, h.ended, h.not_again⟩⟩

/-- What one consumer has completed is free in all of them. -/
structure ClusterSettled (consumers : Consumers ι) (all : Cluster ι) : Prop where
  holding : ∀ j, Holding (consumers.cfg j) (all j)
  free : ∀ i, ∀ slot ∈ (all i).completed, ∀ j, Free (consumers.cfg j) (all j).state slot

omit [DecidableEq ι] in
theorem clusterSettled_create (consumers : Consumers ι) :
    ClusterSettled consumers (.create consumers) :=
  ⟨fun j => holding_create (consumers.cfg j), fun _ _ h => (by cases h)⟩

/-- A completed slot was so before the step, or the step completes it. -/
theorem completed_step {consumers : Consumers ι} {repr : Json → PyStr} {all all' : Cluster ι}
    {e : ι × Event} (hs : all.step consumers repr e = some all') {k : ι} {slot : Slot}
    (h : slot ∈ (all' k).completed) :
    (∃ k, slot ∈ (all k).completed) ∨ slot ∈ completes (consumers.cfg e.1) repr e.2 := by
  obtain ⟨h', hs', rfl⟩ := Option.map_eq_some_iff.mp hs
  obtain ⟨accounted, ha, rfl⟩ := Option.map_eq_some_iff.mp hs'
  obtain ⟨state, _, rfl⟩ := Option.map_eq_some_iff.mp ha
  by_cases hk : k = e.1
  · subst hk
    rw [Function.update_self] at h
    rcases List.mem_append.mp h with h | h
    · exact .inl ⟨e.1, h⟩
    · exact .inr h
  · rw [Function.update_of_ne hk] at h
    exact .inl ⟨k, h⟩

theorem clusterSettled_step {consumers : Consumers ι} {repr : Json → PyStr}
    {all all' : Cluster ι} {e : ι × Event} (h : ClusterSettled consumers all)
    (hok : ReachesHolder consumers repr all e) (hs : all.step consumers repr e = some all') :
    ClusterSettled consumers all' := by
  have hcompleted : ∀ {k : ι} {slot : Slot}, slot ∈ (all' k).completed →
      (∃ k, slot ∈ (all k).completed) ∨ slot ∈ completes (consumers.cfg e.1) repr e.2 :=
    completed_step hs
  obtain ⟨h', hs', rfl⟩ := Option.map_eq_some_iff.mp hs
  have hholding : Holding (consumers.cfg e.1) h' := holding_step (h.holding e.1) hok.ended hs'
  obtain ⟨accounted, ha, rfl⟩ := Option.map_eq_some_iff.mp hs'
  obtain ⟨state, hstep, rfl⟩ := Option.map_eq_some_iff.mp ha
  refine ⟨?_, ?_⟩
  · intro j
    by_cases hj : j = e.1
    · subst hj
      rw [Function.update_self]
      exact hholding
    · rw [Function.update_of_ne hj]
      exact h.holding j
  · intro k slot hslot j
    by_cases hj : j = e.1
    · subst hj
      rw [Function.update_self]
      rcases hcompleted hslot with ⟨k', hold⟩ | hnew
      · exact free_step (h.free k' slot hold e.1) hstep fun hadm => hok.not_again slot hadm k' hold
      · exact free_completion (h.holding e.1).sound hstep hnew (hok.ended slot hnew)
    · rw [Function.update_of_ne hj]
      rcases hcompleted hslot with ⟨k', hold⟩ | hnew
      · exact h.free k' slot hold j
      · exact (h.holding j).free (hok.others slot hnew j hj)

/-- After a completion no consumer counts its id, in every run in which each completion comes
to the consumer that has the slot. -/
theorem a_completion_clears_the_slot_everywhere (consumers : Consumers ι) (repr : Json → PyStr)
    {es : List (ι × Event)} {all : Cluster ι}
    (h : Run (Cluster.step consumers repr) (ReachesHolder consumers repr) (.create consumers) es
      all) :
    ∀ i, ∀ slot ∈ (all i).completed, ∀ j, ∀ server ∈ (consumers.cfg j).VLLM_SERVERS,
      server.url = slot.1 → slot.2 ∉ (all j).state.ids server := by
  have hinv : ClusterSettled consumers all := h.invariant (clusterSettled_create consumers)
    fun _ _ _ hi hok hs => clusterSettled_step hi hok hs
  exact fun i slot hslot j => (hinv.free i slot hslot j).ids

/-- Two consumers with the same server. -/
def twoConsumers : Consumers Bool := ⟨"model", fun _ => someSettings, fun _ => rfl⟩

/-- The events of a request that is served by the first consumer. -/
def served : List (Bool × Event) :=
  [(false, .deliver .main (anyCall "1") 0), (false, .publish 0), (false, .ack 0),
    (false, .resume 0)]

/-- The answer of the other consumer fails, so the broker gives the request to the first one, and
then its completion. -/
theorem a_completion_at_its_consumer_clears_the_slot : ∃ all,
    Run (Cluster.step twoConsumers noRepr) (ReachesHolder twoConsumers noRepr)
      (.create twoConsumers) ([(true, .deliver .main (anyCall "1") 0), (true, .publish_raises 0)] ++
        served ++ [(false, completionOf "1")]) all ∧
    ∀ i, ∀ slot ∈ (all i).completed, ∀ j, ∀ server ∈ (twoConsumers.cfg j).VLLM_SERVERS,
      server.url = slot.1 → slot.2 ∉ (all j).state.ids server := by
  have hsome : (exec (checked (Cluster.step twoConsumers noRepr)
      (ReachesHolder twoConsumers noRepr)) (.create twoConsumers)
      ([(true, .deliver .main (anyCall "1") 0), (true, .publish_raises 0)] ++ served ++
        [(false, completionOf "1")])).isSome = true := by decide +kernel
  obtain ⟨all, hrun⟩ := Option.isSome_iff_exists.mp hsome
  exact ⟨all, run_of_checked hrun,
    a_completion_clears_the_slot_everywhere twoConsumers noRepr (run_of_checked hrun)⟩

/-- The broker gives the completion to the other consumer: the first one still counts it. -/
theorem a_completion_at_another_consumer_clears_nothing :
    ¬∀ (consumers : Consumers Bool) (repr : Json → PyStr) (es : List (Bool × Event))
      (all : Cluster Bool),
      Run (Cluster.step consumers repr) Any (.create consumers) es all →
      ∀ i, ∀ slot ∈ (all i).completed, ∀ j, ∀ server ∈ (consumers.cfg j).VLLM_SERVERS,
        server.url = slot.1 → slot.2 ∉ (all j).state.ids server := by
  intro hall
  have hexec : ((exec (Cluster.step twoConsumers noRepr) (.create twoConsumers)
      (served ++ [(true, completionOf "1")])).map fun all => ((all true).completed,
        decide (Counts (twoConsumers.cfg false) (all false).state ("http://a", "1")))) =
      some ([("http://a", "1")], true) := by decide +kernel
  obtain ⟨all, hrun, hpair⟩ := Option.map_eq_some_iff.mp hexec
  obtain ⟨hcompleted, hcounted⟩ := Prod.mk.inj hpair
  obtain ⟨server, hserver, hurl, hid⟩ := of_decide_eq_true hcounted
  exact hall twoConsumers noRepr _ all (run_of_exec hrun) true ("http://a", "1")
    (by simp [hcompleted]) false server hserver hurl hid

end aristote_dispatcher.cluster
