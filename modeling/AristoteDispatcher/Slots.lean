-- The slots of a consumer: the pair of a url and an id, from the admission of a
-- request over its reply to its completion. A completed slot stays free, unless
-- the callback that let the request through was still on its way.
import AristoteDispatcher.Completions

open pydict json runs
open aristote_dispatcher.settings aristote_dispatcher.messages
open aristote_dispatcher.policies aristote_dispatcher.strategy

namespace aristote_dispatcher.rpc_server

/-- The url of a server, and the id of a request. -/
abbrev Slot := String × String

/-- The slot that a callback is on its way to take. -/
def Callback.slot (c : Callback) : Option Slot :=
  c.vllm_server.map fun server => (server.url, c.message.id)

/-- The slot that a completion frees. -/
def completedSlot (cfg : Settings) (repr : Json → PyStr) (body : ByteArray) : Option Slot :=
  match readMembers body with
  | .error _ => none
  | .ok data => do
    let server ← used_server cfg (getMember data "server")
    let id ← (strOf repr (getMember data "message_id")).toString?
    some (server.url, id)

/-- A consumer, with what happened in it so far. -/
structure Accounted where
  state : State
  admitted : List Slot
  replied : List Slot
  completed : List Slot

def Accounted.create (cfg : Settings) : Accounted := ⟨.create cfg, [], [], []⟩

/-- The slots that a delivery is let through to. -/
def admits (cfg : Settings) (s : State) : Event → List Slot
  | .deliver subscription message random =>
    (suspended subscription message (s.segment cfg subscription message random).1.stop).filterMap
      Callback.slot
  | _ => []

/-- The slots of the reply that goes out. -/
def replies (s : State) : Event → List Slot
  | .publish i => (s.callbacks[i]?.bind Callback.slot).toList
  | _ => []

/-- The slots of the completion that comes in. -/
def completes (cfg : Settings) (repr : Json → PyStr) : Event → List Slot
  | .completion body => (completedSlot cfg repr body).toList
  | _ => []

def Accounted.step (cfg : Settings) (repr : Json → PyStr) (a : Accounted) (e : Event) :
    Option Accounted :=
  (a.state.step cfg repr e).map fun state => {
    state := state
    admitted := a.admitted ++ admits cfg a.state e
    replied := a.replied ++ replies a.state e
    completed := a.completed ++ completes cfg repr e }

variable {cfg : Settings} {repr : Json → PyStr} {s s' : State} {a a' : Accounted}

/-! ## Callbacks and slots -/

theorem mem_goOn {i : Nat} {c d : Callback} {phase : Phase} (hc : s.callbacks[i]? = some c)
    (hd : d ∈ (s.goOn i c phase).callbacks) : ∃ d' ∈ s.callbacks, d'.slot = d.slot := by
  rcases List.mem_or_eq_of_mem_set hd with hd | rfl
  · exact ⟨d, hd, rfl⟩
  · exact ⟨c, List.mem_of_getElem? hc, rfl⟩

/-- A callback on its way to a slot was there before the step, or the step admits it. -/
theorem slot_step {e : Event} (h : s.step cfg repr e = some s') {d : Callback} {slot : Slot}
    (hd : d ∈ s'.callbacks) (hslot : d.slot = some slot) :
    (∃ d' ∈ s.callbacks, d'.slot = some slot) ∨ slot ∈ admits cfg s e := by
  have herase : ∀ {i : Nat}, d ∈ s.callbacks.eraseIdx i →
      (∃ d' ∈ s.callbacks, d'.slot = some slot) ∨ slot ∈ admits cfg s e :=
    fun hd => .inl ⟨d, List.mem_of_mem_eraseIdx hd, hslot⟩
  have hgoOn : (∃ d' ∈ s.callbacks, d'.slot = d.slot) →
      (∃ d' ∈ s.callbacks, d'.slot = some slot) ∨ slot ∈ admits cfg s e := by
    rintro ⟨d', hd', heq⟩
    exact .inl ⟨d', hd', heq.trans hslot⟩
  cases moves_of_step h with
  | deliver hq hfree =>
    rcases List.mem_append.mp hd with hd | hd
    · exact .inl ⟨d, hd, hslot⟩
    · exact .inr (List.mem_filterMap.mpr ⟨d, hd, hslot⟩)
  | publish hc hp => exact hgoOn (mem_goOn hc hd)
  | ack hc hp => exact hgoOn (mem_goOn (s := s.settle _ _) hc hd)
  | publish_raises hc hp => exact herase hd
  | ack_raises hc hp => exact herase hd
  | resume_none hc hp hs => exact herase hd
  | resume hc hp hs =>
    rw [callbacks_add] at hd
    exact herase hd
  | expire ht =>
    rw [callbacks_expire] at hd
    exact .inl ⟨d, hd, hslot⟩
  | _ => exact .inl ⟨d, hd, hslot⟩

/-- No server with the url counts the id, and no callback is on its way to do so. -/
structure Free (cfg : Settings) (s : State) (slot : Slot) : Prop where
  ids : ∀ server ∈ cfg.VLLM_SERVERS, server.url = slot.1 → slot.2 ∉ s.ids server
  callbacks : ∀ c ∈ s.callbacks, c.slot ≠ some slot

instance (slot : Slot) : Decidable (Free cfg s slot) :=
  decidable_of_iff ((∀ server ∈ cfg.VLLM_SERVERS, server.url = slot.1 → slot.2 ∉ s.ids server) ∧
      ∀ c ∈ s.callbacks, c.slot ≠ some slot)
    ⟨fun h => ⟨h.1, h.2⟩, fun h => ⟨h.ids, h.callbacks⟩⟩

/-- A free slot stays free until a delivery is let through to it. -/
theorem free_step {e : Event} {slot : Slot} (hf : Free cfg s slot)
    (h : s.step cfg repr e = some s') (hadm : slot ∉ admits cfg s e) : Free cfg s' slot := by
  refine ⟨?_, ?_⟩
  · intro server hs hurl hid
    rcases ids_step h server with hsub | ⟨i, c, hc, hserver, _, _, hids⟩
    · exact hf.ids server hs hurl (hsub hid)
    · rw [hids] at hid
      rcases Finset.mem_insert.mp hid with heq | hid
      · apply hf.callbacks c (List.mem_of_getElem? hc)
        rw [Callback.slot, hserver, Option.map_some, hurl, ← heq]
      · exact hf.ids server hs hurl hid
  · intro c hc hslot
    rcases slot_step h hc hslot with ⟨d, hd, hdslot⟩ | hmem
    · exact hf.callbacks d hd hdslot
    · exact hadm hmem

/-- A completion frees its slot, when no callback is on its way to it. -/
theorem free_completion (hsound : Sound cfg s) {e : Event} {slot : Slot}
    (h : s.step cfg repr e = some s') (hmem : slot ∈ completes cfg repr e)
    (hc : ∀ c ∈ s.callbacks, c.slot ≠ some slot) : Free cfg s' slot := by
  cases moves_of_step h with
  | completion hfree =>
    rename_i body
    refine ⟨?_, hc⟩
    intro server hs hurl
    have hslot : completedSlot cfg repr body = some slot := by
      simpa [completes] using hmem
    unfold completedSlot at hslot
    split at hslot
    · cases hslot
    · rename_i data hread
      obtain ⟨used, hused, hslot⟩ := Option.bind_eq_some_iff.mp hslot
      obtain ⟨id, hid, hslot⟩ := Option.bind_eq_some_iff.mp hslot
      cases hslot
      obtain ⟨husedmem, husedurl⟩ := used_server_eq_some_iff.mp hused
      obtain rfl := server_eq_of_url cfg hs husedmem hurl
      have hnames : Names repr body server (strOf repr (getMember data "message_id")) :=
        ⟨data, hread, husedurl, rfl⟩
      have heq := (only_own_slot repr hsound.keys body server hs).1 _ hnames
      rw [State.ids, State.complete, heq, discard, hid]
      exact Finset.notMem_erase _ _
  | _ => cases hmem

/-! ## What every run keeps -/

/-- Every slot that is counted, or that a callback is on its way to, was admitted, and every
reply was to an admitted request. -/
structure SlotsSound (cfg : Settings) (a : Accounted) : Prop where
  sound : Sound cfg a.state
  ids : ∀ server, ∀ id ∈ a.state.ids server, (server.url, id) ∈ a.admitted
  callbacks : ∀ c ∈ a.state.callbacks, ∀ slot, c.slot = some slot → slot ∈ a.admitted
  replied : ∀ slot ∈ a.replied, slot ∈ a.admitted

theorem slotsSound_create (cfg : Settings) : SlotsSound cfg (.create cfg) := by
  refine ⟨sound_create cfg, ?_, ?_, ?_⟩
  · intro server id hid
    rw [Accounted.create, ids_create] at hid
    cases hid
  · intro c hc
    cases hc
  · intro slot hslot
    cases hslot

theorem slotsSound_step {e : Event} (h : SlotsSound cfg a) (hs : a.step cfg repr e = some a') :
    SlotsSound cfg a' := by
  obtain ⟨state, hstep, rfl⟩ := Option.map_eq_some_iff.mp hs
  refine ⟨sound_step h.sound hstep, ?_, ?_, ?_⟩
  · intro server id hid
    apply List.mem_append_left
    rcases ids_step hstep server with hsub | ⟨i, c, hc, hserver, _, _, hids⟩
    · exact h.ids server id (hsub hid)
    · rw [hids] at hid
      rcases Finset.mem_insert.mp hid with rfl | hid
      · apply h.callbacks c (List.mem_of_getElem? hc)
        rw [Callback.slot, hserver, Option.map_some]
      · exact h.ids server id hid
  · intro c hc slot hslot
    rcases slot_step hstep hc hslot with ⟨d, hd, hdslot⟩ | hmem
    · exact List.mem_append_left _ (h.callbacks d hd slot hdslot)
    · exact List.mem_append_right _ hmem
  · intro slot hslot
    apply List.mem_append_left
    rcases List.mem_append.mp hslot with hslot | hslot
    · exact h.replied slot hslot
    · cases e with
      | publish i =>
        obtain ⟨c, hc, hcslot⟩ := Option.bind_eq_some_iff.mp (Option.mem_toList.mp hslot)
        exact h.callbacks c (List.mem_of_getElem? hc) slot hcslot
      | _ => cases hslot

/-! ## The law -/

/-- Each id is admitted once, and the sender completes a request that it has a reply to. -/
def OneLife (cfg : Settings) (repr : Json → PyStr) (a : Accounted) (e : Event) : Prop :=
  (∀ slot ∈ admits cfg a.state e, ∀ old ∈ a.admitted, old.2 ≠ slot.2) ∧
  ∀ slot ∈ completes cfg repr e, slot ∈ a.replied

/-- When a completion comes, the callback that let its request through has ended. -/
def CallbackEnded (cfg : Settings) (repr : Json → PyStr) (a : Accounted) (e : Event) : Prop :=
  ∀ slot ∈ completes cfg repr e, ∀ c ∈ a.state.callbacks, c.slot ≠ some slot

/-- What was completed was admitted, and is free. -/
structure Settled (cfg : Settings) (a : Accounted) : Prop where
  slots : SlotsSound cfg a
  admitted : ∀ slot ∈ a.completed, slot ∈ a.admitted
  free : ∀ slot ∈ a.completed, Free cfg a.state slot

theorem settled_create (cfg : Settings) : Settled cfg (.create cfg) :=
  ⟨slotsSound_create cfg, fun _ h => (by cases h), fun _ h => (by cases h)⟩

theorem settled_step {e : Event} (h : Settled cfg a) (hone : OneLife cfg repr a e)
    (hended : CallbackEnded cfg repr a e) (hs : a.step cfg repr e = some a') :
    Settled cfg a' := by
  have hslots := slotsSound_step h.slots hs
  obtain ⟨state, hstep, rfl⟩ := Option.map_eq_some_iff.mp hs
  refine ⟨hslots, ?_, ?_⟩
  · intro slot hslot
    apply List.mem_append_left
    rcases List.mem_append.mp hslot with hslot | hslot
    · exact h.admitted slot hslot
    · exact h.slots.replied slot (hone.2 slot hslot)
  · intro slot hslot
    rcases List.mem_append.mp hslot with hslot | hslot
    · apply free_step (h.free slot hslot) hstep
      -- an id that is admitted once is not admitted after its completion
      exact fun hadm => hone.1 slot hadm slot (h.admitted slot hslot) rfl
    · exact free_completion h.slots.sound hstep hslot (hended slot hslot)

/-- A completed request is never counted again, and without callbacks and open requests all
sets are empty, in every run in which each completion comes after the end of the callback
that let its request through. -/
theorem a_completed_request_stays_out (cfg : Settings) (repr : Json → PyStr) {es : List Event}
    {a : Accounted} (h : Run (Accounted.step cfg repr)
      (fun a e => OneLife cfg repr a e ∧ CallbackEnded cfg repr a e) (.create cfg) es a) :
    (∀ slot ∈ a.completed, ∀ server ∈ cfg.VLLM_SERVERS, server.url = slot.1 →
      slot.2 ∉ a.state.ids server) ∧
    (a.state.callbacks = [] → (∀ slot ∈ a.admitted, slot ∈ a.completed) →
      ∀ server ∈ cfg.VLLM_SERVERS, a.state.ids server = ∅) := by
  have hinv : Settled cfg a := h.invariant (settled_create cfg)
    fun _ _ _ hi hok hs => settled_step hi hok.1 hok.2 hs
  refine ⟨fun slot hslot => (hinv.free slot hslot).ids, ?_⟩
  intro _ hall server hserver
  rw [Finset.eq_empty_iff_forall_notMem]
  intro id hid
  have hadm := hinv.slots.ids server id hid
  exact (hinv.free _ (hall _ hadm)).ids server hserver rfl hid

instance (a : Accounted) (e : Event) : Decidable (OneLife cfg repr a e) :=
  inferInstanceAs (Decidable (_ ∧ _))

instance (a : Accounted) (e : Event) : Decidable (CallbackEnded cfg repr a e) :=
  inferInstanceAs (Decidable (∀ slot ∈ _, _))

/-- The completion of the request with that id to the one server. -/
def completionOf (id : String) : Event :=
  .completion (completion_message id "now" "model" "user" "http://a")

/-- A request from its delivery to its completion. -/
theorem one_request_leaves_no_id : ∃ a,
    Run (Accounted.step someSettings noRepr)
      (fun a e => OneLife someSettings noRepr a e ∧ CallbackEnded someSettings noRepr a e)
      (.create someSettings)
      [.deliver .main (anyCall "1") 0, .publish 0, .ack 0, .resume 0, completionOf "1"] a ∧
    (∀ slot ∈ a.completed, ∀ server ∈ someSettings.VLLM_SERVERS, server.url = slot.1 →
      slot.2 ∉ a.state.ids server) ∧
    (a.state.callbacks = [] → (∀ slot ∈ a.admitted, slot ∈ a.completed) →
      ∀ server ∈ someSettings.VLLM_SERVERS, a.state.ids server = ∅) := by
  have hsome : (exec (checked (Accounted.step someSettings noRepr)
      fun a e => OneLife someSettings noRepr a e ∧ CallbackEnded someSettings noRepr a e)
      (.create someSettings)
      [.deliver .main (anyCall "1") 0, .publish 0, .ack 0, .resume 0, completionOf "1"]).isSome =
      true := by decide +kernel
  obtain ⟨a, ha⟩ := Option.isSome_iff_exists.mp hsome
  exact ⟨a, run_of_checked ha,
    a_completed_request_stays_out someSettings noRepr (run_of_checked ha)⟩

/-- The completion comes between the reply and the ack: its id is counted after it. -/
theorem an_early_completion_is_overtaken :
    ¬∀ (cfg : Settings) (repr : Json → PyStr) (es : List Event) (a : Accounted),
      Run (Accounted.step cfg repr) (OneLife cfg repr) (.create cfg) es a →
      (∀ slot ∈ a.completed, ∀ server ∈ cfg.VLLM_SERVERS, server.url = slot.1 →
        slot.2 ∉ a.state.ids server) ∧
      (a.state.callbacks = [] → (∀ slot ∈ a.admitted, slot ∈ a.completed) →
        ∀ server ∈ cfg.VLLM_SERVERS, a.state.ids server = ∅) := by
  intro hall
  have hexec : ((exec (checked (Accounted.step someSettings noRepr) (OneLife someSettings noRepr))
      (.create someSettings)
      [.deliver .main (anyCall "1") 0, .publish 0, completionOf "1", .ack 0, .resume 0]).map
        fun a => (a.completed, decide ("1" ∈ a.state.ids ⟨"http://a", none, "org", 1⟩))) =
      some ([("http://a", "1")], true) := by decide +kernel
  obtain ⟨a, ha, hpair⟩ := Option.map_eq_some_iff.mp hexec
  obtain ⟨hcompleted, hcounted⟩ := Prod.mk.inj hpair
  exact (hall someSettings noRepr _ a (run_of_checked ha)).1 ("http://a", "1")
    (by simp [hcompleted]) ⟨"http://a", none, "org", 1⟩ List.mem_cons_self rfl
    (of_decide_eq_true hcounted)

end aristote_dispatcher.rpc_server
