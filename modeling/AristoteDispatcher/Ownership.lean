-- Who is to settle a delivery: each unsettled delivery has at most one callback
-- or requeue task, and each subscription has at most one unsettled delivery.
import AristoteDispatcher.Deliveries

open json (Json PyStr)
open places runs
open aristote_dispatcher.settings aristote_dispatcher.messages

namespace aristote_dispatcher.rpc_server

variable {cfg : Settings} {repr : Json → PyStr} {s s' : State}

/-- The callback is to settle a delivery of the kind. -/
def Callback.owns (p : Subscription × Message → Bool) (c : Callback) : Bool :=
  c.phase ≠ .acked ∧ p (c.subscription, c.message)

/-- The task is to settle a delivery of the kind. -/
def RequeueTask.owns (p : Subscription × Message → Bool) (t : RequeueTask) : Bool :=
  t.acked = false ∧ p (t.subscription, t.call.message)

/-- Of each kind of deliveries there are at least as many as there are callbacks and tasks that
are to settle one. -/
structure Owned (s : State) : Prop where
  owned : ∀ p, s.callbacks.countP (Callback.owns p) + s.requeues.countP (RequeueTask.owns p) ≤
    s.unsettled.countP p
  single : ∀ subscription, s.unsettled.countP (fun d => d.1 = subscription) ≤ 1

theorem owned_create (cfg : Settings) : Owned (.create cfg) :=
  ⟨fun _ => le_rfl, fun _ => Nat.zero_le _⟩

/-- A callback that owns its delivery: the broker has it. -/
theorem Owned.mem_of_callback (h : Owned s) {c : Callback} (hc : c ∈ s.callbacks)
    (hp : c.phase ≠ .acked) : (c.subscription, c.message) ∈ s.unsettled := by
  have hle := h.owned fun d => d = (c.subscription, c.message)
  have hpos : 0 < s.callbacks.countP (Callback.owns fun d => d = (c.subscription, c.message)) :=
    List.countP_pos_iff.mpr ⟨c, hc, by simp [Callback.owns, hp]⟩
  obtain ⟨d, hd, heq⟩ := List.countP_pos_iff.mp (hpos.trans_le ((Nat.le_add_right _ _).trans hle))
  exact of_decide_eq_true heq ▸ hd

theorem Owned.mem_of_requeue (h : Owned s) {t : RequeueTask} (ht : t ∈ s.requeues)
    (hp : t.acked = false) : (t.subscription, t.call.message) ∈ s.unsettled := by
  have hle := h.owned fun d => d = (t.subscription, t.call.message)
  have hpos : 0 < s.requeues.countP
      (RequeueTask.owns fun d => d = (t.subscription, t.call.message)) :=
    List.countP_pos_iff.mpr ⟨t, ht, by simp [RequeueTask.owns, hp]⟩
  obtain ⟨d, hd, heq⟩ := List.countP_pos_iff.mp (hpos.trans_le ((Nat.le_add_left _ _).trans hle))
  exact of_decide_eq_true heq ▸ hd

/-- What a delivery starts owns it, once at most. -/
theorem started_owns (cfg : Settings) (s : State) (subscription : Subscription)
    (message : Message) (random : Nat) (p : Subscription × Message → Bool) :
    (suspended subscription message (s.segment cfg subscription message random).1.stop).countP
        (Callback.owns p) +
      ((s.segment cfg subscription message random).1.tasks.map
        fun call => RequeueTask.mk subscription call false).countP (RequeueTask.owns p) ≤
      if p (subscription, message) then 1 else 0 := by
  obtain ⟨queue, servers, hhandled⟩ := segment_handled cfg s subscription message random
  cases hseg : (s.segment cfg subscription message random).1 with | mk tasks stop
  rw [hseg] at hhandled
  cases hhandled with
  | raises e => simp [suspended]
  | deferred delay => simp [suspended, List.countP_singleton, RequeueTask.owns]
  | answered hs hurl horg hcount => simp [suspended, List.countP_singleton, Callback.owns]
  | refused hrefuses hurl horg hcount => simp [suspended, List.countP_singleton, Callback.owns]

/-- Fewer tasks, and no more deliveries of one subscription. -/
theorem Owned.congr (h : Owned s) (hu : s'.unsettled = s.unsettled)
    (hc : ∀ p, s'.callbacks.countP (Callback.owns p) ≤ s.callbacks.countP (Callback.owns p))
    (ht : ∀ p, s'.requeues.countP (RequeueTask.owns p) ≤ s.requeues.countP (RequeueTask.owns p)) :
    Owned s' := by
  refine ⟨fun p => ?_, hu ▸ h.single⟩
  have := h.owned p
  have := hc p
  have := ht p
  rw [hu]
  omega

theorem owned_deliver (h : Owned s) {subscription : Subscription} {message : Message}
    {random : Nat} (hfree : ∀ d ∈ s.unsettled, d.1 ≠ subscription) :
    Owned (s.deliver cfg subscription message random) := by
  refine ⟨fun p => ?_, fun other => ?_⟩
  · have hle := h.owned p
    have hnew := started_owns cfg s subscription message random p
    simp only [State.deliver, List.countP_append, List.countP_singleton]
    omega
  · have hle := h.single other
    simp only [State.deliver, List.countP_append, List.countP_singleton, decide_eq_true_eq]
    split
    · rename_i heq
      have hzero : s.unsettled.countP (fun d => d.1 = other) = 0 := by
        rw [List.countP_eq_zero]
        intro d hd
        simpa [← heq] using hfree d hd
      omega
    · omega

theorem countP_eraseIdx_le {α : Type*} (p : α → Bool) (xs : List α) (i : Nat) :
    (xs.eraseIdx i).countP p ≤ xs.countP p :=
  (List.eraseIdx_sublist xs i).countP_le

/-- A delivery that is settled goes with the one that owns it. -/
theorem owned_settle (h : Owned s) {d : Subscription × Message} (hd : d ∈ s.unsettled)
    (hu : s'.unsettled = s.unsettled.erase d)
    (hc : ∀ p, s'.callbacks.countP (Callback.owns p) + s'.requeues.countP (RequeueTask.owns p) +
      (if p d then 1 else 0) ≤
        s.callbacks.countP (Callback.owns p) + s.requeues.countP (RequeueTask.owns p)) :
    Owned s' := by
  refine ⟨fun p => ?_, fun subscription => ?_⟩
  · have := h.owned p
    have := hc p
    have := countP_erase p hd
    rw [hu]
    omega
  · rw [hu]
    exact (List.erase_sublist.countP_le).trans (h.single subscription)

theorem owned_step {e : Event} (h : Owned s) (hs : s.step cfg repr e = some s') : Owned s' := by
  cases moves_of_step hs with
  | deliver hq hfree => exact owned_deliver h hfree
  | publish hc hp =>
    refine h.congr rfl (fun p => ?_) fun p => le_rfl
    refine (countP_set_of_eq _ hc ?_).le
    simp [Callback.owns, hp]
  | publish_raises hc hp => exact h.congr rfl (fun p => countP_eraseIdx_le _ _ _) fun p => le_rfl
  | ack_raises hc hp => exact h.congr rfl (fun p => countP_eraseIdx_le _ _ _) fun p => le_rfl
  | resume_none hc hp hserver =>
    exact h.congr rfl (fun p => countP_eraseIdx_le _ _ _) fun p => le_rfl
  | resume hc hp hserver =>
    refine h.congr (unsettled_add _ _) (fun p => ?_) fun p => ?_
    · rw [callbacks_add]
      exact countP_eraseIdx_le _ _ _
    · rw [requeues_add]
      exact le_rfl
  | ack hc hp =>
    rename_i i c
    have hmem := h.mem_of_callback (List.mem_of_getElem? hc) (by simp [hp])
    refine owned_settle h hmem rfl fun p => ?_
    have hset := countP_set_add (y := { c with phase := .acked }) (Callback.owns p) hc
    have hold : Callback.owns p c = p (c.subscription, c.message) := by simp [Callback.owns, hp]
    have hnew : Callback.owns p { c with phase := .acked } = false := by simp [Callback.owns]
    simp only [hold, hnew, Bool.false_eq_true, if_false] at hset
    simp only [State.goOn, State.settle]
    omega
  | requeue_ack ht hp =>
    rename_i i t
    have hmem := h.mem_of_requeue (List.mem_of_getElem? ht) hp
    refine owned_settle h hmem rfl fun p => ?_
    have hset := countP_set_add (y := { t with acked := true }) (RequeueTask.owns p) ht
    have hold : RequeueTask.owns p t = p (t.subscription, t.call.message) := by
      simp [RequeueTask.owns, hp]
    have hnew : RequeueTask.owns p { t with acked := true } = false := by simp [RequeueTask.owns]
    simp only [hold, hnew, Bool.false_eq_true, if_false] at hset
    simp only [State.settle]
    omega
  | requeue_ack_raises ht hp =>
    exact h.congr rfl (fun p => le_rfl) fun p => countP_eraseIdx_le _ _ _
  | requeue_publish ht hp =>
    exact h.congr rfl (fun p => le_rfl) fun p => countP_eraseIdx_le _ _ _
  | requeue_publish_raises ht hp =>
    exact h.congr rfl (fun p => le_rfl) fun p => countP_eraseIdx_le _ _ _
  | expire ht =>
    refine h.congr (unsettled_expire _ _) (fun p => ?_) fun p => ?_
    · rw [callbacks_expire]
    · rw [requeues_expire]
  | _ => exact h.congr rfl (fun p => le_rfl) fun p => le_rfl

/-! ## Deliveries that are handed over -/

/-- The deliveries that a requeue task is to ack. -/
def State.handedOver (s : State) : List (Subscription × Message) :=
  (s.requeues.filter fun t => t.acked = false).map fun t => (t.subscription, t.call.message)

/-- The deliveries that no requeue task took over. -/
def State.notHandedOver (s : State) : List (Subscription × Message) :=
  s.unsettled.filter fun d => d ∉ s.handedOver

theorem Owned.count_handedOver (h : Owned s) (d : Subscription × Message) :
    s.handedOver.count d ≤ s.unsettled.count d ∧ s.unsettled.count d ≤ 1 := by
  refine ⟨?_, ?_⟩
  · have hcount : s.handedOver.count d = s.requeues.countP (RequeueTask.owns (· == d)) := by
      simp only [State.handedOver, List.count, List.countP_map, List.countP_filter]
      refine List.countP_congr fun t _ => ?_
      simp [RequeueTask.owns, and_comm]
    have hle := h.owned (· == d)
    rw [hcount, List.count]
    omega
  · refine le_trans ?_ (h.single d.1)
    refine List.countP_mono_left fun other _ heq => ?_
    simp [eq_of_beq heq]

/-- A delivery is handed over once. -/
theorem Owned.perm_handedOver (h : Owned s) :
    (s.unsettled.filter fun d => d ∈ s.handedOver).Perm s.handedOver := by
  refine List.perm_iff_count.mpr fun d => ?_
  obtain ⟨hle, hone⟩ := h.count_handedOver d
  by_cases hd : d ∈ s.handedOver
  · have hpos := List.count_pos_iff.mpr hd
    rw [List.count_filter (by simpa using hd)]
    omega
  · rw [List.count_eq_zero.mpr hd, List.count_eq_zero]
    intro hmem
    exact hd (by simpa using (List.mem_filter.mp hmem).2)

/-- Each unsettled delivery is handed over or not. -/
theorem Owned.countP_notHandedOver (h : Owned s) (p : Subscription × Message → Bool) :
    s.notHandedOver.countP p + s.handedOver.countP p = s.unsettled.countP p := by
  have hsplit := List.countP_eq_countP_filter_add s.unsettled p fun d => d ∈ s.handedOver
  rw [h.perm_handedOver.countP_eq] at hsplit
  have hnot : s.notHandedOver = s.unsettled.filter fun d => !decide (d ∈ s.handedOver) := by
    simp [State.notHandedOver]
  rw [hnot]
  omega

/-- The delivery of a callback that owns it is not handed over. -/
theorem Owned.notHandedOver_of_callback (h : Owned s) {c : Callback} (hc : c ∈ s.callbacks)
    (hp : c.phase ≠ .acked) : (c.subscription, c.message) ∈ s.notHandedOver := by
  refine List.mem_filter.mpr ⟨h.mem_of_callback hc hp, ?_⟩
  have hle := h.owned fun d => d = (c.subscription, c.message)
  have hone := h.count_handedOver (c.subscription, c.message)
  have hpos : 0 < s.callbacks.countP (Callback.owns fun d => d = (c.subscription, c.message)) :=
    List.countP_pos_iff.mpr ⟨c, hc, by simp [Callback.owns, hp]⟩
  have hsame : s.unsettled.countP (fun d => decide (d = (c.subscription, c.message))) =
      s.unsettled.count (c.subscription, c.message) := by
    refine List.countP_congr fun d _ => ?_
    simp
  simp only [decide_not, Bool.not_eq_eq_eq_not, Bool.not_true, decide_eq_false_iff_not]
  intro hmem
  obtain ⟨t, ht, heq⟩ := List.mem_map.mp hmem
  have htask : 0 < s.requeues.countP
      (RequeueTask.owns fun d => d = (c.subscription, c.message)) := by
    refine List.countP_pos_iff.mpr ⟨t, List.mem_of_mem_filter ht, ?_⟩
    simpa [RequeueTask.owns, heq] using (List.mem_filter.mp ht).2
  omega

/-- What is handed over and not settled stays so, unless the ack of its task raises. -/
theorem handedOver_step {e : Event} (ho : Owned s) (hs : s.step cfg repr e = some s')
    (hok : ∀ i, e ≠ .requeue_ack_raises i) {d : Subscription × Message} (hd : d ∈ s.handedOver)
    (hd' : d ∈ s'.unsettled) : d ∈ s'.handedOver := by
  obtain ⟨t, ht, rfl⟩ := List.mem_map.mp hd
  obtain ⟨ht, hacked⟩ := List.mem_filter.mp ht
  have hacked : t.acked = false := by simpa using hacked
  have hkeep : t ∈ s'.requeues → (t.subscription, t.call.message) ∈ s'.handedOver :=
    fun ht => List.mem_map.mpr ⟨t, List.mem_filter.mpr ⟨ht, by simpa using hacked⟩, rfl⟩
  cases moves_of_step hs with
  | deliver hq hfree => exact hkeep (List.mem_append_left _ ht)
  | requeue_ack hu hp =>
    rename_i i u
    by_cases heq : t = u
    · -- its delivery is settled, and there was only one
      subst heq
      have hone := (ho.count_handedOver (t.subscription, t.call.message)).2
      have hpos := List.count_pos_iff.mpr hd'
      simp only [State.settle, List.count_erase_self] at hpos
      omega
    · exact hkeep (mem_set_of_ne hu ht heq)
  | requeue_ack_raises hu hp => exact absurd rfl (hok _)
  | requeue_publish hu hp =>
    refine hkeep (mem_eraseIdx_of_ne hu ht ?_)
    rintro rfl
    rw [hacked] at hp
    cases hp
  | requeue_publish_raises hu hp =>
    refine hkeep (mem_eraseIdx_of_ne hu ht ?_)
    rintro rfl
    rw [hacked] at hp
    cases hp
  | resume hc hp hserver => exact hkeep (by rw [requeues_add]; exact ht)
  | expire hx => exact hkeep (by rw [requeues_expire]; exact ht)
  | _ => exact hkeep ht

end aristote_dispatcher.rpc_server
