-- The slots of a consumer as leases (rpc_server.py: `current_parallel_requests` and
-- `_expire_request`). With a clock, a counted request was granted a slot within
-- VLLM_TREATMENT_TIMEOUT_SECONDS and was not completed since, and it stays counted for that
-- long. The sets of ids and the timers of a consumer step as a book of leases does.
import AristoteDispatcher.Lib.Leases
import AristoteDispatcher.Lib.Logged
import AristoteDispatcher.Lib.Simulation
import AristoteDispatcher.Timers

open json (Json PyStr getMember)
open pydict runs places
open leases (Book Entry standing)
open aristote_dispatcher.settings aristote_dispatcher.messages

namespace aristote_dispatcher.rpc_server

variable {cfg : Settings} {repr : Json → PyStr} {s s' : State}

/-- The id that a completion takes out of the set of a server. -/
def discarded (cfg : Settings) (repr : Json → PyStr) : Event → Option (VLLMServer × String)
  | .completion body =>
    match readMembers body with
    | .error _ => none
    | .ok data => do
      let server ← used_server cfg (getMember data "server")
      let id ← (strOf repr (getMember data "message_id")).toString?
      some (server, id)
  | _ => none

/-- A consumer and its clock. Each `_expire_request` task stands with the time it started. -/
structure Leased where
  state : State
  now : Nat
  started : List Nat

def Leased.create (cfg : Settings) : Leased := ⟨.create cfg, 0, []⟩

/-- Time passes, or the consumer goes on. -/
inductive LeasedEvent
  | tick (n : Nat)
  | consumer (e : Event)

/-- The sleep of a timer that fires is over. -/
def Leased.isDue (VLLM_TREATMENT_TIMEOUT_SECONDS : Nat) (l : Leased) : Event → Bool
  | .expire i => l.started[i]?.any fun t => t + VLLM_TREATMENT_TIMEOUT_SECONDS ≤ l.now
  | _ => true

def Leased.startedAfter (l : Leased) (state : State) : Event → List Nat
  | .expire i => l.started.eraseIdx i
  | _ => l.started ++ (state.timers.drop l.state.timers.length).map fun _ => l.now

def Leased.after (l : Leased) (state : State) (e : Event) : Leased :=
  { l with state := state, started := l.startedAfter state e }

/-- The loop wakes a timer at most `lag` seconds late. -/
def Leased.step (cfg : Settings) (repr : Json → PyStr) (VLLM_TREATMENT_TIMEOUT_SECONDS lag : Nat)
    (l : Leased) : LeasedEvent → Option Leased
  | .tick n =>
    if ∀ t ∈ l.started, l.now + n ≤ t + VLLM_TREATMENT_TIMEOUT_SECONDS + lag then
      some { l with now := l.now + n }
    else none
  | .consumer e =>
    if l.isDue VLLM_TREATMENT_TIMEOUT_SECONDS e then
      (l.state.step cfg repr e).map fun state => l.after state e
    else none

/-- What an event does with a slot. -/
def Leased.entries (cfg : Settings) (repr : Json → PyStr) (l : Leased) :
    LeasedEvent → List (Entry (VLLMServer × String))
  | .tick _ => []
  | .consumer e =>
    match addition l.state e with
    | some slot => [.granted slot l.now]
    | none => ((discarded cfg repr e).map .released).toList

/-- The machine that writes down the grants and the completions. -/
def Leased.logged (cfg : Settings) (repr : Json → PyStr)
    (VLLM_TREATMENT_TIMEOUT_SECONDS lag : Nat) :
    Logged Leased (Entry (VLLMServer × String)) → LeasedEvent →
      Option (Logged Leased (Entry (VLLMServer × String))) :=
  runs.logged (Leased.step cfg repr VLLM_TREATMENT_TIMEOUT_SECONDS lag) (Leased.entries cfg repr)

/-- The book of leases that a consumer is. -/
def bookOf (l : Logged Leased (Entry (VLLMServer × String))) : Book (VLLMServer × String) where
  held := { slot | slot.2 ∈ l.state.state.ids slot.1 }
  timers := l.state.state.timers.zip l.state.started
  now := l.state.now
  history := l.log

/-! ## What a step does with the sets -/

/-- A completion that names a server and an id takes this id out of the set of this server. -/
theorem ids_complete_of_discarded {body : ByteArray} {server : VLLMServer} {id : String}
    (h : discarded cfg repr (.completion body) = some (server, id)) (k : VLLMServer) :
    (s.complete cfg repr body).ids k = if k = server then (s.ids k).erase id else s.ids k := by
  unfold discarded at h
  dsimp only at h
  split at h
  · cases h
  · rename_i data hread
    obtain ⟨used, hused, h⟩ := Option.bind_eq_some_iff.mp h
    obtain ⟨id', hid, h⟩ := Option.bind_eq_some_iff.mp h
    cases h
    simp only [State.complete, State.ids, on_completion_callback, hread, hused]
    split
    · rename_i hnone
      split
      · rename_i hk
        subst hk
        simp [Dict.get, hnone]
      · rfl
    · rename_i ids hids
      rw [get_insert, discard, hid]
      split
      · rename_i hk
        subst hk
        rw [get_of_lookup hids]
      · rfl

/-- Any other completion takes none. -/
theorem ids_complete_of_none {body : ByteArray}
    (h : discarded cfg repr (.completion body) = none) (k : VLLMServer) :
    (s.complete cfg repr body).ids k = s.ids k := by
  simp only [State.complete, State.ids, on_completion_callback]
  cases hread : readMembers body with
  | error e => rfl
  | ok data =>
    simp only [discarded, hread] at h
    dsimp only
    cases hused : used_server cfg (getMember data "server") with
    | none => rfl
    | some server =>
      dsimp only
      split
      · rfl
      · rename_i ids hids
        have hid : (strOf repr (getMember data "message_id")).toString? = none := by
          rw [Option.eq_none_iff_forall_ne_some]
          simpa [hused] using h
        rw [get_insert, discard, hid]
        split
        · rename_i hk
          subst hk
          rw [get_of_lookup hids]
        · rfl

/-- A step that counts no id, takes none out and fires no timer leaves the sets and the timers. -/
theorem same_of_quiet {e : Event} (h : s.step cfg repr e = some s') (ha : addition s e = none)
    (hd : discarded cfg repr e = none) (hexpire : ∀ i, e ≠ .expire i) :
    s'.timers = s.timers ∧ ∀ k, s'.ids k = s.ids k := by
  refine ⟨(keeps_of_no_addition h ha hexpire).1, fun k => ?_⟩
  cases moves_of_step h with
  | resume hc hp hs =>
    rename_i i c server
    have hnone : (s.finish i).current_parallel_requests.lookup server = none := by
      rw [Option.eq_none_iff_forall_ne_some]
      simpa [addition, hc, hs, State.finish] using ha
    unfold State.add
    rw [hnone]
    rfl
  | completion hfree => exact ids_complete_of_none hd k
  | expire ht =>
    rename_i i server id
    exact absurd rfl (hexpire i)
  | _ => rfl

/-! ## The steps as those of a book -/

variable {term lag : Nat} {l l' : Logged Leased (Entry (VLLMServer × String))}

/-- Each timer has its time. -/
def Paired (l : Leased) : Prop := l.started.length = l.state.timers.length

theorem startedAfter_of_ne {l : Leased} {e : Event} (hexpire : ∀ i, e ≠ .expire i)
    (state : State) : l.startedAfter state e =
      l.started ++ (state.timers.drop l.state.timers.length).map fun _ => l.now := by
  unfold Leased.startedAfter
  split
  · exact absurd rfl (hexpire _)
  · rfl

theorem paired_step {e : LeasedEvent} {l l' : Leased} (h : Paired l)
    (hs : l.step cfg repr term lag e = some l') : Paired l' := by
  cases e with
  | tick n =>
    obtain ⟨_, hs⟩ := Option.ite_none_right_eq_some.mp hs
    cases hs
    exact h
  | consumer e =>
    obtain ⟨_, hs⟩ := Option.ite_none_right_eq_some.mp hs
    obtain ⟨state, hstep, rfl⟩ := Option.map_eq_some_iff.mp hs
    unfold Paired at h ⊢
    rw [Leased.after]
    by_cases hexpire : ∃ i, e = .expire i
    · obtain ⟨i, rfl⟩ := hexpire
      cases moves_of_step hstep with
      | expire ht =>
        simp only [Leased.startedAfter, timers_expire, List.length_eraseIdx, h]
    · have hnot : ∀ i, e ≠ .expire i := fun i heq => hexpire ⟨i, heq⟩
      rw [startedAfter_of_ne hnot, List.length_append, List.length_map, List.length_drop, h]
      cases ha : addition l.state e with
      | none => rw [(keeps_of_no_addition hstep ha hnot).1]; omega
      | some slot =>
        obtain ⟨counted, added⟩ := slot
        rw [(counts_of_addition hstep ha).1, List.length_append]
        omega

theorem zip_eraseIdx {α β : Type*} (xs : List α) (ys : List β) (i : Nat) :
    (xs.eraseIdx i).zip (ys.eraseIdx i) = (xs.zip ys).eraseIdx i := by
  induction xs generalizing ys i with
  | nil => simp
  | cons x xs ih =>
    cases ys with
    | nil => simp
    | cons y ys =>
      cases i with
      | zero => rfl
      | succ i => simp [ih]

variable {state : State} {log : List (Entry (VLLMServer × String))} {c : Leased}

/-- The slot of a set whose ids are the same but one. -/
theorem mem_erase_iff {server : VLLMServer} {id : String} (slot : VLLMServer × String)
    (hids : ∀ k, s'.ids k = if k = server then (s.ids k).erase id else s.ids k) :
    slot.2 ∈ s'.ids slot.1 ↔ slot.2 ∈ s.ids slot.1 ∧ slot ≠ (server, id) := by
  rw [hids, ne_eq, Prod.ext_iff]
  split
  · rename_i hk
    rw [Finset.mem_erase, and_comm, ne_eq, and_iff_right hk]
  · rename_i hk
    exact (and_iff_left fun heq => hk heq.1).symm

/-- A timer of the consumer fires as that of the book. -/
theorem fires {i : Nat} (hdue : c.isDue term (.expire i) = true)
    (hstep : c.state.step cfg repr (.expire i) = some state) :
    (bookOf ⟨c, log⟩).step term lag (.fire i) =
      some (bookOf ⟨c.after state (.expire i), log⟩) := by
  simp only [Leased.isDue, Option.any_eq_true, decide_eq_true_eq] at hdue
  obtain ⟨t, ht, hover⟩ := hdue
  cases moves_of_step hstep with
  | expire htimer =>
    rename_i server id
    have hplace : (bookOf ⟨c, log⟩).timers[i]? = some ((server, id), t) :=
      List.getElem?_zip_eq_some.mpr ⟨htimer, ht⟩
    obtain ⟨waiting, hwaiting⟩ : ∃ waiting : State,
      waiting = { c.state with timers := c.state.timers.eraseIdx i } := ⟨_, rfl⟩
    have hids : ∀ k, (waiting.expire server id).ids k =
        if k = server then (c.state.ids k).erase id else c.state.ids k := by
      intro k
      rw [ids_expire, hwaiting]
      rfl
    have hheld : (bookOf ⟨c, log⟩).held \ {(server, id)} =
        { slot | slot.2 ∈ (waiting.expire server id).ids slot.1 } := by
      ext slot
      exact (mem_erase_iff slot hids).symm
    rw [← hwaiting]
    have hnow : t + term ≤ (bookOf ⟨c, log⟩).now := hover
    simp only [Book.step, hplace, Option.bind_some, if_pos hnow, hheld]
    simp only [bookOf, Leased.after, Leased.startedAfter, timers_expire, hwaiting, zip_eraseIdx]

/-- A callback that counts its id is a grant. -/
theorem grants {e : Event} {slot : VLLMServer × String} (h : Paired c)
    (hstep : c.state.step cfg repr e = some state) (ha : addition c.state e = some slot) :
    (bookOf ⟨c, log⟩).step term lag (.grant slot) =
      some (bookOf ⟨c.after state e, log ++ [.granted slot c.now]⟩) := by
  obtain ⟨server, id⟩ := slot
  obtain ⟨htimers, hids⟩ := counts_of_addition hstep ha
  have hnot : ∀ i, e ≠ .expire i := by
    rintro i rfl
    cases ha
  have hheld : insert (server, id) (bookOf ⟨c, log⟩).held =
      { slot | slot.2 ∈ state.ids slot.1 } := by
    ext slot
    simp only [Set.mem_insert_iff, bookOf, Set.mem_ofPred_eq, hids, Prod.ext_iff]
    split
    · rename_i hk
      rw [Finset.mem_insert, and_iff_right hk]
    · rename_i hk
      exact or_iff_right fun heq => hk heq.1
  rw [Book.step, hheld]
  simp only [bookOf, Leased.after, startedAfter_of_ne hnot, htimers, List.drop_left,
    List.map_singleton, List.zip_append h.symm, List.zip_cons_cons, List.zip_nil_right]

/-- A completion that names a slot is its release. -/
theorem releases {e : Event} {slot : VLLMServer × String}
    (hstep : c.state.step cfg repr e = some state) (hd : discarded cfg repr e = some slot) :
    (bookOf ⟨c, log⟩).step term lag (.release slot) =
      some (bookOf ⟨c.after state e, log ++ [.released slot]⟩) := by
  obtain ⟨server, id⟩ := slot
  cases moves_of_step hstep with
  | completion hfree =>
    rename_i body
    have hheld : (bookOf ⟨c, log⟩).held \ {(server, id)} =
        { slot | slot.2 ∈ (c.state.complete cfg repr body).ids slot.1 } := by
      ext slot
      exact (mem_erase_iff slot (ids_complete_of_discarded hd)).symm
    have htimers : (c.state.complete cfg repr body).timers = c.state.timers := rfl
    rw [Book.step, hheld]
    simp only [bookOf, Leased.after, Leased.startedAfter, htimers, List.drop_length,
      List.map_nil, List.append_nil]
  | _ => cases hd

/-- Every step of the consumer is one of the book, or none. -/
theorem book_step {e : LeasedEvent} (h : Paired l.state)
    (hs : Leased.logged cfg repr term lag l e = some l') :
    ∃ es, Run (Book.step term lag) Any (bookOf l) es (bookOf l') := by
  obtain ⟨c, log⟩ := l
  obtain ⟨c', log'⟩ := l'
  obtain ⟨hs, hlog⟩ := logged_eq_some hs
  dsimp only at hs hlog h
  cases e with
  | tick n =>
    obtain ⟨hn, hs⟩ := Option.ite_none_right_eq_some.mp hs
    cases hs
    simp only [Leased.entries, List.append_nil] at hlog
    subst hlog
    refine ⟨[.tick n], .single trivial ?_⟩
    have hall : ∀ t ∈ (bookOf ⟨c, log'⟩).timers, (bookOf ⟨c, log'⟩).now + n ≤ t.2 + term + lag :=
      fun t ht => hn t.2 (List.of_mem_zip ht).2
    rw [Book.step, if_pos hall]
    rfl
  | consumer e =>
    obtain ⟨hdue, hs⟩ := Option.ite_none_right_eq_some.mp hs
    obtain ⟨state, hstep, heq⟩ := Option.map_eq_some_iff.mp hs
    have hc' : c' = c.after state e := heq.symm
    subst hc'
    simp only [Leased.entries] at hlog
    cases ha : addition c.state e with
    | some slot =>
      simp only [ha] at hlog
      subst hlog
      exact ⟨[.grant slot], .single trivial (grants h hstep ha)⟩
    | none =>
      simp only [ha] at hlog
      cases hd : discarded cfg repr e with
      | some slot =>
        simp only [hd, Option.map_some, Option.toList_some] at hlog
        subst hlog
        exact ⟨[.release slot], .single trivial (releases hstep hd)⟩
      | none =>
        simp only [hd, Option.map_none, Option.toList_none, List.append_nil] at hlog
        subst hlog
        by_cases hexpire : ∃ i, e = .expire i
        · obtain ⟨i, rfl⟩ := hexpire
          exact ⟨[.fire i], .single trivial (fires hdue hstep)⟩
        · have hnot : ∀ i, e ≠ .expire i := fun i heq => hexpire ⟨i, heq⟩
          obtain ⟨htimers, hids⟩ := same_of_quiet hstep ha hd hnot
          have hsame : bookOf ⟨c.after state e, log'⟩ = bookOf ⟨c, log'⟩ := by
            simp [bookOf, Leased.after, startedAfter_of_ne hnot, htimers, hids]
          rw [hsame]
          exact ⟨[], .nil⟩

/-! ## The law -/

theorem book_create (cfg : Settings) : bookOf (.start (.create cfg)) = .empty := by
  have hheld : { slot : VLLMServer × String | slot.2 ∈ (State.create cfg).ids slot.1 } = ∅ := by
    ext slot
    rw [Set.mem_ofPred_eq, ids_create]
    exact iff_of_false (Finset.notMem_empty _) (Set.notMem_empty _)
  rw [bookOf, Logged.start, Leased.create, hheld]
  rfl

theorem sound_book {es : List LeasedEvent}
    (h : Run (Leased.logged cfg repr term lag) Any (.start (.create cfg)) es l) :
    leases.Sound term lag (bookOf l) := by
  have hpaired : ∀ {es l}, Run (Leased.logged cfg repr term lag) Any (.start (.create cfg)) es l →
      Paired l.state := by
    intro es l hrun
    have hcreate : Paired (.create cfg) := rfl
    have hstate : Run (Leased.step cfg repr term lag) Any (.create cfg) es l.state :=
      hrun.state_of_logged
    exact hstate.invariant hcreate fun _ _ _ hi _ hs => paired_step hi hs
  obtain ⟨moves, hbook⟩ := h.simulation bookOf fun es l e l' hrun _ hs =>
    book_step (hpaired hrun) hs
  rw [book_create] at hbook
  exact leases.sound_run hbook

/-- In every run, at every await: a counted id was granted its slot within the timeout (and the
lag of the loop), and no completion took it since; an id that no completion took since its last
grant is counted while the timeout of none of its grants is over; and a server counts no more
requests than were granted to it within the timeout. -/
theorem slots_are_leases (cfg : Settings) (repr : Json → PyStr)
    (VLLM_TREATMENT_TIMEOUT_SECONDS lag : Nat) {es : List LeasedEvent}
    {l : Logged Leased (Entry (VLLMServer × String))}
    (h : Run (Leased.logged cfg repr VLLM_TREATMENT_TIMEOUT_SECONDS lag) Any
      (.start (.create cfg)) es l) :
    (∀ server id, id ∈ l.state.state.ids server → ∃ t, standing l.log (server, id) = some t ∧
      l.state.now ≤ t + VLLM_TREATMENT_TIMEOUT_SECONDS + lag) ∧
    (∀ server id t, standing l.log (server, id) = some t →
      (∀ t', .granted (server, id) t' ∈ l.log →
        l.state.now < t' + VLLM_TREATMENT_TIMEOUT_SECONDS) → id ∈ l.state.state.ids server) ∧
    ∀ server, l.state.state.count server ≤
      (l.log.filterMap (Entry.recent? (VLLM_TREATMENT_TIMEOUT_SECONDS + lag) l.state.now)).countP
        (·.1 = server) := by
  have hbook := sound_book h
  refine ⟨fun server id hid => hbook.standing_of_held hid,
    fun server id t hstands hrecent => hbook.held_of_standing hstands hrecent, fun server => ?_⟩
  obtain ⟨recent, hrecent⟩ : ∃ recent, recent = l.log.filterMap
      (Entry.recent? (VLLM_TREATMENT_TIMEOUT_SECONDS + lag) l.state.now) := ⟨_, rfl⟩
  have hsub : l.state.state.ids server ⊆
      ((recent.filter (·.1 = server)).map Prod.snd).toFinset := by
    intro id hid
    have hmem : (server, id) ∈ recent := hrecent ▸ hbook.mem_recent_of_held hid
    rw [List.mem_toFinset, List.mem_map]
    exact ⟨_, List.mem_filter.mpr ⟨hmem, by simp⟩, rfl⟩
  rw [← hrecent, List.countP_eq_length_filter, ← List.length_map Prod.snd]
  exact (Finset.card_le_card hsub).trans (List.toFinset_card_le _)

/-- A request is served, its completion is lost, and its timer fires after ten seconds. -/
def servedAndExpired : List LeasedEvent :=
  [.consumer (.deliver .main (anyCall "1") 0), .consumer (.publish 0), .consumer (.ack 0),
    .consumer (.resume 0), .tick 10, .consumer (.expire 0)]

theorem an_expired_slot_is_free : ∃ l,
    exec (Leased.logged (oneServerSettings .round_robin .warning_log) noRepr 10 0)
      (.start (.create (oneServerSettings .round_robin .warning_log))) servedAndExpired = some l ∧
    l.state.state.count ⟨"http://a", none, "org", 1⟩ ≤
      (l.log.filterMap (Entry.recent? 10 l.state.now)).countP
        (·.1 = ⟨"http://a", none, "org", 1⟩) := by
  have hexec : (exec (Leased.logged (oneServerSettings .round_robin .warning_log) noRepr 10 0)
      (.start (.create (oneServerSettings .round_robin .warning_log)))
      servedAndExpired).isSome = true := by decide +kernel
  obtain ⟨l, hl⟩ := Option.isSome_iff_exists.mp hexec
  exact ⟨l, hl, (slots_are_leases (oneServerSettings .round_robin .warning_log) noRepr 10 0
    (run_of_exec hl)).2.2 _⟩

end aristote_dispatcher.rpc_server
