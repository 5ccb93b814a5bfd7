-- Rolling the revisions back, from any data that the commands and the metrics leave. The
-- foreign key that one revision takes away is what the way back needs again, and a deleted
-- user leaves its metrics.
import AristoteDispatcher.Tables

open runs keyed sql alembic pyfloat
open aristote_dispatcher.manage_users

namespace aristote_dispatcher.migrations

/-! ## The schemas on the way down -/

def at_5dd94aeafd3c : Schema Value := after head add_organization_fields_to_metrics_table.downgrade

def at_8e1d058df426 : Schema Value := after at_5dd94aeafd3c decouple_tables.downgrade

def at_fa7a30b960b4 : Schema Value :=
  after at_8e1d058df426 add_routing_mode_column_to_metrics_table.downgrade

def at_c63af0f18c5d : Schema Value := after at_fa7a30b960b4 add_fields_to_metric_entity.downgrade

def at_9cf7cf124677 : Schema Value := after at_c63af0f18c5d default_routing_mode.downgrade

def fk_user_name : Constraint := .foreign_key "fk_user_name" "user_name" "users" "name"

theorem smooth_head : Smooth head add_organization_fields_to_metrics_table.downgrade
    at_5dd94aeafd3c :=
  ⟨by decide +kernel, by decide +kernel, rfl, by decide +kernel⟩

theorem alter_5dd94aeafd3c :
    at_5dd94aeafd3c.add_constraint "metrics" fk_user_name = .ok at_8e1d058df426 := rfl

theorem versioned_8e1d058df426 : Versioned at_8e1d058df426 := by decide +kernel

theorem smooth_8e1d058df426 : Smooth at_8e1d058df426
    add_routing_mode_column_to_metrics_table.downgrade at_fa7a30b960b4 :=
  ⟨by decide +kernel, by decide +kernel, rfl, by decide +kernel⟩

theorem smooth_fa7a30b960b4 : Smooth at_fa7a30b960b4 add_fields_to_metric_entity.downgrade
    at_c63af0f18c5d :=
  ⟨by decide +kernel, by decide +kernel, rfl, by decide +kernel⟩

theorem smooth_c63af0f18c5d : Smooth at_c63af0f18c5d default_routing_mode.downgrade
    at_9cf7cf124677 :=
  ⟨by decide +kernel, by decide +kernel, rfl, by decide +kernel⟩

theorem climb_9cf7cf124677 : climb at_9cf7cf124677 versions.tail = some head := rfl

/-! ## What a rollback must keep -/

/-- The columns of the first revision. -/
def initialColumns (t : Table Value) : List String := t.columns.map (·.name)

/-- Every row is still there, with the values of the columns of the first revision. -/
structure KeepsInitial (db db' : Database Value) : Prop where
  users : Kept (initialColumns initial_users) (db.rows "users") (db'.rows "users")
  metrics : Kept (initialColumns initial_metrics) (db.rows "metrics") (db'.rows "metrics")

/-- The script leaves these columns. -/
def leavesInitial (ss : List (Statement Value)) : Bool :=
  ss.all fun s => s.leaves "users" (initialColumns initial_users) &&
    s.leaves "metrics" (initialColumns initial_metrics)

/-- Each downgrade from the last to the first revision succeeds, and so does the upgrade to the
last one again, with every row of before. -/
def RollsBack (db : Database Value) : Prop :=
  ∃ initial db', downgrades .text versions 5 db = .ok initial ∧
    At .text "9cf7cf124677" at_9cf7cf124677 initial ∧
    upgrade_head .text versions initial = .ok db' ∧ At .text "212c4b4d9489" head db' ∧
    KeepsInitial db db'

variable {db db' db'' : Database Value} {schema schema' : Schema Value}
  {source target : String} {r : Revision Value} {rs : List (Revision Value)}
  {ss : List (Statement Value)}

theorem KeepsInitial.trans (h : KeepsInitial db db') (h' : KeepsInitial db' db'') :
    KeepsInitial db db'' :=
  ⟨h.users.trans h'.users, h.metrics.trans h'.metrics⟩

theorem keepsInitial_of_passed (h : Passed .text target schema ss db db')
    (hleaves : leavesInitial ss = true) : KeepsInitial db db' := by
  have hall : ∀ s ∈ ss, s.leaves "users" (initialColumns initial_users) = true ∧
      s.leaves "metrics" (initialColumns initial_metrics) = true :=
    fun s hs => Bool.and_eq_true_iff.mp (List.all_eq_true.mp hleaves s hs)
  exact ⟨h.kept _ _ (by decide) fun s hs => (hall s hs).1,
    h.kept _ _ (by decide) fun s hs => (hall s hs).2⟩

/-- One smooth downgrade. -/
theorem downgrade_smooth (h : At .text r.revision schema db) (hv : Versioned schema)
    (hrs : versions.dropWhile (fun r' => r.revision ≠ r'.revision) = r :: rs)
    (hdown : r.down_revision = some target) (hs : Smooth schema r.downgrade schema')
    (hleaves : leavesInitial r.downgrade = true) :
    ∃ db', downgrade .text versions db = .ok db' ∧ At .text target schema' db' ∧
      KeepsInitial db db' := by
  obtain ⟨db', hrun, hpassed⟩ := run_smooth target h hs
  refine ⟨db', ?_, hpassed.at_target, keepsInitial_of_passed hpassed hleaves⟩
  rw [downgrade_of_at text_injective h hv hrs, Revision.down, hdown]
  exact hrun

/-- The foreign key reads columns of the first revision. -/
theorem holds_of_keepsInitial (h : KeepsInitial db db') :
    fk_user_name.Holds (valuesOf db'.rows) "metrics" ↔
      fk_user_name.Holds (valuesOf db.rows) "metrics" := by
  have hmetrics : valuesOf db'.rows "metrics" "user_name" =
      valuesOf db.rows "metrics" "user_name" := h.metrics.map_eq (by decide)
  have husers : valuesOf db'.rows "users" "name" = valuesOf db.rows "users" "name" :=
    h.users.map_eq (by decide)
  simp only [fk_user_name, Constraint.Holds, hmetrics, husers]

/-- The downgrade that creates the foreign key asks that it holds. -/
theorem downgrade_decouple_tables (h : At .text "5dd94aeafd3c" at_5dd94aeafd3c db)
    (hk : fk_user_name.Holds (valuesOf db.rows) "metrics") :
    ∃ db', downgrade .text versions db = .ok db' ∧
      At .text "8e1d058df426" at_8e1d058df426 db' ∧ KeepsInitial db db' := by
  rw [downgrade_of_at text_injective h smooth_head.versioned rfl]
  obtain ⟨db', hrun, hpassed⟩ := run_add_constraint "8e1d058df426" h
    alter_5dd94aeafd3c versioned_8e1d058df426 hk
  exact ⟨db', hrun, hpassed.at_target, keepsInitial_of_passed hpassed (by decide)⟩

theorem holds_of_downgrade (h : At .text "5dd94aeafd3c" at_5dd94aeafd3c db)
    (hdown : downgrade .text versions db = .ok db') :
    fk_user_name.Holds (valuesOf db.rows) "metrics" := by
  rw [downgrade_of_at text_injective h smooth_head.versioned rfl] at hdown
  exact holds_of_run_add_constraint h alter_5dd94aeafd3c hdown

theorem downgrades_succ {n : Nat} : downgrades .text versions (n + 1) db = .ok db'' ↔
    ∃ db', downgrade .text versions db = .ok db' ∧ downgrades .text versions n db' = .ok db'' := by
  rw [downgrades]
  cases downgrade .text versions db with
  | error e => simp
  | ok db' => simp

/-- The way down to the first revision, where the foreign key holds. -/
theorem downgrades_of_holds (h : At .text "5dd94aeafd3c" at_5dd94aeafd3c db)
    (hk : fk_user_name.Holds (valuesOf db.rows) "metrics") :
    ∃ initial, downgrades .text versions 4 db = .ok initial ∧
      At .text "9cf7cf124677" at_9cf7cf124677 initial ∧ KeepsInitial db initial := by
  obtain ⟨db3, h3, hat3, hkeeps3⟩ := downgrade_decouple_tables h hk
  obtain ⟨db2, h2, hat2, hkeeps2⟩ := downgrade_smooth
    (r := add_routing_mode_column_to_metrics_table) hat3 versioned_8e1d058df426 rfl rfl
    smooth_8e1d058df426 (by decide)
  obtain ⟨db1, h1, hat1, hkeeps1⟩ := downgrade_smooth (r := add_fields_to_metric_entity) hat2
    smooth_8e1d058df426.versioned rfl rfl smooth_fa7a30b960b4 (by decide)
  obtain ⟨db0, h0, hat0, hkeeps0⟩ := downgrade_smooth (r := default_routing_mode) hat1
    smooth_fa7a30b960b4.versioned rfl rfl smooth_c63af0f18c5d (by decide)
  refine ⟨db0, ?_, hat0, hkeeps3.trans (hkeeps2.trans (hkeeps1.trans hkeeps0))⟩
  exact downgrades_succ.mpr ⟨db3, h3, downgrades_succ.mpr ⟨db2, h2,
    downgrades_succ.mpr ⟨db1, h1, downgrades_succ.mpr ⟨db0, h0, rfl⟩⟩⟩⟩

/-- The way up again. -/
theorem upgrade_from_initial (h : At .text "9cf7cf124677" at_9cf7cf124677 db) :
    ∃ db', upgrade_head .text versions db = .ok db' ∧ At .text "212c4b4d9489" head db' ∧
      KeepsInitial db db' := by
  have hchained : chained (some "9cf7cf124677") versions.tail = true :=
    (Bool.and_eq_true_iff.mp chained_versions).2
  obtain ⟨db', hrun, hpassed⟩ := run_climb h hchained climb_9cf7cf124677
  refine ⟨db', ?_, hpassed.at_target, keepsInitial_of_passed hpassed (by decide +kernel)⟩
  rw [upgrade_head_of_at text_injective h smooth_c63af0f18c5d.versioned rfl]
  exact hrun

/-- A database at the last revision rolls back exactly if the foreign key holds of its rows. -/
theorem rollsBack_iff_holds (h : At .text "212c4b4d9489" head db) :
    RollsBack db ↔ fk_user_name.Holds (valuesOf db.rows) "metrics" := by
  obtain ⟨db4, h4, hat4, hkeeps4⟩ := downgrade_smooth
    (r := add_organization_fields_to_metrics_table) h versioned_head rfl rfl smooth_head (by decide)
  rw [← holds_of_keepsInitial hkeeps4]
  constructor
  · rintro ⟨initial, db', hdown, _⟩
    obtain ⟨db4', h4', hrest⟩ := downgrades_succ.mp hdown
    rw [h4] at h4'
    cases h4'
    obtain ⟨db3, h3, _⟩ := downgrades_succ.mp hrest
    exact holds_of_downgrade hat4 h3
  · intro hk
    obtain ⟨initial, hdown, hat, hkeeps⟩ := downgrades_of_holds hat4 hk
    obtain ⟨db', hup, hat', hkeeps'⟩ := upgrade_from_initial hat
    exact ⟨initial, db', downgrades_succ.mpr ⟨db4, h4, hdown⟩, hat, hup, hat',
      hkeeps4.trans (hkeeps.trans hkeeps')⟩

/-! ## Metrics and their users -/

/-- Every metric is of a user. -/
def Owned (s : State) : Prop := ∀ m ∈ s.metrics, ∃ row ∈ s.users.rows, row.name = m.user_name

instance (s : State) : Decidable (Owned s) := inferInstanceAs (Decidable (∀ _ ∈ _, _))

/-- A metric is stored of a user that there is, and a user that is deleted has no metrics. A row
that cannot be loaded is not deleted. -/
def Event.Admissible (s : State) : Event → Prop
  | .store_usage_metrics metric => ∃ row ∈ s.users.rows, row.name = metric.user_name
  | .command (.delete_user token) => ∀ row user, s.users.first token = some row →
      load row = .ok user → ∀ m ∈ s.metrics, m.user_name ≠ row.name
  | .command _ => True

variable {s : State} {e : Event}

theorem fk_holds_iff (h : Stored s db) :
    fk_user_name.Holds (valuesOf db.rows) "metrics" ↔ Owned s := by
  have hnames : valuesOf db.rows "users" "name" =
      (s.users.rows.map (·.name)).map fun t => some (.text t) :=
    valuesOf_map h.users fun _ => rfl
  have howners : valuesOf db.rows "metrics" "user_name" =
      (s.metrics.map (·.user_name)).map fun t => some (.text t) :=
    valuesOf_map h.metrics fun _ => rfl
  simp [fk_user_name, Constraint.Holds, hnames, howners, Owned]

theorem rollsBack_iff_owned (hs : Sound s) (h : Stored s db) : RollsBack db ↔ Owned s :=
  (rollsBack_iff_holds (h.at_head hs)).trans (fk_holds_iff h)

theorem owned_of_names {users : Users} (h : Owned s)
    (hnames : ∀ row ∈ s.users.rows, ∃ row' ∈ users.rows, row'.name = row.name) :
    Owned { s with users := users } := by
  intro m hm
  obtain ⟨row, hrow, hname⟩ := h m hm
  obtain ⟨row', hrow', hname'⟩ := hnames row hrow
  exact ⟨row', hrow', hname'.trans hname⟩

theorem owned_add_user (h : Owned s) (new_user : NewUser) :
    Owned (s.next (.command (.add_user new_user))) := by
  rw [State.next, Command.run, add_user]
  refine owned_of_names h fun row hrow => ⟨row, ?_, rfl⟩
  split
  · exact hrow
  · exact List.mem_append_left _ hrow

theorem owned_edit_user (h : Owned s) (token : String) (updates : Updates) :
    Owned (s.next (.command (.edit_user token updates))) := by
  rw [State.next, Command.run]
  rcases edit_user_rows s.users token updates with hrun | ⟨edited, hrun⟩
  · rw [hrun]
    exact h
  · rw [hrun]
    refine owned_of_names h fun row hrow => ⟨_, List.mem_map_of_mem hrow, ?_⟩
    split
    · rfl
    · rfl

/-- The metrics of a deleted user are left without it, since no other user has its name. -/
theorem owned_delete_user_iff (h : Owned s) (hs : Sound s) (token : String) :
    Owned (s.next (.command (.delete_user token))) ↔
      Event.Admissible s (.command (.delete_user token)) := by
  rw [State.next, Command.run, delete_user, Event.Admissible]
  cases hfirst : s.users.first token with
  | none => exact iff_of_true h fun row user hrow => by cases hrow
  | some row =>
    cases hload : load row with
    | error e =>
      simp only [hload]
      refine iff_of_true h fun row' user hrow hok => ?_
      cases hrow
      rw [hload] at hok
      cases hok
    | ok user =>
      simp only [hload]
      have hrow : row ∈ s.users.rows := List.mem_of_find?_eq_some hfirst
      have hsame : ∀ r ∈ s.users.rows, r.name = row.name ↔ r.id = row.id := by
        intro r hr
        constructor
        · intro hname
          rw [List.inj_on_of_nodup_map hs.users.names hr hrow hname]
        · intro hid
          rw [List.inj_on_of_nodup_map hs.users.ids hr hrow hid]
      constructor
      · intro howned row' user' hrow' _ m hm hname
        cases hrow'
        obtain ⟨r, hr, hrname⟩ := howned m hm
        obtain ⟨hr, hne⟩ := List.mem_filter.mp hr
        exact of_decide_eq_true hne ((hsame r hr).mp (hrname.trans hname))
      · intro hnone m hm
        obtain ⟨r, hr, hrname⟩ := h m hm
        refine ⟨r, List.mem_filter.mpr ⟨hr, decide_eq_true fun hid => ?_⟩, hrname⟩
        exact hnone row user rfl hload m hm (hrname.symm.trans ((hsame r hr).mpr hid))

theorem owned_store_iff (h : Owned s) (metric : Metric) :
    Owned (s.next (.store_usage_metrics metric)) ↔
      Event.Admissible s (.store_usage_metrics metric) := by
  constructor
  · intro howned
    exact howned { metric with id := s.next_id }
      (List.mem_append_right _ (List.mem_singleton_self _))
  · intro hrow m hm
    rcases List.mem_append.mp hm with hold | hlast
    · exact h m hold
    · rw [List.mem_singleton.mp hlast]
      exact hrow

theorem owned_next_iff (h : Owned s) (hs : Sound s) (e : Event) :
    Owned (s.next e) ↔ e.Admissible s := by
  cases e with
  | command c =>
    cases c with
    | add_user new_user => exact iff_of_true (owned_add_user h new_user) trivial
    | delete_user token => exact owned_delete_user_iff h hs token
    | edit_user token updates => exact iff_of_true (owned_edit_user h token updates) trivial
  | store_usage_metrics metric => exact owned_store_iff h metric

/-- The upgraded empty database rolls back behind every run that leaves each metric its user, and
behind no other one. So it does in every run that only stores metrics of users that there are
and only deletes users without metrics. -/
theorem the_database_rolls_back_while_metrics_have_users {start : Database Value}
    (hup : upgrade_head .text versions empty = .ok start) (es : List Event) (y : System) :
    (Run System.step Any ⟨.start, start⟩ es y → (RollsBack y.database ↔ Owned y.tables)) ∧
      (Run System.step (fun y e => e.Admissible y.tables) ⟨.start, start⟩ es y →
        RollsBack y.database ∧ ∀ e, Owned (y.tables.next e) ↔ e.Admissible y.tables) := by
  obtain ⟨start', hup', hstart⟩ := stored_start
  cases hup.symm.trans hup'
  refine ⟨fun h => ?_, fun h => ?_⟩
  · obtain ⟨hs, hstored⟩ := stored_run hstart h
    exact rollsBack_iff_owned hs hstored
  · obtain ⟨hs, hstored⟩ := stored_run hstart h
    have howned : Sound y.tables ∧ Owned y.tables := by
      refine h.invariant (I := fun y => Sound y.tables ∧ Owned y.tables)
        ⟨sound_start, fun _ hm => (by cases hm)⟩ fun y e y' hy hok hstep => ?_
      cases hstep
      exact ⟨sound_next hy.1 e, (owned_next_iff hy.2 hy.1 e).mpr hok⟩
    exact ⟨(rollsBack_iff_owned hs hstored).mpr howned.2, owned_next_iff howned.2 hs⟩

/-- A metric with no more than the name of its user. -/
def metric_of (user_name : String) : Metric where
  id := 0
  user_name := user_name
  user_organization := none
  request_date := none
  sent_to_llm_date := none
  response_date := none
  model := none
  server := none
  server_organization := none
  prompt_tokens := none
  completion_tokens := none
  strategy := none
  requeue_count := none
  max_parallel_requests := none
  current_parallel_requests := none
  priority := none
  performance_score := none
  routing_mode := none

/-- A user and one of its metrics, and the database behind them rolls back. -/
theorem a_metric_with_its_user_rolls_back :
    ∃ start y, upgrade_head .text versions empty = .ok start ∧
      Run System.step (fun y e => e.Admissible y.tables) ⟨.start, start⟩
        [.command (.add_user (alice "any")), .store_usage_metrics (metric_of "alice")] y ∧
      RollsBack y.database := by
  obtain ⟨start, hup, _⟩ := stored_start
  have hrun : Run System.step (fun y e => e.Admissible y.tables) ⟨.start, start⟩
      [.command (.add_user (alice "any")), .store_usage_metrics (metric_of "alice")] _ :=
    (Run.single trivial rfl).snoc ⟨_, List.mem_singleton_self _, rfl⟩ rfl
  exact ⟨start, _, hup, hrun,
    ((the_database_rolls_back_while_metrics_have_users hup _ _).2 hrun).1⟩

/-- A user with a metric is deleted, and the foreign key cannot be created again. -/
theorem a_deleted_user_stops_the_rollback :
    ¬ ∀ start es y, upgrade_head .text versions empty = .ok start →
      Run System.step Any ⟨.start, start⟩ es y → RollsBack y.database := by
  intro hall
  obtain ⟨start, hup, hstart⟩ := stored_start
  have hrun : Run System.step Any ⟨.start, start⟩ [.command (.add_user (alice "any")),
      .store_usage_metrics (metric_of "alice"), .command (.delete_user "1")] _ :=
    ((Run.single trivial rfl).snoc trivial rfl).snoc trivial rfl
  obtain ⟨hs, hstored⟩ := stored_run hstart hrun
  have hleft : ¬ Owned (((State.start.next (.command (.add_user (alice "any")))).next
      (.store_usage_metrics (metric_of "alice"))).next (.command (.delete_user "1"))) := by decide
  exact hleft ((rollsBack_iff_owned hs hstored).mp (hall start _ _ hup hrun))

end aristote_dispatcher.migrations
