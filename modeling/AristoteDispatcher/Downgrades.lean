-- Downgrades of a database with its users and metrics, and the upgrade to the last revision
-- behind them. What the dropped columns said is forgotten, and nothing else. The downgrade that
-- creates the foreign key again fails where a metric has no user, and below the first revision
-- there are no tables.
import Mathlib.Tactic.FinCases
import Mathlib.Tactic.IntervalCases
import AristoteDispatcher.Rollback

open runs keyed sql alembic pyfloat
open aristote_dispatcher.manage_users

namespace aristote_dispatcher.migrations

/-! ## The databases -/

/-- `alembic downgrade -1`. One that fails leaves the database as it was. -/
def downgraded (db : Database Value) : Database Value :=
  match downgrade .text versions db with
  | .ok db' => db'
  | .error _ => db

def lowered : Nat → Database Value → Database Value
  | 0, db => db
  | n + 1, db => downgraded (lowered n db)

/-- `alembic upgrade head`. -/
def raised (db : Database Value) : Database Value :=
  match upgrade_head .text versions db with
  | .ok db' => db'
  | .error _ => db

/-! ## The tables -/

/-- What a user is behind so many downgrades. -/
def forgetMode (n : Nat) (row : manage_users.Row) : manage_users.Row :=
  { row with default_routing_mode := if n < 5 then row.default_routing_mode else "any" }

def Metric.forget (n : Nat) (m : Metric) : Metric :=
  { m with
    user_organization := if n < 1 then m.user_organization else none
    server_organization := if n < 1 then m.server_organization else none
    routing_mode := if n < 3 then m.routing_mode else none
    requeue_count := if n < 4 then m.requeue_count else none
    max_parallel_requests := if n < 4 then m.max_parallel_requests else none
    current_parallel_requests := if n < 4 then m.current_parallel_requests else none
    priority := if n < 4 then m.priority else none
    strategy := if n < 4 then m.strategy else none
    performance_score := if n < 4 then m.performance_score else none }

/-- The sixth downgrade drops the tables, with the sequences of their ids. -/
def State.forget (s : State) (n : Nat) : State :=
  if n < 6 then
    { s with
      users := { s.users with rows := s.users.rows.map (forgetMode n) }
      metrics := s.metrics.map (·.forget n) }
  else .start

/-- The second downgrade needs a user for each metric. -/
def State.depth (s : State) (n : Nat) : Nat := if Owned s then n else min n 1

/-- The commands and the metrics go on behind each rollback. -/
inductive Maintenance
  | event (e : Event)
  | rollback (n : Nat)

def System.maintain (y : System) : Maintenance → Option System
  | .event e => y.step e
  | .rollback n => some ⟨y.tables.forget (y.tables.depth n), raised (lowered n y.database)⟩

/-! ## The levels -/

/-- The scripts of the downgrades from the last revision. -/
def downs (n : Nat) : List (Statement Value) :=
  (versions.reverse.take n).flatMap (Revision.down .text)

/-- The scripts of the upgrades that the database lacks then. -/
def ups (n : Nat) : List (Statement Value) := (versions.drop (6 - n)).flatMap (Revision.up .text)

/-- The revisions and the schemas on the way down. -/
def levels : List (Revision Value × Schema Value) :=
  [(add_organization_fields_to_metrics_table, head), (decouple_tables, at_5dd94aeafd3c),
    (add_routing_mode_column_to_metrics_table, at_8e1d058df426),
    (add_fields_to_metric_entity, at_fa7a30b960b4), (default_routing_mode, at_c63af0f18c5d),
    (initial_migration, at_9cf7cf124677)]

/-- From a level the upgrades lead to the last revision, and forget what was dropped. -/
structure Level (n : Nat) (r : Revision Value) (schema : Schema Value) : Prop where
  versioned : Versioned schema
  rest : versions.dropWhile (fun r' => r.revision ≠ r'.revision) = r :: versions.drop (6 - n)
  chained : chained (some r.revision) (versions.drop (6 - n)) = true
  climb : climb schema (versions.drop (6 - n)) = some head
  climbed : climbed r.revision (versions.drop (6 - n)) = "212c4b4d9489"
  down : downs (n + 1) = downs n ++ r.down .text
  reshapes : ∀ table ∈ ["users", "metrics"], ∀ s ∈ downs n ++ ups n, s.reshapes table = true
  users : ∀ row, reshaped "users" (downs n ++ ups n) (userRow row) = userRow (forgetMode n row)
  metrics : ∀ m, reshaped "metrics" (downs n ++ ups n) (metricRow m) = metricRow (m.forget n)

/-- A row whose columns a script leaves or sets, and what it makes of them. -/
theorem reshaped_eq_rowOf {table : String} {ss : List (Statement Value)} {columns : List String}
    {values values' : List (String × Option Value)} (hvalues : values.map (·.1) = columns)
    (hvalues' : values'.map (·.1) = columns) (hwritten : written table ss ⊆ columns)
    (h : ∀ column ∈ columns, reshaped table ss (rowOf values) column = rowOf values' column) :
    reshaped table ss (rowOf values) = rowOf values' := by
  have hnone : ∀ {values : List (String × Option Value)} {column : String},
      values.map (·.1) = columns → column ∉ columns → rowOf values column = none := by
    intro values column heq hcolumn
    rw [rowOf, lookup_eq_none (heq ▸ hcolumn), Option.getD_none]
  funext column
  by_cases hcolumn : column ∈ columns
  · exact h column hcolumn
  · rw [reshaped_of_not_written fun hmem => hcolumn (hwritten hmem), hnone hvalues hcolumn,
      hnone hvalues' hcolumn]

theorem level_of {n : Nat} {r : Revision Value} {schema : Schema Value}
    (h : levels[n]? = some (r, schema)) : Level n r schema := by
  have hn : n < 6 := (List.getElem?_eq_some_iff.mp h).1
  have hversioned : ∀ l ∈ levels, Versioned l.2 := by decide +kernel
  have hwritten : ∀ n < 6, written "users" (downs n ++ ups n) ⊆ user_columns ∧
      written "metrics" (downs n ++ ups n) ⊆ metric_columns := by decide
  have hschema := hversioned _ (List.mem_of_getElem? h)
  have husers : ∀ row, reshaped "users" (downs n ++ ups n) (userRow row) =
      userRow (forgetMode n row) := by
    refine fun row => reshaped_eq_rowOf rfl rfl (hwritten n hn).1 fun column hcolumn => ?_
    interval_cases n <;> fin_cases hcolumn <;> rfl
  have hmetrics : ∀ m, reshaped "metrics" (downs n ++ ups n) (metricRow m) =
      metricRow (m.forget n) := by
    refine fun m => reshaped_eq_rowOf rfl rfl (hwritten n hn).2 fun column hcolumn => ?_
    interval_cases n <;> fin_cases hcolumn <;> rfl
  interval_cases n <;> cases h <;>
    exact ⟨hschema, rfl, rfl, rfl, rfl, rfl, by decide, husers, hmetrics⟩

/-! ## The way down -/

variable {s : State} {db db' : Database Value} {n : Nat} {r : Revision Value}
  {schema : Schema Value}

/-- The database at a level, with the rows of the tables less what the scripts dropped. -/
structure Lowered (n : Nat) (s : State) (db : Database Value) : Prop where
  at_level : ∃ r schema, levels[n]? = some (r, schema) ∧ At .text r.revision schema db
  users : db.rows "users" = s.users.rows.map fun row => reshaped "users" (downs n) (userRow row)
  metrics : db.rows "metrics" =
    s.metrics.map fun m => reshaped "metrics" (downs n) (metricRow m)

theorem lowered_of_stored (hs : Sound s) (h : Stored s db) : Lowered 0 s db :=
  ⟨⟨_, _, rfl, h.at_head hs⟩, h.users, h.metrics⟩

/-- One level further down. -/
theorem lowered_run (h : Lowered n s db) (hlevel : levels[n]? = some (r, schema))
    {r' : Revision Value} {schema' : Schema Value} (hlevel' : levels[n + 1]? = some (r', schema'))
    (hrun : run db (r.down .text) = .ok db') (hat : At .text r'.revision schema' db') :
    Lowered (n + 1) s db' := by
  have hdown := (level_of hlevel).down
  have hrows : ∀ table ∈ ["users", "metrics"],
      db'.rows table = (db.rows table).map (reshaped table (r.down .text)) := by
    intro table htable
    refine rows_of_run (fun s hs => ?_) hrun
    refine (level_of hlevel').reshapes table htable s (List.mem_append_left _ ?_)
    rw [hdown]
    exact List.mem_append_right _ hs
  refine ⟨⟨r', schema', hlevel', hat⟩, ?_, ?_⟩
  · rw [hrows "users" (by decide), h.users, List.map_map, hdown]
    exact List.map_congr_left fun row _ => (reshaped_append _ _ _).symm
  · rw [hrows "metrics" (by decide), h.metrics, List.map_map, hdown]
    exact List.map_congr_left fun m _ => (reshaped_append _ _ _).symm

/-- The foreign key asks for the users of the metrics. -/
theorem fk_holds_of_lowered (h : Lowered 1 s db) :
    fk_user_name.Holds (valuesOf db.rows) "metrics" ↔ Owned s := by
  have hnames : valuesOf db.rows "users" "name" =
      (s.users.rows.map (·.name)).map fun t => some (.text t) :=
    valuesOf_map h.users fun _ => rfl
  have howners : valuesOf db.rows "metrics" "user_name" =
      (s.metrics.map (·.user_name)).map fun t => some (.text t) :=
    valuesOf_map h.metrics fun _ => rfl
  simp [fk_user_name, Constraint.Holds, hnames, howners, Owned]

/-- The downgrade of a level that is not the last one, where the foreign key can be created. -/
theorem exists_downgrade (h : Lowered n s db) (hn : n < 5) (howned : n = 1 → Owned s)
    (hlevel : levels[n]? = some (r, schema)) (hat : At .text r.revision schema db) :
    ∃ r' schema' db', levels[n + 1]? = some (r', schema') ∧
      downgrade .text versions db = .ok db' ∧ At .text r'.revision schema' db' := by
  interval_cases n
  · cases hlevel
    obtain ⟨db', hdown, hat', _⟩ := downgrade_smooth
      (r := add_organization_fields_to_metrics_table) hat versioned_head rfl rfl smooth_head
      (by decide)
    exact ⟨_, _, db', rfl, hdown, hat'⟩
  · cases hlevel
    obtain ⟨db', hdown, hat', _⟩ := downgrade_decouple_tables hat
      ((fk_holds_of_lowered h).mpr (howned rfl))
    exact ⟨_, _, db', rfl, hdown, hat'⟩
  · cases hlevel
    obtain ⟨db', hdown, hat', _⟩ := downgrade_smooth
      (r := add_routing_mode_column_to_metrics_table) hat versioned_8e1d058df426 rfl rfl
      smooth_8e1d058df426 (by decide)
    exact ⟨_, _, db', rfl, hdown, hat'⟩
  · cases hlevel
    obtain ⟨db', hdown, hat', _⟩ := downgrade_smooth (r := add_fields_to_metric_entity) hat
      smooth_8e1d058df426.versioned rfl rfl smooth_fa7a30b960b4 (by decide)
    exact ⟨_, _, db', rfl, hdown, hat'⟩
  · cases hlevel
    obtain ⟨db', hdown, hat', _⟩ := downgrade_smooth (r := default_routing_mode) hat
      smooth_fa7a30b960b4.versioned rfl rfl smooth_c63af0f18c5d (by decide)
    exact ⟨_, _, db', rfl, hdown, hat'⟩

theorem lowered_downgraded (h : Lowered n s db) (hn : n < 5) (howned : n = 1 → Owned s) :
    Lowered (n + 1) s (downgraded db) := by
  obtain ⟨r, schema, hlevel, hat⟩ := h.at_level
  obtain ⟨r', schema', db', hlevel', hdown, hat'⟩ := exists_downgrade h hn howned hlevel hat
  rw [downgraded, hdown]
  have hl := level_of hlevel
  rw [downgrade_of_at text_injective hat hl.versioned hl.rest] at hdown
  exact lowered_run h hlevel hlevel' hdown hat'

/-- The foreign key cannot be created. -/
theorem downgraded_of_not_owned (h : Lowered 1 s db) (howned : ¬ Owned s) : downgraded db = db := by
  obtain ⟨r, schema, hlevel, hat⟩ := h.at_level
  cases hlevel
  unfold downgraded
  split
  · rename_i db' hdown
    exact absurd ((fk_holds_of_lowered h).mp (holds_of_downgrade hat hdown)) howned
  · rfl

/-- The downgrades come as deep as the foreign key allows. -/
theorem lowered_lowered (hs : Sound s) (h : Stored s db) (n : Nat) (hn : s.depth n < 6) :
    Lowered (s.depth n) s (lowered n db) := by
  induction n with
  | zero =>
    have hzero : s.depth 0 = 0 := by simp [State.depth]
    rw [hzero]
    exact lowered_of_stored hs h
  | succ n ih =>
    rw [lowered]
    unfold State.depth at ih hn ⊢
    by_cases howned : Owned s
    · rw [if_pos howned] at ih hn ⊢
      exact lowered_downgraded (ih (by omega)) (by omega) fun _ => howned
    · rw [if_neg howned] at ih hn ⊢
      rw [Nat.min_eq_right (by omega)]
      cases n with
      | zero => exact lowered_downgraded (ih (by omega)) (by omega) nofun
      | succ n =>
        rw [Nat.min_eq_right (by omega)] at ih
        rw [downgraded_of_not_owned (ih (by omega)) howned]
        exact ih (by omega)

/-! ## The way up -/

/-- From a level the upgrade stores the tables without what was dropped. -/
theorem stored_raised (h : Lowered n s db) : Stored (s.forget n) (raised db) := by
  obtain ⟨r, schema, hlevel, hat⟩ := h.at_level
  have hn : n < 6 := (List.getElem?_eq_some_iff.mp hlevel).1
  have hl := level_of hlevel
  obtain ⟨db', hrun, hpassed⟩ := run_climb hat hl.chained hl.climb
  have hup := upgrade_head_of_at text_injective hat hl.versioned hl.rest
  have hrows : ∀ table ∈ ["users", "metrics"],
      db'.rows table = (db.rows table).map (reshaped table (ups n)) := fun table htable =>
    rows_of_run (fun s hs => hl.reshapes table htable s (List.mem_append_right _ hs)) hrun
  rw [raised, hup, hrun, State.forget, if_pos hn]
  refine ⟨hpassed.at_target.schema, ?_, ?_, ?_⟩
  · rw [← hl.climbed]
    exact hpassed.at_target.version
  · rw [hrows "users" (by decide), h.users, List.map_map, List.map_map]
    exact List.map_congr_left fun row _ => (reshaped_append _ _ _).symm.trans (hl.users row)
  · rw [hrows "metrics" (by decide), h.metrics, List.map_map, List.map_map]
    exact List.map_congr_left fun m _ => (reshaped_append _ _ _).symm.trans (hl.metrics m)

/-! ## Below the first revision -/

def bare : Schema Value := ⟨[("alembic_version", versionTable)], []⟩

/-- A database without tables but that of the version, which has no row. -/
structure Bare (db : Database Value) : Prop where
  schema : db.schema = bare
  rows : ∀ table ∈ ["alembic_version", "users", "metrics"], db.rows table = []

/-- The first revision drops the tables. -/
theorem bare_downgraded (h : Lowered 5 s db) : Bare (downgraded db) := by
  obtain ⟨r, schema, hlevel, hat⟩ := h.at_level
  have hl := level_of hlevel
  cases hlevel
  obtain ⟨row, hversion, hrow⟩ := hat.row
  have hname : row "version_num" = some (.text "9cf7cf124677") := hrow
  obtain ⟨rows, hrows⟩ : ∃ rows, rows =
      Function.update (Function.update db.rows "metrics" []) "users" [] := ⟨_, rfl⟩
  have hmetrics : exec db (.drop_table "metrics") =
      .ok ⟨after at_9cf7cf124677 [.drop_table "metrics"], Function.update db.rows "metrics" []⟩ :=
    exec_drop_table hat.valid (by rw [hat.schema]; rfl)
  have husers : exec ⟨after at_9cf7cf124677 [.drop_table "metrics"],
      Function.update db.rows "metrics" []⟩ (.drop_table "users") = .ok ⟨bare, rows⟩ := by
    rw [hrows]
    exact exec_drop_table (exec_eq_ok_iff.mp hmetrics).2.2 rfl
  have hversions : exec ⟨bare, rows⟩
      (.delete "alembic_version" fun r => r "version_num" = some (.text "9cf7cf124677")) =
      .ok ⟨bare, Function.update rows "alembic_version" []⟩ := by
    refine exec_eq_ok_iff.mpr ⟨rfl, ?_, valid_of_no_rows ?_⟩
    · simp [Statement.rows, hrows, hversion, hname]
    · simp [bare]
  have hdown : downgrade .text versions db =
      .ok ⟨bare, Function.update rows "alembic_version" []⟩ := by
    rw [downgrade_of_at text_injective hat hl.versioned hl.rest]
    exact (run_cons_ok hmetrics).trans ((run_cons_ok husers).trans (run_cons_ok hversions))
  rw [downgraded, hdown]
  exact ⟨rfl, by simp [hrows]⟩

theorem downgraded_of_bare (h : Bare db) : downgraded db = db := by
  have hcurrent : current .text versions db = .ok none := by
    unfold current
    simp only [h.schema, h.rows "alembic_version" (by decide)]
    rfl
  rw [downgraded, downgrade, hcurrent]

theorem bare_lowered (hs : Sound s) (h : Stored s db) (howned : Owned s) (hn : 6 ≤ n) :
    Bare (lowered n db) := by
  induction n, hn using Nat.le_induction with
  | base =>
    have hdepth : s.depth 5 = 5 := if_pos howned
    have hlowered := lowered_lowered hs h 5 (by omega)
    rw [hdepth] at hlowered
    exact bare_downgraded hlowered
  | succ n _ ih =>
    rw [lowered, downgraded_of_bare ih]
    exact ih

/-! ## The tables again -/

/-- The schema of the first revision, where there were no tables. -/
def initial_schema : Schema Value := after bare initial_migration.upgrade

/-- A table is created where no table of the schema has rows. -/
theorem exec_create_table {schema : Schema Value} {name : String} {t : Table Value}
    (hnew : db.schema.table? name = none)
    (halter : db.schema.alter (.create_table name t true) = .ok schema)
    (hrows : ∀ table ∈ schema.tables.map (·.1), Function.update db.rows name [] table = []) :
    exec db (.create_table name t true) = .ok ⟨schema, Function.update db.rows name []⟩ := by
  refine exec_eq_ok_iff.mpr ⟨halter, ?_, valid_of_no_rows hrows⟩
  rw [Statement.rows, if_pos hnew]

/-- The first revision creates the tables without rows. -/
theorem run_initial (h : Bare db) : ∃ db', run db (initial_migration.up .text) = .ok db' ∧
    At .text "9cf7cf124677" initial_schema db' ∧
    db'.rows "users" = [] ∧ db'.rows "metrics" = [] := by
  have hversion := h.rows "alembic_version" (by decide)
  have husers : exec db (.create_table "users" initial_users true) =
      .ok ⟨after bare [.create_table "users" initial_users true],
        Function.update db.rows "users" []⟩ := by
    refine exec_create_table (by rw [h.schema]; rfl) (by rw [h.schema]; rfl) ?_
    have hnames : (after bare [.create_table "users" initial_users true]).tables.map (·.1) =
        ["alembic_version", "users"] := rfl
    simp [hnames, hversion]
  obtain ⟨rows, hrows⟩ : ∃ rows, rows =
      Function.update (Function.update db.rows "users" []) "metrics" [] := ⟨_, rfl⟩
  have hmetrics : exec ⟨after bare [.create_table "users" initial_users true],
      Function.update db.rows "users" []⟩ (.create_table "metrics" initial_metrics true) =
      .ok ⟨initial_schema, rows⟩ := by
    rw [hrows]
    refine exec_create_table rfl rfl ?_
    have hnames : initial_schema.tables.map (·.1) = ["alembic_version", "users", "metrics"] := rfl
    simp [hnames, hversion]
  obtain ⟨row, hrow⟩ : ∃ row, row =
      versionTable.fill [("version_num", some (Value.text "9cf7cf124677"))] := ⟨_, rfl⟩
  have hname : row "version_num" = some (.text "9cf7cf124677") := by
    rw [hrow]
    exact fill_of_lookup rfl
  have hvalues : valuesOf (Function.update rows "alembic_version" [row]) "alembic_version"
      "version_num" = [some (.text "9cf7cf124677")] := by
    simp [valuesOf, hname]
  have hinsert : exec ⟨initial_schema, rows⟩
      (.insert "alembic_version" [("version_num", some (.text "9cf7cf124677"))]) =
      .ok ⟨initial_schema, Function.update rows "alembic_version" [row]⟩ := by
    refine exec_eq_ok_iff.mpr ⟨rfl, ?_, ?_⟩
    · have htable : initial_schema.table? "alembic_version" = some versionTable := rfl
      simp [Statement.rows, htable, hrows, hversion, hrow]
    · refine valid_of_isolated (exec_eq_ok_iff.mp hmetrics).2.2 rfl
        (fun other hne => Function.update_of_ne hne _ _) fun t ht => ?_
      have htables : ∀ e ∈ initial_schema.tables, e.1 = "alembic_version" → e.2 = versionTable := by
        decide +kernel
      have htable : t = versionTable := htables _ ht rfl
      subst htable
      simp [versionTable, Column.Holds, Constraint.Holds, hvalues]
  refine ⟨⟨initial_schema, Function.update rows "alembic_version" [row]⟩, ?_,
    ⟨(exec_eq_ok_iff.mp hinsert).2.2, rfl, hvalues⟩, ?_, ?_⟩
  · exact (run_cons_ok husers).trans ((run_cons_ok hmetrics).trans (run_cons_ok hinsert))
  · simp [hrows]
  · simp [hrows]

/-- All revisions, on a database without tables. -/
theorem stored_raised_of_bare (h : Bare db) : Stored .start (raised db) := by
  have hcurrent : current .text versions db = .ok none := by
    unfold current
    simp only [h.schema, h.rows "alembic_version" (by decide)]
    rfl
  have hcreate : exec db (.create_table "alembic_version" versionTable true) = .ok db := by
    refine exec_eq_ok_iff.mpr ⟨by rw [h.schema]; rfl, ?_, ?_⟩
    · rw [Statement.rows, h.schema]
      rfl
    · have heq : db = ⟨bare, db.rows⟩ := by rw [← h.schema]
      rw [heq]
      refine valid_of_no_rows ?_
      simpa [bare] using h.rows "alembic_version" (by decide)
  obtain ⟨first, hfirst, hat, husers, hmetrics⟩ := run_initial h
  have hchained : chained (some "9cf7cf124677") versions.tail = true := rfl
  have hclimb : climb initial_schema versions.tail = some head := rfl
  have hreshapes : ∀ table ∈ ["users", "metrics"], ∀ s ∈ versions.tail.flatMap (Revision.up .text),
      s.reshapes table = true := by decide
  obtain ⟨db', hrun, hpassed⟩ := run_climb hat hchained hclimb
  have hup : upgrade_head .text versions db = .ok db' := by
    rw [upgrade_head, hcurrent]
    exact (run_cons_ok hcreate).trans (run_append_eq_ok_iff.mpr ⟨first, hfirst, hrun⟩)
  rw [raised, hup]
  refine ⟨hpassed.at_target.schema, hpassed.at_target.version, ?_, ?_⟩
  · rw [rows_of_run (hreshapes "users" (by decide)) hrun, husers]
    rfl
  · rw [rows_of_run (hreshapes "metrics" (by decide)) hrun, hmetrics]
    rfl

/-! ## The law -/

theorem sound_forget (h : Sound s) (n : Nat) : Sound (s.forget n) := by
  unfold State.forget
  split
  · refine ⟨distinct_map h.users fun row => ⟨rfl, rfl, rfl⟩, ?_, fun m hm => ?_⟩
    · rw [List.map_map]
      exact h.ids
    · obtain ⟨old, hold, rfl⟩ := List.mem_map.mp hm
      exact h.below old hold
  · exact sound_start

/-- A rollback as deep as it comes. -/
theorem stored_rollback (hs : Sound s) (h : Stored s db) (n : Nat) :
    Stored (s.forget (s.depth n)) (raised (lowered n db)) := by
  by_cases hn : s.depth n < 6
  · exact stored_raised (lowered_lowered hs h n hn)
  · have howned : Owned s := by
      by_contra howned
      rw [State.depth, if_neg howned] at hn
      omega
    rw [State.forget, if_neg hn]
    rw [State.depth, if_pos howned] at hn
    exact stored_raised_of_bare (bare_lowered hs h howned (by omega))

/-- In every run of commands, of metrics and of rollbacks to any depth, the database stores the
tables as the commands and the metrics left them, without what the columns and tables said that
the rollbacks dropped. -/
theorem a_rollback_forgets_what_it_drops {start : Database Value}
    (hup : upgrade_head .text versions empty = .ok start) {es : List Maintenance} {y : System}
    (h : Run System.maintain Any ⟨.start, start⟩ es y) :
    Sound y.tables ∧ Stored y.tables y.database := by
  obtain ⟨start', hup', hstart⟩ := stored_start
  cases hup.symm.trans hup'
  refine h.invariant (I := fun y => Sound y.tables ∧ Stored y.tables y.database)
    ⟨sound_start, hstart⟩ fun y e y' ⟨hs, hstored⟩ _ hstep => ?_
  cases e with
  | event e =>
    cases hstep
    exact ⟨sound_next hs e, stored_next hstored hs e⟩
  | rollback n =>
    cases hstep
    exact ⟨sound_forget hs _, stored_rollback hs hstored n⟩

/-- A user with a mode of its own and a metric with a priority, and a rollback to the first
revision. -/
def rolledBack : List Maintenance :=
  [.event (.command (.add_user (alice "private-first"))),
    .event (.store_usage_metrics { metric_of "alice" with priority := some 3 }), .rollback 5]

theorem a_rollback_forgets_the_mode_and_the_priority :
    ∃ start y, upgrade_head .text versions empty = .ok start ∧
      Run System.maintain Any ⟨.start, start⟩ rolledBack y ∧
      y.tables.users.rows.map (·.default_routing_mode) = ["any"] ∧
      y.tables.metrics.map (·.priority) = [none] ∧
      Sound y.tables ∧ Stored y.tables y.database := by
  obtain ⟨start, hup, _⟩ := stored_start
  have hrun : Run System.maintain Any ⟨.start, start⟩ rolledBack _ :=
    ((Run.single trivial rfl).snoc trivial rfl).snoc trivial rfl
  exact ⟨start, _, hup, hrun, rfl, rfl, a_rollback_forgets_what_it_drops hup hrun⟩

end aristote_dispatcher.migrations
