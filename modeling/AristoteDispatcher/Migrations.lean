-- The two histories of the database: the scripts that were written by hand
-- (migrations/postgres) and the revisions of alembic (alembic/versions). The last script
-- stamps the first revision, and the second revision adds a column that the scripts have
-- added already.
import AristoteDispatcher.Lib.Alembic
import AristoteDispatcher.Lib.PyFloat

open sql alembic pyfloat

namespace aristote_dispatcher.migrations

/-! ## Columns -/

inductive Value
  | int (i : Int)
  | text (s : String)
  | timestamp (microseconds : Int)
  | float (x : PyFloat)
  deriving DecidableEq

def Integer (name : String) (nullable : Bool) : Column Value :=
  { name := name, type := "INTEGER", nullable := nullable }

/-- `VARCHAR(255)`. -/
def Text (name : String) (nullable : Bool) : Column Value :=
  { name := name, type := "VARCHAR(255)", nullable := nullable }

def DateTime (name : String) (nullable : Bool) : Column Value :=
  { name := name, type := "TIMESTAMP", nullable := nullable }

def Float (name : String) (nullable : Bool) : Column Value :=
  { name := name, type := "FLOAT", nullable := nullable }

/-! ## The revisions -/

def initial_users : Table Value where
  columns := [Integer "id" false, Text "token" false, Text "name" false,
    Text "organization" true, Text "email" true, Integer "priority" false,
    Integer "threshold" false, Text "client_type" true]
  constraints := [.primary_key "users_pkey" "id", .unique "users_name_unique" "name",
    .unique "unique_token" "token"]

def initial_metrics : Table Value where
  columns := [Integer "id" false, Text "user_name" false, DateTime "request_date" true,
    DateTime "sent_to_llm_date" true, DateTime "response_date" true, Text "model" true,
    Text "server" true, Integer "prompt_tokens" true, Integer "completion_tokens" true]
  constraints := [.foreign_key "fk_user_name" "user_name" "users" "name",
    .primary_key "metrics_pkey" "id"]

def initial_migration : Revision Value where
  revision := "9cf7cf124677"
  down_revision := none
  upgrade := [.create_table "users" initial_users true,
    .create_table "metrics" initial_metrics true]
  downgrade := [.drop_table "metrics", .drop_table "users"]

/-- `sa.Enum(..., native_enum=False)`: a text as long as the longest name, with no check. -/
def default_routing_mode_column : Column Value :=
  { name := "default_routing_mode", type := "VARCHAR(13)", nullable := false,
    default := some (.text "any") }

def default_routing_mode : Revision Value where
  revision := "c63af0f18c5d"
  down_revision := some "9cf7cf124677"
  upgrade := [.add_column "users" default_routing_mode_column]
  downgrade := [.drop_column "users" "default_routing_mode"]

def add_fields_to_metric_entity : Revision Value where
  revision := "fa7a30b960b4"
  down_revision := some "c63af0f18c5d"
  upgrade := [.add_column "metrics" (Integer "requeue_count" true),
    .add_column "metrics" (Integer "max_parallel_requests" true),
    .add_column "metrics" (Integer "current_parallel_requests" true),
    .add_column "metrics" (Integer "priority" true),
    .add_column "metrics" (Text "strategy" true),
    .add_column "metrics" (Float "performance_score" true)]
  downgrade := [.drop_column "metrics" "priority",
    .drop_column "metrics" "current_parallel_requests",
    .drop_column "metrics" "max_parallel_requests", .drop_column "metrics" "requeue_count",
    .drop_column "metrics" "strategy", .drop_column "metrics" "performance_score"]

def add_routing_mode_column_to_metrics_table : Revision Value where
  revision := "8e1d058df426"
  down_revision := some "fa7a30b960b4"
  upgrade := [.add_column "metrics" (Text "routing_mode" true)]
  downgrade := [.drop_column "metrics" "routing_mode"]

def decouple_tables : Revision Value where
  revision := "5dd94aeafd3c"
  down_revision := some "8e1d058df426"
  upgrade := [.drop_constraint "metrics" "fk_user_name"]
  downgrade :=
    [.add_constraint "metrics" (.foreign_key "fk_user_name" "user_name" "users" "name")]

def add_organization_fields_to_metrics_table : Revision Value where
  revision := "212c4b4d9489"
  down_revision := some "5dd94aeafd3c"
  upgrade := [.add_column "metrics" (Text "user_organization" true),
    .add_column "metrics" (Text "server_organization" true)]
  downgrade := [.drop_column "metrics" "server_organization",
    .drop_column "metrics" "user_organization"]

def versions : List (Revision Value) :=
  [initial_migration, default_routing_mode, add_fields_to_metric_entity,
    add_routing_mode_column_to_metrics_table, decouple_tables,
    add_organization_fields_to_metrics_table]

theorem chained_versions : chained none versions = true := by decide

def empty : Database Value := ⟨⟨[], []⟩, fun _ => []⟩

/-- The schema behind a script that it allows. -/
def after (schema : Schema Value) (ss : List (Statement Value)) : Schema Value :=
  match schema.alterAll ss with
  | .ok schema' => schema'
  | .error _ => schema

/-- The schema of an upgrade of the empty database. -/
def head : Schema Value :=
  after empty.schema (.create_table "alembic_version" versionTable true ::
    versions.flatMap (Revision.up .text))

theorem versioned_head : Versioned head := by decide +kernel

theorem text_injective : Function.Injective Value.text := fun _ _ h => Value.text.inj h

/-! ## The scripts -/

/-- SERIAL gives the first ids of the new table. -/
def init_postgres : List (Statement Value) :=
  [.create_type "client_type",
    .create_table "users"
      { columns := [Integer "id" false, Text "token" true, Integer "priority" false,
          Integer "threshold" false, { name := "client_type", type := "client_type" }]
        constraints := [.primary_key "users_pkey" "id"] } false,
    .insert "users" [("id", some (.int 1)), ("token", some (.text "tokenwithlowerpriority")),
      ("priority", some (.int 1)), ("threshold", some (.int 5)), ("client_type", none)],
    .insert "users" [("id", some (.int 2)), ("token", some (.text "tokenwithhigherpriority")),
      ("priority", some (.int 2)), ("threshold", some (.int 10)),
      ("client_type", some (.text "chat"))]]

/-- `'name_' || id`. -/
def name_of_id : Option Value → Option Value
  | some (.int i) => some (.text ("name_" ++ toString i))
  | _ => none

def add_metrics_table : List (Statement Value) :=
  [.add_column "users" (Text "name" true),
    .update "users" (fun _ => true) (fun r => Function.update r "name" (name_of_id (r "id"))),
    .set_not_null "users" "name", .add_constraint "users" (.unique "users_name_unique" "name"),
    .add_constraint "users" (.unique "unique_token" "token"),
    .create_table "metrics"
      { columns := [Integer "id" false, Text "user_name" false, DateTime "request_date" true,
          DateTime "sent_to_llm_date" true, DateTime "response_date" true, Text "model" true,
          Text "server" true, Integer "prompt_tokens" true, Integer "completion_tokens" true]
        constraints := [.primary_key "metrics_pkey" "id",
          .foreign_key "fk_user_name" "user_name" "users" "name"] } false]

def add_organization_and_email_column_to_users : List (Statement Value) :=
  [.add_column "users" (Text "organization" true), .add_column "users" (Text "email" true)]

def add_default_routing_mode_to_users : List (Statement Value) :=
  [.add_column "users"
    { name := "default_routing_mode", type := "VARCHAR(20)", nullable := false,
      default := some (.text "any") }]

def switch_to_alembic : List (Statement Value) :=
  [.alter_type "users" "client_type" "VARCHAR(255)", .drop_type "client_type" true,
    .create_table "alembic_version"
      { columns := [{ name := "version_num", type := "VARCHAR(32)" }], constraints := [] } false,
    .insert "alembic_version" [("version_num", some (.text "9cf7cf124677"))]]

def scripts : List (List (Statement Value)) :=
  [init_postgres, add_metrics_table, add_organization_and_email_column_to_users,
    add_default_routing_mode_to_users, switch_to_alembic]

/-- The databases that the first scripts accept, with any content that the tables `users` and
`metrics` get in between. -/
inductive Accepted : Nat → Database Value → Prop
  | empty : Accepted 0 empty
  | script {n : Nat} {db db' : Database Value} {script : List (Statement Value)}
    (h : Accepted n db) (hscript : scripts[n]? = some script) (hrun : run db script = .ok db') :
    Accepted (n + 1) db'
  | content {n : Nat} {db : Database Value} {rows : String → List (Row Value)}
    (h : Accepted n db) (hvalid : Database.Valid ⟨db.schema, rows⟩)
    (hother : ∀ table, table ≠ "users" → table ≠ "metrics" → rows table = db.rows table) :
    Accepted n ⟨db.schema, rows⟩

/-! ## The same database -/

def HasColumn (schema : Schema Value) (table column : String) (nullable : Bool) : Prop :=
  ∃ t c, schema.table? table = some t ∧ t.column? column = some c ∧ c.nullable = nullable

/-- The same tables, columns and nullability. -/
def SameShape (s s' : Schema Value) : Prop :=
  (∀ table, (s.table? table).isSome = (s'.table? table).isSome) ∧
    ∀ table column nullable, HasColumn s table column nullable ↔ HasColumn s' table column nullable

/-- The names of the columns of a table. -/
def columnsOf (schema : Schema Value) (table : String) : List String :=
  match schema.table? table with
  | none => []
  | some t => t.columns.map (·.name)

/-- `alembic upgrade head` succeeds, keeps every row and value, and ends with the tables of an
upgrade of the empty database. -/
def LeadsToHead (db : Database Value) : Prop :=
  ∃ db' fresh, upgrade_head .text versions db = .ok db' ∧
    upgrade_head .text versions empty = .ok fresh ∧
    (∀ table ∈ ["users", "metrics"],
      Kept (columnsOf db.schema table) (db.rows table) (db'.rows table)) ∧
    SameShape db'.schema fresh.schema

/-! ## The scripts lead nowhere -/

variable {n : Nat} {db : Database Value}

theorem take_scripts {script : List (Statement Value)} (hscript : scripts[n]? = some script) :
    (scripts.take (n + 1)).flatten = (scripts.take n).flatten ++ script := by
  rw [List.take_add_one, hscript, Option.toList_some, List.flatten_append,
    List.flatten_singleton]

/-- The schema behind the first scripts does not depend on the content. -/
theorem Accepted.schema (h : Accepted n db) :
    Schema.alterAll ⟨[], []⟩ (scripts.take n).flatten = .ok db.schema := by
  induction h with
  | empty => rfl
  | @script n db db' script _ hscript hrun ih =>
    rw [take_scripts hscript, Schema.alterAll_append, ih]
    exact alterAll_of_run hrun
  | content _ _ _ ih => exact ih

/-- A run of the last script leaves one row in the table of the version. -/
theorem version_of_switch {db' : Database Value} (h : run db switch_to_alembic = .ok db') :
    ∃ row, db'.rows "alembic_version" = [row] ∧
      row "version_num" = some (.text "9cf7cf124677") := by
  obtain ⟨_, _, h⟩ := run_cons_eq_ok_iff.mp h
  obtain ⟨_, _, h⟩ := run_cons_eq_ok_iff.mp h
  obtain ⟨created, hcreate, h⟩ := run_cons_eq_ok_iff.mp h
  obtain ⟨inserted, hinsert, h⟩ := run_cons_eq_ok_iff.mp h
  cases h
  obtain ⟨t, _, hrows⟩ := rows_of_insert hinsert
  rw [rows_of_create hcreate, List.nil_append] at hrows
  exact ⟨_, hrows, fill_of_lookup rfl⟩

/-- Behind the last script the version is that of the first revision. -/
theorem Accepted.version (h : Accepted n db) (hn : n = 5) :
    ∃ row, db.rows "alembic_version" = [row] ∧
      row "version_num" = some (.text "9cf7cf124677") := by
  induction h with
  | empty => cases hn
  | script h hscript hrun ih =>
    cases hn
    cases hscript
    exact version_of_switch hrun
  | content h hvalid hother ih =>
    obtain ⟨row, hrows, hrow⟩ := ih hn
    exact ⟨row, (hother "alembic_version" (by decide) (by decide)).trans hrows, hrow⟩

theorem Accepted.current (h : Accepted 5 db) : current .text versions db = .ok (some versions) := by
  obtain ⟨row, hrows, hrow⟩ := h.version rfl
  have hsome : (Schema.alterAll ⟨[], []⟩ (scripts.take 5).flatten).map
      (fun s => (s.table? "alembic_version").isSome) = .ok true := rfl
  rw [h.schema] at hsome
  obtain ⟨t, ht⟩ := Option.isSome_iff_exists.mp (Except.ok.inj hsome)
  unfold alembic.current
  simp only [ht, hrows, hrow]
  rfl

/-- The schema of the scripts does not allow the revisions that follow the first one. -/
theorem Accepted.forbidden (h : Accepted 5 db) :
    db.schema.alterAll (.create_table "alembic_version" versionTable true ::
      versions.tail.flatMap (Revision.up .text)) =
      .error (.DuplicateColumn "users" "default_routing_mode") := by
  have hforbidden : Schema.alterAll ⟨[], []⟩ ((scripts.take 5).flatten ++
      (.create_table "alembic_version" versionTable true ::
        versions.tail.flatMap (Revision.up .text))) =
      .error (.DuplicateColumn "users" "default_routing_mode") := rfl
  rw [Schema.alterAll_append, h.schema] at hforbidden
  exact hforbidden

/-- The upgrade of every database that the scripts accept fails: its second revision adds a
column that there is. -/
theorem the_histories_never_lead_to_the_same_database (h : Accepted 5 db) : ¬ LeadsToHead db := by
  rintro ⟨db', fresh, hupgrade, _⟩
  rw [upgrade_head, h.current] at hupgrade
  exact run_ne_ok_of_alterAll h.forbidden db' hupgrade

/-- Without other content the scripts run one behind the other. -/
theorem accepted_of_run (hn : n ≤ 5) (h : run empty (scripts.take n).flatten = .ok db) :
    Accepted n db := by
  induction n generalizing db with
  | zero =>
    cases h
    exact .empty
  | succ n ih =>
    have hscript : scripts[n]? = some scripts[n] := List.getElem?_eq_getElem hn
    rw [take_scripts hscript] at h
    obtain ⟨mid, hmid, hlast⟩ := run_append_eq_ok_iff.mp h
    exact (ih (Nat.le_of_succ_le hn) hmid).script hscript hlast

theorem exists_accepted : ∃ db, Accepted 5 db := by
  have hsome : (run empty (scripts.take 5).flatten).toOption.isSome = true := by decide +kernel
  cases hrun : run empty (scripts.take 5).flatten with
  | error e =>
    rw [hrun] at hsome
    cases hsome
  | ok db => exact ⟨db, accepted_of_run (le_refl 5) hrun⟩

theorem the_histories_do_not_meet_without_content : ∃ db, Accepted 5 db ∧ ¬ LeadsToHead db := by
  obtain ⟨db, h⟩ := exists_accepted
  exact ⟨db, h, the_histories_never_lead_to_the_same_database h⟩

theorem not_every_history_leads_to_head :
    ¬ ∀ db : Database Value, Accepted 5 db → LeadsToHead db := by
  intro hall
  obtain ⟨db, h⟩ := exists_accepted
  obtain ⟨db', fresh, hupgrade, _⟩ := hall db h
  rw [upgrade_head, h.current] at hupgrade
  exact run_ne_ok_of_alterAll h.forbidden db' hupgrade

end aristote_dispatcher.migrations
