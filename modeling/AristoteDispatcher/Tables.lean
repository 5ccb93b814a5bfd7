-- The tables of the users and of the metrics in the database at the last revision: what the
-- commands and `store_usage_metrics` (sender/main.py) send to it, and what it does with it.
-- The lengths of texts and the ranges of integers are left out.
import AristoteDispatcher.Migrations
import AristoteDispatcher.Users

open runs keyed sql alembic pyfloat
open aristote_dispatcher.manage_users

namespace aristote_dispatcher.migrations

/-- A row of the table `metrics`. -/
structure Metric where
  id : Nat
  user_name : String
  user_organization : Option String
  request_date : Option Int
  sent_to_llm_date : Option Int
  response_date : Option Int
  model : Option String
  server : Option String
  server_organization : Option String
  prompt_tokens : Option Int
  completion_tokens : Option Int
  strategy : Option String
  requeue_count : Option Int
  max_parallel_requests : Option Int
  current_parallel_requests : Option Int
  priority : Option Int
  performance_score : Option PyFloat
  routing_mode : Option String
  deriving DecidableEq

/-- Both tables, with the next id of the metrics. -/
structure State where
  users : Users
  metrics : List Metric
  next_id : Nat

def State.start : State := ⟨.empty, [], 1⟩

inductive Event
  | command (c : Command)
  | store_usage_metrics (metric : Metric)

/-- The database gives the id of a new metric. -/
def State.next (s : State) : Event → State
  | .command c => { s with users := (c.run s.users).2 }
  | .store_usage_metrics metric =>
    { s with metrics := s.metrics ++ [{ metric with id := s.next_id }], next_id := s.next_id + 1 }

/-! ## Rows -/

def userValues (row : manage_users.Row) : List (String × Option Value) :=
  [("id", some (.int row.id)), ("token", some (.text row.token)), ("name", some (.text row.name)),
    ("organization", row.organization.map .text), ("email", row.email.map .text),
    ("priority", some (.int row.priority)), ("threshold", some (.int row.threshold)),
    ("client_type", row.client_type.map .text),
    ("default_routing_mode", some (.text row.default_routing_mode))]

def metricValues (m : Metric) : List (String × Option Value) :=
  [("id", some (.int m.id)), ("user_name", some (.text m.user_name)),
    ("user_organization", m.user_organization.map .text),
    ("request_date", m.request_date.map .timestamp),
    ("sent_to_llm_date", m.sent_to_llm_date.map .timestamp),
    ("response_date", m.response_date.map .timestamp), ("model", m.model.map .text),
    ("server", m.server.map .text), ("server_organization", m.server_organization.map .text),
    ("prompt_tokens", m.prompt_tokens.map .int),
    ("completion_tokens", m.completion_tokens.map .int), ("strategy", m.strategy.map .text),
    ("requeue_count", m.requeue_count.map .int),
    ("max_parallel_requests", m.max_parallel_requests.map .int),
    ("current_parallel_requests", m.current_parallel_requests.map .int),
    ("priority", m.priority.map .int), ("performance_score", m.performance_score.map .float),
    ("routing_mode", m.routing_mode.map .text)]

def rowOf (values : List (String × Option Value)) : Row Value := fun column =>
  (values.lookup column).getD none

def userRow (row : manage_users.Row) : Row Value := rowOf (userValues row)

def metricRow (m : Metric) : Row Value := rowOf (metricValues m)

/-- The database is at the last revision, with the rows of both tables. -/
structure Stored (s : State) (db : Database Value) : Prop where
  schema : db.schema = head
  version : valuesOf db.rows "alembic_version" "version_num" = [some (.text "212c4b4d9489")]
  users : db.rows "users" = s.users.rows.map userRow
  metrics : db.rows "metrics" = s.metrics.map metricRow

/-! ## Statements -/

/-- The columns that an edit sets. -/
def Updates.given (updates : Updates) : List (String × Option Value) :=
  [("priority", updates.priority.map .int), ("threshold", updates.threshold.map .int),
    ("organization", updates.organization.map .text), ("email", updates.email.map .text),
    ("client_type", updates.client_type.map .text),
    ("default_routing_mode", updates.default_routing_mode.map .text)]

def setGiven (given : List (String × Option Value)) (row : Row Value) : Row Value := fun column =>
  match given.lookup column with
  | some (some v) => some v
  | _ => row column

/-- `WHERE users.id = ...`. -/
def hasId (id : Nat) (row : Row Value) : Bool := row "id" = some (.int id)

/-- What SQLAlchemy sends to the database, beside what it reads. -/
def statements (s : State) : Event → List (Statement Value)
  | .command (.add_user new_user) => [.insert "users" (userValues (new_user.row s.users.next_id))]
  | .command (.delete_user token) =>
    match s.users.first token with
    | none => []
    | some row =>
      match load row with
      | .error _ => []
      | .ok _ => [.delete "users" (hasId row.id)]
  | .command (.edit_user token updates) =>
    if updates = {} then []
    else match s.users.first token with
      | none => []
      | some row =>
        match load row with
        | .error _ => []
        | .ok _ => [.update "users" (hasId row.id) (setGiven (Updates.given updates))]
  | .store_usage_metrics metric =>
    [.insert "metrics" (metricValues { metric with id := s.next_id })]

/-- A session that fails is rolled back. -/
def send (db : Database Value) (ss : List (Statement Value)) : Database Value :=
  match run db ss with
  | .ok db' => db'
  | .error _ => db

/-- The tables beside the database that the statements are sent to. -/
structure System where
  tables : State
  database : Database Value

def System.step (y : System) (e : Event) : Option System :=
  some ⟨y.tables.next e, send y.database (statements y.tables e)⟩

variable {s s' : State} {e : Event} {db : Database Value}

/-- Ids are those of the sequences, and ids, tokens and names are distinct. -/
structure Sound (s : State) : Prop where
  users : Distinct s.users
  ids : (s.metrics.map (·.id)).Nodup
  below : ∀ m ∈ s.metrics, m.id < s.next_id

theorem sound_start : Sound .start := ⟨distinct_empty, List.nodup_nil, fun _ h => (by cases h)⟩

theorem sound_next (h : Sound s) (e : Event) : Sound (s.next e) := by
  cases e with
  | command c => exact ⟨distinct_run h.users c, h.ids, h.below⟩
  | store_usage_metrics metric =>
    refine ⟨h.users, nodup_snoc h.ids fun m hm => Nat.ne_of_lt (h.below m hm), fun m hm => ?_⟩
    rcases List.mem_append.mp hm with hold | hlast
    · exact Nat.lt_succ_of_lt (h.below m hold)
    · rw [List.mem_singleton.mp hlast]
      exact Nat.lt_succ_self _

/-! ## The constraints of the database -/

def users_table : Table Value where
  columns := initial_users.columns ++ [default_routing_mode_column]
  constraints := initial_users.constraints

def metrics_table : Table Value where
  columns := initial_metrics.columns ++
    [Integer "requeue_count" true, Integer "max_parallel_requests" true,
      Integer "current_parallel_requests" true, Integer "priority" true, Text "strategy" true,
      Float "performance_score" true, Text "routing_mode" true, Text "user_organization" true,
      Text "server_organization" true]
  constraints := [.primary_key "metrics_pkey" "id"]

theorem head_tables : head.tables =
    [("alembic_version", versionTable), ("users", users_table), ("metrics", metrics_table)] := rfl

/-- No column of a row is NULL against its will. -/
theorem complete_of_all {columns : List (Column Value)} {rows : List (Row Value)}
    (h : ∀ r ∈ rows, (columns.all fun c => c.nullable || (r c.name).isSome) = true)
    {c : Column Value} (hc : c ∈ columns) : c.Holds (rows.map fun r => r c.name) := by
  by_cases hnullable : c.nullable = true
  · exact .inl hnullable
  · refine .inr fun hnone => ?_
    obtain ⟨r, hr, heq⟩ := List.mem_map.mp hnone
    have hall := List.all_eq_true.mp (h r hr) c hc
    simp [hnullable, heq] at hall

theorem complete_users (rows : List manage_users.Row) {c : Column Value}
    (hc : c ∈ users_table.columns) :
    c.Holds ((rows.map userRow).map fun r => r c.name) := by
  refine complete_of_all (fun r hr => ?_) hc
  obtain ⟨row, _, rfl⟩ := List.mem_map.mp hr
  rfl

theorem complete_metrics (metrics : List Metric) {c : Column Value}
    (hc : c ∈ metrics_table.columns) :
    c.Holds ((metrics.map metricRow).map fun r => r c.name) := by
  refine complete_of_all (fun r hr => ?_) hc
  obtain ⟨m, _, rfl⟩ := List.mem_map.mp hr
  rfl

/-- The values of a column that is given by a field. -/
theorem valuesOf_map {α β : Type} {rows : String → List (Row Value)} {table column : String}
    {xs : List α} {row : α → Row Value} {field : α → β} {value : β → Value}
    (hrows : rows table = xs.map row) (h : ∀ a, row a column = some (value (field a))) :
    valuesOf rows table column = (xs.map field).map fun b => some (value b) := by
  rw [valuesOf, hrows, List.map_map, List.map_map]
  exact List.map_congr_left fun a _ => h a

theorem nodup_values_iff {β : Type} {xs : List β} {value : β → Value}
    (hinj : Function.Injective value) :
    (xs.map fun b => some (value b)).Nodup ↔ xs.Nodup :=
  List.nodup_map_iff fun _ _ h => hinj (Option.some.inj h)

theorem filterMap_values {β : Type} (xs : List β) (value : β → Value) :
    (xs.map fun b => some (value b)).filterMap id = xs.map value := by
  rw [List.filterMap_map]
  exact congrFun List.filterMap_eq_map xs

theorem int_injective : Function.Injective fun i : Nat => Value.int i :=
  fun _ _ h => Int.ofNat.inj (Value.int.inj h)

/-- The constraints of the users are those on ids, names and tokens. -/
theorem users_hold_iff {rows : String → List (Row Value)} {users : List manage_users.Row}
    (hrows : rows "users" = users.map userRow) :
    (∀ k ∈ users_table.constraints, k.Holds (valuesOf rows) "users") ↔
      (users.map (·.id)).Nodup ∧ (users.map (·.name)).Nodup ∧ (users.map (·.token)).Nodup := by
  have hid : valuesOf rows "users" "id" = (users.map (·.id)).map fun i => some (.int i) :=
    valuesOf_map hrows fun _ => rfl
  have hname : valuesOf rows "users" "name" = (users.map (·.name)).map fun t => some (.text t) :=
    valuesOf_map hrows fun _ => rfl
  have htoken : valuesOf rows "users" "token" =
      (users.map (·.token)).map fun t => some (.text t) := valuesOf_map hrows fun _ => rfl
  unfold users_table initial_users
  simp only [List.forall_mem_cons, Constraint.Holds, hid, hname, htoken, filterMap_values,
    nodup_values_iff int_injective, List.nodup_map_iff text_injective]
  simp

theorem metrics_hold_iff {rows : String → List (Row Value)} {metrics : List Metric}
    (hrows : rows "metrics" = metrics.map metricRow) :
    (∀ k ∈ metrics_table.constraints, k.Holds (valuesOf rows) "metrics") ↔
      (metrics.map (·.id)).Nodup := by
  have hid : valuesOf rows "metrics" "id" = (metrics.map (·.id)).map fun i => some (.int i) :=
    valuesOf_map hrows fun _ => rfl
  unfold metrics_table
  simp only [List.forall_mem_cons, Constraint.Holds, hid, nodup_values_iff int_injective]
  simp

/-- The constraints hold of the stored rows exactly when ids, names and tokens are distinct. -/
theorem Stored.valid_iff (h : Stored s db) : db.Valid ↔
    ((s.users.rows.map (·.id)).Nodup ∧ (s.users.rows.map (·.name)).Nodup ∧
      (s.users.rows.map (·.token)).Nodup) ∧ (s.metrics.map (·.id)).Nodup := by
  rw [← users_hold_iff h.users, ← metrics_hold_iff h.metrics]
  unfold Database.Valid
  rw [h.schema, head_tables, List.forall_mem_cons, List.forall_mem_cons, List.forall_mem_singleton]
  constructor
  · rintro ⟨_, ⟨_, husers⟩, _, hmetrics⟩
    exact ⟨husers, hmetrics⟩
  · rintro ⟨husers, hmetrics⟩
    refine ⟨?_, ⟨fun c hc => ?_, husers⟩, fun c hc => ?_, hmetrics⟩
    · simp [versionTable, Column.Holds, Constraint.Holds, h.version]
    · rw [valuesOf, h.users]
      exact complete_users _ hc
    · rw [valuesOf, h.metrics]
      exact complete_metrics _ hc

/-- What is stored of sound tables is a database at the last revision. -/
theorem Stored.at_head (h : Stored s db) (hs : Sound s) : At .text "212c4b4d9489" head db :=
  ⟨h.valid_iff.mpr ⟨⟨hs.users.ids, hs.users.names, hs.users.tokens⟩, hs.ids⟩, h.schema, h.version⟩

/-! ## The database follows the tables -/

def user_columns : List String :=
  ["id", "token", "name", "organization", "email", "priority", "threshold", "client_type",
    "default_routing_mode"]

def metric_columns : List String :=
  ["id", "user_name", "user_organization", "request_date", "sent_to_llm_date", "response_date",
    "model", "server", "server_organization", "prompt_tokens", "completion_tokens", "strategy",
    "requeue_count", "max_parallel_requests", "current_parallel_requests", "priority",
    "performance_score", "routing_mode"]

theorem fill_users (row : manage_users.Row) : users_table.fill (userValues row) = userRow row :=
  fill_of_complete (by decide : ∀ c ∈ users_table.columns, c.name ∈ user_columns)

theorem fill_metrics (m : Metric) : metrics_table.fill (metricValues m) = metricRow m :=
  fill_of_complete (by decide : ∀ c ∈ metrics_table.columns, c.name ∈ metric_columns)

/-- New rows of the users are stored where the old ones were. -/
theorem Stored.update_users (h : Stored s db) {users : Users} {rows : List (Row Value)}
    (hrows : rows = users.rows.map userRow) :
    Stored { s with users := users } ⟨head, Function.update db.rows "users" rows⟩ := by
  have hself : Function.update db.rows "users" rows "users" = rows := Function.update_self ..
  have hother : ∀ table, table ≠ "users" →
      Function.update db.rows "users" rows table = db.rows table :=
    fun table hne => Function.update_of_ne hne _ _
  refine ⟨rfl, ?_, hself.trans hrows, (hother "metrics" (by decide)).trans h.metrics⟩
  rw [← h.version]
  exact congrArg (List.map _) (hother "alembic_version" (by decide))

theorem Stored.update_metrics (h : Stored s db) {metrics : List Metric} {rows : List (Row Value)}
    {next_id : Nat} (hrows : rows = metrics.map metricRow) :
    Stored { s with metrics := metrics, next_id := next_id }
      ⟨head, Function.update db.rows "metrics" rows⟩ := by
  have hself : Function.update db.rows "metrics" rows "metrics" = rows := Function.update_self ..
  have hother : ∀ table, table ≠ "metrics" →
      Function.update db.rows "metrics" rows table = db.rows table :=
    fun table hne => Function.update_of_ne hne _ _
  refine ⟨rfl, ?_, (hother "users" (by decide)).trans h.users, hself.trans hrows⟩
  rw [← h.version]
  exact congrArg (List.map _) (hother "alembic_version" (by decide))

/-- A statement on the rows is accepted if what it leads to is sound. -/
theorem send_of_sound {statement : Statement Value} (hs : Sound s)
    (halter : db.schema.alter statement = .ok head)
    (h : Stored s ⟨head, statement.rows db⟩) : Stored s (send db [statement]) := by
  have hexec : exec db statement = .ok ⟨head, statement.rows db⟩ :=
    exec_eq_ok_iff.mpr ⟨halter, rfl, (h.at_head hs).valid⟩
  rw [send, run_cons_ok hexec, run]
  exact h

/-! ## Commands -/

theorem table_users (h : Stored s db) : db.schema.table? "users" = some users_table := by
  rw [h.schema]
  rfl

theorem table_metrics (h : Stored s db) : db.schema.table? "metrics" = some metrics_table := by
  rw [h.schema]
  rfl

/-- An insert of a user, before the constraints are checked. -/
theorem stored_insert (h : Stored s db) (row : manage_users.Row) (next_id : Nat) :
    Stored { s with users := ⟨s.users.rows ++ [row], next_id⟩ }
      ⟨head, Statement.rows db (.insert "users" (userValues row))⟩ := by
  rw [Statement.rows, table_users h]
  refine h.update_users ?_
  rw [h.users, fill_users, List.map_append, List.map_singleton]

theorem alter_insert (h : Stored s db) (row : manage_users.Row) :
    db.schema.alter (.insert "users" (userValues row)) = .ok head := by
  rw [h.schema]
  rfl

/-- A token or a name that is taken is refused. -/
theorem send_taken (h : Stored s db) {new_user : NewUser} {id : Nat}
    (htaken : s.users.taken new_user = true) :
    send db [.insert "users" (userValues (new_user.row id))] = db := by
  have hinvalid : ¬ Database.Valid
      ⟨head, Statement.rows db (.insert "users" (userValues (new_user.row id)))⟩ := by
    rw [(stored_insert h (new_user.row id) 0).valid_iff]
    rintro ⟨⟨_, hnames, htokens⟩, _⟩
    rw [List.map_append, List.map_singleton, List.nodup_append] at hnames htokens
    obtain ⟨row, hrow, heq⟩ := List.any_eq_true.mp htaken
    rcases Bool.or_eq_true_iff.mp heq with htoken | hname
    · exact htokens.2.2 _ (List.mem_map_of_mem hrow) _ (List.mem_singleton_self _)
        (of_decide_eq_true htoken)
    · exact hnames.2.2 _ (List.mem_map_of_mem hrow) _ (List.mem_singleton_self _)
        (of_decide_eq_true hname)
  rw [send, run, exec_of_not_valid (alter_insert h _) hinvalid]

theorem stored_add_user (h : Stored s db) (hs : Sound s) (new_user : NewUser) :
    Stored (s.next (.command (.add_user new_user)))
      (send db (statements s (.command (.add_user new_user)))) := by
  rw [statements]
  by_cases htaken : s.users.taken new_user = true
  · rw [send_taken h htaken]
    have hnext : s.next (.command (.add_user new_user)) =
        { s with users := ⟨s.users.rows, s.users.next_id + 1⟩ } := by
      rw [State.next, Command.run, add_user, if_pos htaken]
    rw [hnext]
    exact ⟨h.schema, h.version, h.users, h.metrics⟩
  · have hnext : s.next (.command (.add_user new_user)) = { s with users :=
        ⟨s.users.rows ++ [new_user.row s.users.next_id], s.users.next_id + 1⟩ } := by
      rw [State.next, Command.run, add_user, if_neg htaken]
    refine send_of_sound (sound_next hs _) (alter_insert h _) ?_
    rw [hnext]
    exact stored_insert h _ _

theorem hasId_userRow (id : Nat) (row : manage_users.Row) :
    hasId id (userRow row) = decide (row.id = id) := by
  have hvalue : userRow row "id" = some (.int row.id) := rfl
  rw [hasId, hvalue, decide_eq_decide, Option.some.injEq]
  exact int_injective.eq_iff

theorem stored_delete_user (h : Stored s db) (hs : Sound s) (token : String) :
    Stored (s.next (.command (.delete_user token)))
      (send db (statements s (.command (.delete_user token)))) := by
  have hsound := sound_next hs (.command (.delete_user token))
  simp only [statements, State.next, Command.run, delete_user] at hsound ⊢
  cases hfirst : s.users.first token with
  | none => exact h
  | some row =>
    simp only [hfirst] at hsound ⊢
    cases hload : load row with
    | error e => exact h
    | ok user =>
      simp only [hload] at hsound ⊢
      refine send_of_sound hsound ?_ (h.update_users ?_)
      · rw [h.schema]
        rfl
      · rw [h.users, List.filter_map]
        refine congrArg _ (List.filter_congr fun r _ => ?_)
        rw [Function.comp_apply, hasId_userRow, decide_not]

theorem lookup_eq_none {values : List (String × Option Value)} {column : String}
    (h : column ∉ values.map (·.1)) : values.lookup column = none := by
  refine List.lookup_eq_none_iff.mpr fun e he => ?_
  rw [bne_iff_ne]
  rintro rfl
  exact h (List.mem_map_of_mem he)

theorem given_columns (updates : Updates) :
    (Updates.given updates).map (·.1) ⊆ user_columns :=
  (by decide : ["priority", "threshold", "organization", "email", "client_type",
    "default_routing_mode"] ⊆ user_columns)

/-- An edit sets the columns of the row as it sets the fields. -/
theorem setGiven_userRow (updates : Updates) (row : manage_users.Row) :
    setGiven (Updates.given updates) (userRow row) = userRow (updates.apply row) := by
  funext column
  by_cases hcolumn : column ∈ user_columns
  · obtain ⟨priority, threshold, organization, email, client_type, default_routing_mode⟩ := updates
    simp only [user_columns, List.mem_cons, List.not_mem_nil, or_false] at hcolumn
    rcases hcolumn with rfl | rfl | rfl | rfl | rfl | rfl | rfl | rfl | rfl
    · rfl
    · rfl
    · rfl
    · cases organization <;> rfl
    · cases email <;> rfl
    · cases priority <;> rfl
    · cases threshold <;> rfl
    · cases client_type <;> rfl
    · cases default_routing_mode <;> rfl
  · have hnone : ∀ row, userRow row column = none := by
      intro row
      have hlookup : (userValues row).lookup column = none := lookup_eq_none hcolumn
      rw [userRow, rowOf, hlookup]
      rfl
    rw [setGiven, lookup_eq_none fun h => hcolumn (given_columns updates h), hnone, hnone]

theorem stored_edit_user (h : Stored s db) (hs : Sound s) (token : String) (updates : Updates) :
    Stored (s.next (.command (.edit_user token updates)))
      (send db (statements s (.command (.edit_user token updates)))) := by
  have hsound := sound_next hs (.command (.edit_user token updates))
  simp only [statements, State.next, Command.run, edit_user] at hsound ⊢
  by_cases hempty : updates = {}
  · simp only [if_pos hempty]
    exact h
  simp only [if_neg hempty] at hsound ⊢
  cases hfirst : s.users.first token with
  | none => exact h
  | some row =>
    simp only [hfirst] at hsound ⊢
    cases hload : load row with
    | error e => exact h
    | ok user =>
      simp only [hload] at hsound ⊢
      have hrows : ((db.rows "users").map fun r =>
          if hasId row.id r then setGiven (Updates.given updates) r else r) =
          (s.users.rows.map fun r => if r.id = row.id then updates.apply r else r).map userRow := by
        rw [h.users, List.map_map, List.map_map]
        refine List.map_congr_left fun r _ => ?_
        simp only [Function.comp_apply, hasId_userRow, decide_eq_true_eq]
        split
        · exact setGiven_userRow updates r
        · rfl
      have halter : db.schema.alter (.update "users" (hasId row.id)
          (setGiven (Updates.given updates))) = .ok head := by
        rw [h.schema]
        rfl
      cases hbehind : load (updates.apply row) with
      | error e =>
        simp only [hbehind] at hsound ⊢
        exact send_of_sound hsound halter (h.update_users hrows)
      | ok user' =>
        simp only [hbehind] at hsound ⊢
        exact send_of_sound hsound halter (h.update_users hrows)

theorem stored_store_usage_metrics (h : Stored s db) (hs : Sound s) (metric : Metric) :
    Stored (s.next (.store_usage_metrics metric))
      (send db (statements s (.store_usage_metrics metric))) := by
  refine send_of_sound (sound_next hs (.store_usage_metrics metric)) ?_ ?_
  · rw [h.schema]
    rfl
  · rw [Statement.rows, table_metrics h]
    refine h.update_metrics ?_
    rw [h.metrics, fill_metrics, List.map_append, List.map_singleton]

/-- The database has the tables behind every event. -/
theorem stored_next (h : Stored s db) (hs : Sound s) (e : Event) :
    Stored (s.next e) (send db (statements s e)) := by
  cases e with
  | command c =>
    cases c with
    | add_user new_user => exact stored_add_user h hs new_user
    | delete_user token => exact stored_delete_user h hs token
    | edit_user token updates => exact stored_edit_user h hs token updates
  | store_usage_metrics metric => exact stored_store_usage_metrics h hs metric

/-- The upgrade of the empty database stores the empty tables. -/
theorem stored_start : ∃ db, upgrade_head .text versions empty = .ok db ∧ Stored .start db := by
  have hany : ((upgrade_head .text versions empty).toOption.any fun db =>
      decide (db.schema = head) && decide (valuesOf db.rows "alembic_version" "version_num" =
        [some (.text "212c4b4d9489")]) && (db.rows "users").isEmpty &&
        (db.rows "metrics").isEmpty) = true := by
    decide +kernel
  cases hrun : upgrade_head .text versions empty with
  | error e =>
    rw [hrun] at hany
    cases hany
  | ok db =>
    rw [hrun] at hany
    simp only [Except.toOption, Option.any_some, Bool.and_eq_true, decide_eq_true_eq,
      List.isEmpty_iff] at hany
    obtain ⟨⟨⟨hschema, hversion⟩, husers⟩, hmetrics⟩ := hany
    exact ⟨db, rfl, hschema, hversion, husers, hmetrics⟩

/-- In every run of the system, the database has the tables. -/
theorem stored_run {ok : System → Event → Prop} {es : List Event} {y : System}
    (hstart : Stored .start db) (h : Run System.step ok ⟨.start, db⟩ es y) :
    Sound y.tables ∧ Stored y.tables y.database := by
  refine h.invariant (I := fun y => Sound y.tables ∧ Stored y.tables y.database)
    ⟨sound_start, hstart⟩ fun y e y' hy _ hstep => ?_
  cases hstep
  exact ⟨sound_next hy.1 e, stored_next hy.2 hy.1 e⟩

end aristote_dispatcher.migrations
