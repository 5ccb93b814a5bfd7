-- Relational databases: tables with columns and constraints, statements that change the
-- schema or the rows, and scripts. A statement fails when the schema forbids it or when a
-- constraint does not hold behind it. What it does to the schema does not depend on the
-- rows. Nothing here names this repository.
import Mathlib.Data.List.Forall2
import Mathlib.Logic.Function.Basic

namespace sql

/-! ## Schemas -/

/-- A default is none where the column has none, or NULL. -/
structure Column (V : Type*) where
  name : String
  type : String
  nullable : Bool := true
  default : Option V := none
  deriving DecidableEq

inductive Constraint
  | primary_key (name column : String)
  | unique (name column : String)
  | foreign_key (name column table reference : String)
  deriving DecidableEq

def Constraint.name : Constraint → String
  | .primary_key name _ | .unique name _ | .foreign_key name _ _ _ => name

def Constraint.column : Constraint → String
  | .primary_key _ column | .unique _ column | .foreign_key _ column _ _ => column

structure Table (V : Type*) where
  columns : List (Column V)
  constraints : List Constraint
  deriving DecidableEq

/-- The tables by name, and the names of the enumerations. -/
structure Schema (V : Type*) where
  tables : List (String × Table V)
  types : List String
  deriving DecidableEq

/-- A row gives each column a value, and NULL to what is no column of its table. -/
abbrev Row (V : Type*) := String → Option V

structure Database (V : Type*) where
  schema : Schema V
  rows : String → List (Row V)

inductive Error
  | DuplicateObject (name : String)
  | UndefinedObject (name : String)
  | DuplicateTable (name : String)
  | UndefinedTable (name : String)
  | DuplicateColumn (table name : String)
  | UndefinedColumn (table name : String)
  | InvalidForeignKey (name : String)
  | DependentObjects (name : String)
  | IntegrityError
  | CantLocateRevision
  deriving DecidableEq

inductive Statement (V : Type*)
  | create_type (name : String)
  | drop_type (name : String) (if_exists : Bool)
  | create_table (name : String) (table : Table V) (if_not_exists : Bool)
  | drop_table (name : String)
  | add_column (table : String) (column : Column V)
  | drop_column (table name : String)
  | set_not_null (table name : String)
  | alter_type (table name type : String)
  | add_constraint (table : String) (constraint : Constraint)
  | drop_constraint (table name : String)
  | insert (table : String) (values : List (String × Option V))
  | update (table : String) (condition : Row V → Bool) (change : Row V → Row V)
  | delete (table : String) (condition : Row V → Bool)

variable {V : Type*}

def Table.column? (t : Table V) (name : String) : Option (Column V) :=
  t.columns.find? (·.name = name)

def Schema.table? (s : Schema V) (name : String) : Option (Table V) := s.tables.lookup name

/-- A table with its definition changed. -/
def Schema.set (s : Schema V) (name : String) (t : Table V) : Schema V :=
  { s with tables := s.tables.map fun e => if e.1 = name then (name, t) else e }

/-- A foreign key refers to the column. -/
def Schema.referenced (s : Schema V) (table column : String) : Bool :=
  s.tables.any fun e => e.2.constraints.any fun
    | .foreign_key _ _ t c => t = table && c = column
    | _ => false

/-- A foreign key of another table refers to the table. -/
def Schema.referencedTable (s : Schema V) (table : String) : Bool :=
  s.tables.any fun e => e.1 ≠ table && e.2.constraints.any fun
    | .foreign_key _ _ t _ => t = table
    | _ => false

def Schema.usesType (s : Schema V) (type : String) : Bool :=
  s.tables.any fun e => e.2.columns.any (·.type = type)

/-- The values of the column are distinct. -/
def Table.distinct (t : Table V) (column : String) : Bool :=
  t.constraints.any fun
    | .primary_key _ c | .unique _ c => c = column
    | .foreign_key .. => false

def Schema.add_constraint (s : Schema V) (table : String) (c : Constraint) :
    Except Error (Schema V) :=
  match s.table? table with
  | none => .error (.UndefinedTable table)
  | some t =>
    if t.constraints.any (·.name = c.name) then .error (.DuplicateObject c.name)
    else if t.column? c.column = none then .error (.UndefinedColumn table c.column)
    else
      let added := s.set table { t with constraints := t.constraints ++ [c] }
      match c with
      | .foreign_key name _ other reference =>
        match s.table? other with
        | none => .error (.UndefinedTable other)
        | some o => if o.distinct reference then .ok added else .error (.InvalidForeignKey name)
      | _ => .ok added

/-- The schema behind a statement. -/
def Schema.alter (s : Schema V) : Statement V → Except Error (Schema V)
  | .create_type name =>
    if name ∈ s.types then .error (.DuplicateObject name)
    else .ok { s with types := s.types ++ [name] }
  | .drop_type name if_exists =>
    if name ∉ s.types then if if_exists then .ok s else .error (.UndefinedObject name)
    else if s.usesType name then .error (.DependentObjects name)
    else .ok { s with types := s.types.filter (· ≠ name) }
  | .create_table name table if_not_exists =>
    match s.table? name with
    | some _ => if if_not_exists then .ok s else .error (.DuplicateTable name)
    | none => table.constraints.foldlM (·.add_constraint name)
        { s with tables := s.tables ++ [(name, ⟨table.columns, []⟩)] }
  | .drop_table name =>
    match s.table? name with
    | none => .error (.UndefinedTable name)
    | some _ =>
      if s.referencedTable name then .error (.DependentObjects name)
      else .ok { s with tables := s.tables.filter (·.1 ≠ name) }
  | .add_column table column =>
    match s.table? table with
    | none => .error (.UndefinedTable table)
    | some t =>
      match t.column? column.name with
      | some _ => .error (.DuplicateColumn table column.name)
      | none => .ok (s.set table { t with columns := t.columns ++ [column] })
  | .drop_column table name =>
    match s.table? table with
    | none => .error (.UndefinedTable table)
    | some t =>
      match t.column? name with
      | none => .error (.UndefinedColumn table name)
      | some _ =>
        if s.referenced table name then .error (.DependentObjects name)
        else .ok (s.set table
          ⟨t.columns.filter (·.name ≠ name), t.constraints.filter (·.column ≠ name)⟩)
  | .set_not_null table name =>
    match s.table? table with
    | none => .error (.UndefinedTable table)
    | some t =>
      match t.column? name with
      | none => .error (.UndefinedColumn table name)
      | some _ => .ok (s.set table { t with
          columns := t.columns.map fun c =>
            if c.name = name then { c with nullable := false } else c })
  | .alter_type table name type =>
    match s.table? table with
    | none => .error (.UndefinedTable table)
    | some t =>
      match t.column? name with
      | none => .error (.UndefinedColumn table name)
      | some _ => .ok (s.set table { t with
          columns := t.columns.map fun c => if c.name = name then { c with type := type } else c })
  | .add_constraint table constraint => s.add_constraint table constraint
  | .drop_constraint table name =>
    match s.table? table with
    | none => .error (.UndefinedTable table)
    | some t =>
      match t.constraints.find? (·.name = name) with
      | none => .error (.UndefinedObject name)
      | some (.foreign_key ..) =>
        .ok (s.set table { t with constraints := t.constraints.filter (·.name ≠ name) })
      | some c =>
        if s.referenced table c.column then .error (.DependentObjects name)
        else .ok (s.set table { t with constraints := t.constraints.filter (·.name ≠ name) })
  | .insert table values =>
    match s.table? table with
    | none => .error (.UndefinedTable table)
    | some t =>
      match values.find? fun e => t.column? e.1 = none with
      | some e => .error (.UndefinedColumn table e.1)
      | none => .ok s
  | .update table _ _ | .delete table _ =>
    match s.table? table with
    | none => .error (.UndefinedTable table)
    | some _ => .ok s

/-! ## Rows -/

/-- An inserted row. A column that is not given has its default. -/
def Table.fill (t : Table V) (values : List (String × Option V)) : Row V := fun column =>
  match values.lookup column with
  | some v => v
  | none => (t.column? column).bind (·.default)

/-- The rows behind a statement. -/
def Statement.rows (db : Database V) : Statement V → String → List (Row V)
  | .create_table name _ _ =>
    if db.schema.table? name = none then Function.update db.rows name [] else db.rows
  | .drop_table name => Function.update db.rows name []
  | .add_column table column => Function.update db.rows table
      ((db.rows table).map fun r => Function.update r column.name column.default)
  | .drop_column table name => Function.update db.rows table
      ((db.rows table).map fun r => Function.update r name none)
  | .insert table values =>
    match db.schema.table? table with
    | none => db.rows
    | some t => Function.update db.rows table (db.rows table ++ [t.fill values])
  | .update table condition change => Function.update db.rows table
      ((db.rows table).map fun r => if condition r then change r else r)
  | .delete table condition => Function.update db.rows table
      ((db.rows table).filter fun r => !condition r)
  | _ => db.rows

/-- The values of a column. -/
def valuesOf (rows : String → List (Row V)) (table column : String) : List (Option V) :=
  (rows table).map fun r => r column

def Column.Holds (c : Column V) (values : List (Option V)) : Prop :=
  c.nullable = true ∨ none ∉ values

/-- A unique column may have many NULLs, and a foreign key asks nothing of one. -/
def Constraint.Holds (values : String → String → List (Option V)) (table : String) :
    Constraint → Prop
  | .primary_key _ column => none ∉ values table column ∧ (values table column).Nodup
  | .unique _ column => ((values table column).filterMap id).Nodup
  | .foreign_key _ column other reference =>
    ∀ v ∈ values table column, v = none ∨ v ∈ values other reference

/-- Every constraint holds. -/
def Database.Valid (db : Database V) : Prop :=
  ∀ e ∈ db.schema.tables, (∀ c ∈ e.2.columns, c.Holds (valuesOf db.rows e.1 c.name)) ∧
    ∀ k ∈ e.2.constraints, k.Holds (valuesOf db.rows) e.1

section

variable [DecidableEq V]

instance (c : Column V) (values : List (Option V)) : Decidable (c.Holds values) :=
  inferInstanceAs (Decidable (_ ∨ _))

instance (values : String → String → List (Option V)) (table : String) :
    (k : Constraint) → Decidable (k.Holds values table)
  | .primary_key _ _ => inferInstanceAs (Decidable (_ ∧ _))
  | .unique _ _ => inferInstanceAs (Decidable (List.Nodup _))
  | .foreign_key .. => inferInstanceAs (Decidable (∀ _ ∈ _, _))

instance (db : Database V) : Decidable db.Valid :=
  inferInstanceAs (Decidable (∀ _ ∈ _, _))

def exec (db : Database V) (s : Statement V) : Except Error (Database V) :=
  match db.schema.alter s with
  | .error e => .error e
  | .ok schema =>
    if Database.Valid ⟨schema, s.rows db⟩ then .ok ⟨schema, s.rows db⟩ else .error .IntegrityError

/-- A script. In a transaction, a script that fails leaves the database as it was. -/
def run (db : Database V) : List (Statement V) → Except Error (Database V)
  | [] => .ok db
  | s :: ss =>
    match exec db s with
    | .error e => .error e
    | .ok db' => run db' ss

end

/-- What a script does to the schema. -/
def Schema.alterAll (schema : Schema V) : List (Statement V) → Except Error (Schema V)
  | [] => .ok schema
  | s :: ss =>
    match schema.alter s with
    | .error e => .error e
    | .ok schema' => schema'.alterAll ss

/-! ## Scripts and schemas -/

section

variable [DecidableEq V] {db db' : Database V} {s : Statement V} {ss : List (Statement V)}

theorem exec_eq_ok_iff : exec db s = .ok db' ↔
    db.schema.alter s = .ok db'.schema ∧ db'.rows = s.rows db ∧ db'.Valid := by
  unfold exec
  constructor
  · intro h
    split at h
    · cases h
    · rename_i schema halter
      split at h
      · rename_i hvalid
        cases h
        exact ⟨halter, rfl, hvalid⟩
      · cases h
  · rintro ⟨halter, hrows, hvalid⟩
    rw [halter]
    obtain ⟨schema, rows⟩ := db'
    cases hrows
    exact if_pos hvalid

theorem run_cons_ok (h : exec db s = .ok db') : run db (s :: ss) = run db' ss := by
  rw [run, h]

theorem run_cons_eq_ok_iff : run db (s :: ss) = .ok db' ↔
    ∃ mid, exec db s = .ok mid ∧ run mid ss = .ok db' := by
  rw [run]
  cases exec db s with
  | error e => simp
  | ok mid => simp

/-- A new table has no rows. -/
theorem rows_of_create {name : String} {t : Table V}
    (h : exec db (.create_table name t false) = .ok db') : db'.rows name = [] := by
  obtain ⟨halter, hrows, _⟩ := exec_eq_ok_iff.mp h
  rw [Schema.alter] at halter
  split at halter
  · cases halter
  · rename_i hnone
    rw [hrows, Statement.rows, if_pos hnone, Function.update_self]

/-- An inserted row is behind the others. -/
theorem rows_of_insert {table : String} {values : List (String × Option V)}
    (h : exec db (.insert table values) = .ok db') :
    ∃ t, db.schema.table? table = some t ∧ db'.rows table = db.rows table ++ [t.fill values] := by
  obtain ⟨halter, hrows, _⟩ := exec_eq_ok_iff.mp h
  rw [Schema.alter] at halter
  split at halter
  · cases halter
  · rename_i t ht
    refine ⟨t, ht, ?_⟩
    rw [hrows, Statement.rows, ht]
    exact Function.update_self ..

omit [DecidableEq V] in
theorem fill_of_lookup {t : Table V} {values : List (String × Option V)} {column : String}
    {v : Option V} (h : values.lookup column = some v) : t.fill values column = v := by
  rw [Table.fill, h]

omit [DecidableEq V] in
/-- A row whose columns are all given has no default. -/
theorem fill_of_complete {t : Table V} {values : List (String × Option V)}
    (h : ∀ c ∈ t.columns, c.name ∈ values.map (·.1)) :
    t.fill values = fun column => (values.lookup column).getD none := by
  funext column
  rw [Table.fill]
  cases hlookup : values.lookup column with
  | some v => rfl
  | none =>
    have hnone : t.column? column = none := by
      refine List.find?_eq_none.mpr fun c hc heq => ?_
      obtain ⟨e, he, hname⟩ := List.mem_map.mp (h c hc)
      have hne := List.lookup_eq_none_iff.mp hlookup e he
      simp [hname, of_decide_eq_true heq] at hne
    rw [hnone]
    rfl

/-- A statement that breaks a constraint is refused. -/
theorem exec_of_not_valid {schema : Schema V} (halter : db.schema.alter s = .ok schema)
    (h : ¬ Database.Valid ⟨schema, s.rows db⟩) : exec db s = .error .IntegrityError := by
  rw [exec, halter]
  exact if_neg h

theorem run_append (ss ss' : List (Statement V)) : run db (ss ++ ss') =
    match run db ss with
    | .error e => .error e
    | .ok db' => run db' ss' := by
  induction ss generalizing db with
  | nil => rfl
  | cons s ss ih =>
    rw [List.cons_append, run, run]
    cases exec db s with
    | error e => rfl
    | ok db' => exact ih

theorem run_append_eq_ok_iff {ss' : List (Statement V)} : run db (ss ++ ss') = .ok db' ↔
    ∃ mid, run db ss = .ok mid ∧ run mid ss' = .ok db' := by
  rw [run_append]
  cases run db ss with
  | error e => simp
  | ok mid => simp

/-- The schema behind a script is that of the schema before it. -/
theorem alterAll_of_run (h : run db ss = .ok db') : db.schema.alterAll ss = .ok db'.schema := by
  induction ss generalizing db with
  | nil =>
    cases h
    rfl
  | cons s ss ih =>
    rw [run] at h
    split at h
    · cases h
    · rename_i mid hexec
      rw [Schema.alterAll, (exec_eq_ok_iff.mp hexec).1]
      exact ih h

omit [DecidableEq V] in
theorem Schema.alterAll_append (schema : Schema V) (ss ss' : List (Statement V)) :
    schema.alterAll (ss ++ ss') =
      match schema.alterAll ss with
      | .error e => .error e
      | .ok schema' => schema'.alterAll ss' := by
  induction ss generalizing schema with
  | nil => rfl
  | cons s ss ih =>
    rw [List.cons_append, Schema.alterAll, Schema.alterAll]
    cases schema.alter s with
    | error e => rfl
    | ok schema' => exact ih schema'

/-- A script that the schema forbids fails, whatever the rows. -/
theorem run_ne_ok_of_alterAll {e : Error} (h : db.schema.alterAll ss = .error e) :
    ∀ db', run db ss ≠ .ok db' := by
  intro db' hrun
  rw [alterAll_of_run hrun] at h
  cases h

end

/-! ## Statements that no constraint can stop -/

/-- The columns that a constraint of a table reads. -/
def Constraint.reads (table : String) : Constraint → List (String × String)
  | .primary_key _ column | .unique _ column => [(table, column)]
  | .foreign_key _ column other reference => [(table, column), (other, reference)]

/-- A constraint reads the column. -/
def Schema.mentions (s : Schema V) (table column : String) : Bool :=
  s.tables.any fun e => e.2.constraints.any fun k => (k.reads e.1).contains (table, column)

/-- The statement cannot break a constraint: it takes something away, or it adds a column that
no constraint reads and that is never NULL against its will. -/
def Statement.benign (s : Schema V) : Statement V → Bool
  | .add_column table column =>
    (column.nullable || column.default.isSome) && !s.mentions table column.name
  | .drop_column .. | .drop_constraint .. => true
  | _ => false

variable {schema : Schema V} {rows rows' : String → List (Row V)} {table name : String}
  {t : Table V}

theorem table?_mem (h : schema.table? table = some t) : (table, t) ∈ schema.tables := by
  obtain ⟨before, after, htables, _⟩ := List.lookup_eq_some_iff.mp h
  rw [htables]
  exact List.mem_append_right _ (List.mem_cons_self ..)

theorem mem_set {e : String × Table V} (h : e ∈ (schema.set table t).tables) :
    e = (table, t) ∨ e ∈ schema.tables ∧ e.1 ≠ table := by
  obtain ⟨old, hold, rfl⟩ := List.mem_map.mp h
  split
  · exact .inl rfl
  · rename_i hne
    exact .inr ⟨hold, hne⟩

theorem holds_congr {values values' : String → String → List (Option V)} {k : Constraint}
    (h : ∀ p ∈ k.reads table, values' p.1 p.2 = values p.1 p.2) (hk : k.Holds values table) :
    k.Holds values' table := by
  cases k with
  | primary_key name column =>
    have hcolumn := h (table, column) (by simp [Constraint.reads])
    simp only [Constraint.Holds] at hcolumn hk ⊢
    rwa [hcolumn]
  | unique name column =>
    have hcolumn := h (table, column) (by simp [Constraint.reads])
    simp only [Constraint.Holds] at hcolumn hk ⊢
    rwa [hcolumn]
  | foreign_key name column other reference =>
    have hcolumn := h (table, column) (by simp [Constraint.reads])
    have hother := h (other, reference) (by simp [Constraint.reads])
    simp only [Constraint.Holds] at hcolumn hother hk ⊢
    rwa [hcolumn, hother]

/-- One column of a table gets other values. -/
theorem valuesOf_update {v : Option V} {other column : String}
    (h : ¬ (other = table ∧ column = name)) :
    valuesOf (Function.update rows table ((rows table).map fun r => Function.update r name v))
      other column = valuesOf rows other column := by
  unfold valuesOf
  by_cases ht : other = table
  · have hc : column ≠ name := fun hc => h ⟨ht, hc⟩
    subst ht
    rw [Function.update_self, List.map_map]
    exact List.map_congr_left fun r _ => Function.update_of_ne hc _ _
  · rw [Function.update_of_ne ht]

theorem mem_valuesOf_update {v w : Option V}
    (h : w ∈ valuesOf (Function.update rows table
      ((rows table).map fun r => Function.update r name v)) table name) : w = v := by
  unfold valuesOf at h
  rw [Function.update_self, List.map_map] at h
  obtain ⟨r, _, rfl⟩ := List.mem_map.mp h
  rw [Function.comp_apply, Function.update_self]

theorem not_reads_of_not_mentions (h : schema.mentions table name = false)
    {e : String × Table V} (he : e ∈ schema.tables) {k : Constraint} (hk : k ∈ e.2.constraints) :
    ∀ p ∈ k.reads e.1, ¬ (p.1 = table ∧ p.2 = name) := by
  rintro ⟨p1, p2⟩ hp ⟨rfl, rfl⟩
  unfold Schema.mentions at h
  rw [List.any_eq_false] at h
  have hentry := h e he
  rw [Bool.not_eq_true, List.any_eq_false] at hentry
  exact hentry k hk (List.contains_iff_mem.mpr hp)

theorem column_ne_of_none {column : Column V} (h : t.column? name = none)
    (hc : column ∈ t.columns) : column.name ≠ name := by
  simpa using List.find?_eq_none.mp h column hc

/-- A new column that no constraint reads. -/
theorem valid_add_column {column : Column V} (h : Database.Valid ⟨schema, rows⟩)
    (ht : schema.table? table = some t) (hnew : t.column? column.name = none)
    (hvalue : column.nullable = true ∨ column.default ≠ none)
    (hmentions : schema.mentions table column.name = false) :
    Database.Valid ⟨schema.set table { t with columns := t.columns ++ [column] },
      Function.update rows table
        ((rows table).map fun r => Function.update r column.name column.default)⟩ := by
  have hconstraints : ∀ e ∈ schema.tables, ∀ k ∈ e.2.constraints, k.Holds (valuesOf
      (Function.update rows table ((rows table).map fun r =>
        Function.update r column.name column.default))) e.1 := by
    intro e he k hk
    refine holds_congr (fun p hp => valuesOf_update ?_) ((h e he).2 k hk)
    exact not_reads_of_not_mentions hmentions he hk p hp
  intro e he
  rcases mem_set he with rfl | ⟨hold, hne⟩
  · refine ⟨fun c hc => ?_, hconstraints (table, t) (table?_mem ht)⟩
    rcases List.mem_append.mp hc with hc | hc
    · rw [valuesOf_update fun hboth => column_ne_of_none hnew hc hboth.2]
      exact (h _ (table?_mem ht)).1 c hc
    · rw [List.mem_singleton.mp hc]
      exact hvalue.imp_right fun hdefault hnone => hdefault (mem_valuesOf_update hnone).symm
  · refine ⟨fun c hc => ?_, hconstraints e hold⟩
    rw [valuesOf_update fun hboth => hne hboth.1]
    exact (h e hold).1 c hc

/-- Without a reference from a foreign key, only constraints on the column itself read it. -/
theorem not_reads_of_not_referenced (h : schema.referenced table name = false)
    {e : String × Table V} (he : e ∈ schema.tables) {k : Constraint} (hk : k ∈ e.2.constraints)
    (hcolumn : ¬ (e.1 = table ∧ k.column = name)) :
    ∀ p ∈ k.reads e.1, ¬ (p.1 = table ∧ p.2 = name) := by
  unfold Schema.referenced at h
  rw [List.any_eq_false] at h
  have hentry := h e he
  rw [Bool.not_eq_true, List.any_eq_false] at hentry
  have hkey := hentry k hk
  intro p hp
  cases k with
  | primary_key name column =>
    rw [List.mem_singleton.mp hp]
    exact hcolumn
  | unique name column =>
    rw [List.mem_singleton.mp hp]
    exact hcolumn
  | foreign_key name column other reference =>
    rcases List.mem_cons.mp hp with rfl | hp
    · exact hcolumn
    · rw [List.mem_singleton.mp hp]
      simpa using hkey

theorem valid_drop_column (h : Database.Valid ⟨schema, rows⟩)
    (ht : schema.table? table = some t) (hreferenced : schema.referenced table name = false) :
    Database.Valid ⟨schema.set table
        ⟨t.columns.filter (·.name ≠ name), t.constraints.filter (·.column ≠ name)⟩,
      Function.update rows table ((rows table).map fun r => Function.update r name none)⟩ := by
  intro e he
  rcases mem_set he with rfl | ⟨hold, hne⟩
  · refine ⟨fun c hc => ?_, fun k hk => ?_⟩
    · obtain ⟨hc, hname⟩ := List.mem_filter.mp hc
      rw [valuesOf_update fun hboth => by simp [hboth.2] at hname]
      exact (h _ (table?_mem ht)).1 c hc
    · obtain ⟨hk, hname⟩ := List.mem_filter.mp hk
      refine holds_congr (fun p hp => valuesOf_update ?_) ((h _ (table?_mem ht)).2 k hk)
      refine not_reads_of_not_referenced hreferenced (table?_mem ht) hk ?_ p hp
      rintro ⟨_, hcolumn⟩
      simp [hcolumn] at hname
  · refine ⟨fun c hc => ?_, fun k hk => ?_⟩
    · rw [valuesOf_update fun hboth => hne hboth.1]
      exact (h e hold).1 c hc
    · refine holds_congr (fun p hp => valuesOf_update ?_) ((h e hold).2 k hk)
      exact not_reads_of_not_referenced hreferenced hold hk (fun hboth => hne hboth.1) p hp

theorem valid_drop_constraint (h : Database.Valid ⟨schema, rows⟩)
    (ht : schema.table? table = some t) :
    Database.Valid ⟨schema.set table
      { t with constraints := t.constraints.filter (·.name ≠ name) }, rows⟩ := by
  intro e he
  rcases mem_set he with rfl | ⟨hold, _⟩
  · obtain ⟨hcolumns, hconstraints⟩ := h _ (table?_mem ht)
    exact ⟨hcolumns, fun k hk => hconstraints k (List.mem_filter.mp hk).1⟩
  · exact h e hold

/-- No constraint of another table reads a table that is dropped. -/
theorem valid_drop_table (h : Database.Valid ⟨schema, rows⟩)
    (hreferenced : schema.referencedTable table = false) :
    Database.Valid ⟨{ schema with tables := schema.tables.filter (·.1 ≠ table) },
      Function.update rows table []⟩ := by
  intro e he
  obtain ⟨hold, hne⟩ := List.mem_filter.mp he
  have hvalues : ∀ other column, other ≠ table →
      valuesOf (Function.update rows table []) other column = valuesOf rows other column := by
    intro other column hother
    rw [valuesOf, Function.update_of_ne hother]
    rfl
  refine ⟨fun c hc => ?_, fun k hk => ?_⟩
  · rw [hvalues _ _ (of_decide_eq_true hne)]
    exact (h e hold).1 c hc
  · refine holds_congr (fun p hp => hvalues _ _ ?_) ((h e hold).2 k hk)
    unfold Schema.referencedTable at hreferenced
    rw [List.any_eq_false] at hreferenced
    have hentry := hreferenced e hold
    rw [hne, Bool.true_and, Bool.not_eq_true, List.any_eq_false] at hentry
    have hkey := hentry k hk
    cases k with
    | primary_key name column =>
      rw [List.mem_singleton.mp hp]
      exact of_decide_eq_true hne
    | unique name column =>
      rw [List.mem_singleton.mp hp]
      exact of_decide_eq_true hne
    | foreign_key name column other reference =>
      rcases List.mem_cons.mp hp with rfl | hp
      · exact of_decide_eq_true hne
      · rw [List.mem_singleton.mp hp]
        simpa using hkey

/-- A benign statement that the schema allows keeps every constraint. -/
theorem valid_of_benign {s : Statement V} (h : Database.Valid ⟨schema, rows⟩)
    {schema' : Schema V} (halter : schema.alter s = .ok schema') (hb : s.benign schema = true) :
    Database.Valid ⟨schema', s.rows ⟨schema, rows⟩⟩ := by
  cases s with
  | add_column table column =>
    rw [Schema.alter] at halter
    split at halter
    · cases halter
    · rename_i t ht
      split at halter
      · cases halter
      · rename_i hnew
        cases halter
        simp only [Statement.benign, Bool.and_eq_true, Bool.or_eq_true, Bool.not_eq_true'] at hb
        refine valid_add_column h ht hnew (hb.1.imp_right fun hsome => ?_) hb.2
        exact Option.isSome_iff_ne_none.mp hsome
  | drop_column table name =>
    rw [Schema.alter] at halter
    split at halter
    · cases halter
    · rename_i t ht
      split at halter
      · cases halter
      · split at halter
        · cases halter
        · rename_i hreferenced
          cases halter
          exact valid_drop_column h ht (by simpa using hreferenced)
  | drop_constraint table name =>
    rw [Schema.alter] at halter
    split at halter
    · cases halter
    · rename_i t ht
      split at halter
      · cases halter
      · cases halter
        exact valid_drop_constraint h ht
      · split at halter
        · cases halter
        · cases halter
          exact valid_drop_constraint h ht
  | _ => cases hb

/-- A constraint that the schema allows stands behind those of its table. -/
theorem set_of_add_constraint {k : Constraint} {schema' : Schema V}
    (halter : schema.add_constraint table k = .ok schema') :
    ∃ t, schema.table? table = some t ∧
      schema' = schema.set table { t with constraints := t.constraints ++ [k] } := by
  unfold Schema.add_constraint at halter
  split at halter
  · cases halter
  · rename_i t ht
    refine ⟨t, ht, ?_⟩
    split at halter
    · cases halter
    · split at halter
      · cases halter
      · cases k with
        | foreign_key name column other reference =>
          simp only at halter
          split at halter
          · cases halter
          · split at halter
            · exact (Except.ok.inj halter).symm
            · cases halter
        | _ => exact (Except.ok.inj halter).symm

theorem valid_add_constraint_iff {k : Constraint} (h : Database.Valid ⟨schema, rows⟩)
    {schema' : Schema V} (halter : schema.add_constraint table k = .ok schema') :
    Database.Valid ⟨schema', rows⟩ ↔ k.Holds (valuesOf rows) table := by
  obtain ⟨t, ht, rfl⟩ := set_of_add_constraint halter
  constructor
  · intro hvalid
    have hmem : (table, { t with constraints := t.constraints ++ [k] }) ∈
        (schema.set table { t with constraints := t.constraints ++ [k] }).tables :=
      List.mem_map.mpr ⟨_, table?_mem ht, if_pos rfl⟩
    exact (hvalid _ hmem).2 k (List.mem_append_right _ (List.mem_singleton_self k))
  · intro hk e he
    rcases mem_set he with rfl | ⟨hold, _⟩
    · obtain ⟨hcolumns, hconstraints⟩ := h _ (table?_mem ht)
      refine ⟨hcolumns, fun k' hk' => ?_⟩
      rcases List.mem_append.mp hk' with hk' | hk'
      · exact hconstraints k' hk'
      · rw [List.mem_singleton.mp hk']
        exact hk
    · exact h e hold

/-- What the statements of a script allow, one by one. -/
def Schema.allBenign (schema : Schema V) : List (Statement V) → Bool
  | [] => true
  | s :: ss =>
    match schema.alter s with
    | .error _ => false
    | .ok schema' => s.benign schema && schema'.allBenign ss

/-! ## What a script keeps of the rows -/

/-- The rows go on in their order, with the values of these columns. -/
def Kept (columns : List String) (rows rows' : List (Row V)) : Prop :=
  List.Forall₂ (fun r r' => ∀ c ∈ columns, r' c = r c) rows rows'

theorem Kept.refl (columns : List String) (rows : List (Row V)) : Kept columns rows rows :=
  List.forall₂_same.mpr fun _ _ _ _ => rfl

theorem Kept.trans {columns : List String} {rows rows' rows'' : List (Row V)}
    (h : Kept columns rows rows') (h' : Kept columns rows' rows'') : Kept columns rows rows'' := by
  induction h generalizing rows'' with
  | nil => exact h'
  | cons hr _ ih =>
    cases h' with
    | cons hr' hrest => exact .cons (fun c hc => (hr' c hc).trans (hr c hc)) (ih hrest)

theorem Kept.map_eq {columns : List String} {rows rows' : List (Row V)} {column : String}
    (h : Kept columns rows rows') (hc : column ∈ columns) :
    (rows'.map fun r => r column) = rows.map fun r => r column := by
  induction h with
  | nil => rfl
  | cons hr _ ih => rw [List.map_cons, List.map_cons, hr column hc, ih]

theorem kept_update {columns : List String} (h : name ∉ columns) (rows : List (Row V))
    (v : Option V) : Kept columns rows (rows.map fun r => Function.update r name v) := by
  rw [Kept, List.forall₂_map_right_iff]
  refine List.forall₂_same.mpr fun r _ c hc => Function.update_of_ne ?_ _ _
  rintro rfl
  exact h hc

/-- The statement leaves the rows of the table, and these columns of them. -/
def Statement.leaves (table : String) (columns : List String) : Statement V → Bool
  | .add_column other column => other ≠ table || column.name ∉ columns
  | .drop_column other name => other ≠ table || name ∉ columns
  | .create_table other _ _ | .drop_table other | .insert other _ | .update other _ _
  | .delete other _ => other ≠ table
  | _ => true

theorem kept_of_leaves (db : Database V) {columns : List String} {s : Statement V}
    (h : s.leaves table columns = true) : Kept columns (db.rows table) (s.rows db table) := by
  have hother : ∀ {other : String} (rows' : List (Row V)), decide (other ≠ table) = true →
      Kept columns (db.rows table) (Function.update db.rows other rows' table) := by
    intro other rows' hne
    rw [Function.update_of_ne (Ne.symm (of_decide_eq_true hne))]
    exact .refl columns _
  have hcolumn : ∀ {other name : String} (v : Option V),
      (decide (other ≠ table) || decide (name ∉ columns)) = true →
      Kept columns (db.rows table) (Function.update db.rows other
        ((db.rows other).map fun r => Function.update r name v) table) := by
    intro other name v hor
    rcases Bool.or_eq_true_iff.mp hor with hne | hnot
    · exact hother _ hne
    · by_cases heq : table = other
      · subst heq
        rw [Function.update_self]
        exact kept_update (of_decide_eq_true hnot) _ v
      · rw [Function.update_of_ne heq]
        exact .refl columns _
  cases s with
  | create_table other t if_not_exists =>
    rw [Statement.rows]
    split
    · exact hother _ h
    · exact .refl columns _
  | drop_table other => exact hother _ h
  | add_column other column => exact hcolumn _ h
  | drop_column other name => exact hcolumn _ h
  | insert other values =>
    rw [Statement.rows]
    cases db.schema.table? other with
    | none => exact .refl columns _
    | some t => exact hother _ h
  | update other condition change => exact hother _ h
  | delete other condition => exact hother _ h
  | _ => exact .refl columns _

section

variable [DecidableEq V] {db db' : Database V} {ss : List (Statement V)}

/-- A script of benign statements succeeds on every valid database. -/
theorem run_of_benign (h : db.Valid) (hb : db.schema.allBenign ss = true) :
    ∃ db', run db ss = .ok db' ∧ db'.Valid := by
  induction ss generalizing db with
  | nil => exact ⟨db, rfl, h⟩
  | cons s ss ih =>
    rw [Schema.allBenign] at hb
    split at hb
    · cases hb
    · rename_i schema' halter
      obtain ⟨hs, hss⟩ := Bool.and_eq_true_iff.mp hb
      have hvalid : Database.Valid ⟨schema', s.rows db⟩ := valid_of_benign h halter hs
      have hexec : exec db s = .ok ⟨schema', s.rows db⟩ :=
        exec_eq_ok_iff.mpr ⟨halter, rfl, hvalid⟩
      rw [run_cons_ok hexec]
      exact ih hvalid hss

theorem exec_add_constraint_iff {k : Constraint} (h : db.Valid) {schema' : Schema V}
    (halter : db.schema.add_constraint table k = .ok schema') :
    (∃ db', exec db (.add_constraint table k) = .ok db') ↔ k.Holds (valuesOf db.rows) table := by
  rw [← valid_add_constraint_iff h halter]
  constructor
  · rintro ⟨db', hexec⟩
    obtain ⟨halter', hrows, hvalid⟩ := exec_eq_ok_iff.mp hexec
    rw [Schema.alter, halter, Except.ok.injEq] at halter'
    rw [halter', ← show db'.rows = db.rows from hrows]
    exact hvalid
  · intro hvalid
    exact ⟨⟨schema', db.rows⟩, exec_eq_ok_iff.mpr ⟨halter, rfl, hvalid⟩⟩

theorem kept_run {columns : List String} (h : ∀ s ∈ ss, s.leaves table columns = true)
    (hrun : run db ss = .ok db') : Kept columns (db.rows table) (db'.rows table) := by
  induction ss generalizing db with
  | nil =>
    cases hrun
    exact .refl columns _
  | cons s ss ih =>
    rw [run] at hrun
    split at hrun
    · cases hrun
    · rename_i mid hexec
      have hfirst := kept_of_leaves db (h s (List.mem_cons_self ..))
      rw [← (exec_eq_ok_iff.mp hexec).2.1] at hfirst
      exact hfirst.trans (ih (fun s' hs' => h s' (List.mem_cons_of_mem _ hs')) hrun)

end

/-! ## What a script makes of each row -/

/-- The statement changes the rows of the table by its columns only. -/
def Statement.reshapes (table : String) : Statement V → Bool
  | .create_table other _ _ | .drop_table other | .insert other _ | .update other _ _
  | .delete other _ => other ≠ table
  | _ => true

/-- What such a statement makes of a row. -/
def Statement.reshape (table : String) (r : Row V) : Statement V → Row V
  | .add_column other column =>
    if other = table then Function.update r column.name column.default else r
  | .drop_column other name => if other = table then Function.update r name none else r
  | _ => r

def reshaped (table : String) (ss : List (Statement V)) (r : Row V) : Row V :=
  ss.foldl (Statement.reshape table) r

/-- The columns of the table that a script adds or drops. -/
def written (table : String) (ss : List (Statement V)) : List String :=
  ss.flatMap fun
    | .add_column other column => if other = table then [column.name] else []
    | .drop_column other name => if other = table then [name] else []
    | _ => []

theorem rows_of_reshapes (db : Database V) {s : Statement V} (h : s.reshapes table = true) :
    s.rows db table = (db.rows table).map fun r => s.reshape table r := by
  have hsame : (db.rows table).map (fun r => r) = db.rows table := List.map_id' _
  have hother : ∀ {other : String} (rows' : List (Row V)), decide (other ≠ table) = true →
      Function.update db.rows other rows' table = (db.rows table).map fun r => r := by
    intro other rows' hne
    rw [hsame]
    exact Function.update_of_ne (Ne.symm (of_decide_eq_true hne)) _ _
  have hcolumn : ∀ (other : String) (f : Row V → Row V),
      Function.update db.rows other ((db.rows other).map f) table =
        (db.rows table).map fun r => if other = table then f r else r := by
    intro other f
    by_cases heq : other = table
    · subst heq
      simp
    · rw [Function.update_of_ne (Ne.symm heq)]
      simp [heq]
  cases s with
  | create_table other t if_not_exists =>
    rw [Statement.rows]
    split
    · exact hother _ h
    · exact hsame.symm
  | drop_table other => exact hother _ h
  | add_column other column => exact hcolumn other _
  | drop_column other name => exact hcolumn other _
  | insert other values =>
    rw [Statement.rows]
    cases db.schema.table? other with
    | none => exact hsame.symm
    | some t => exact hother _ h
  | update other condition change => exact hother _ h
  | delete other condition => exact hother _ h
  | _ => exact hsame.symm

/-- A table that the schema allows to drop is dropped, whatever its rows. -/
theorem exec_drop_table [DecidableEq V] {db : Database V} (h : db.Valid)
    (halter : db.schema.alter (.drop_table name) = .ok schema) :
    exec db (.drop_table name) = .ok ⟨schema, Function.update db.rows name []⟩ := by
  refine exec_eq_ok_iff.mpr ⟨halter, rfl, ?_⟩
  rw [Schema.alter] at halter
  split at halter
  · cases halter
  · split at halter
    · cases halter
    · rename_i hreferenced
      cases halter
      exact valid_drop_table h (by simpa using hreferenced)

/-- A script that only changes columns of the table makes the same of each row. -/
theorem rows_of_run [DecidableEq V] {db db' : Database V} {ss : List (Statement V)}
    (h : ∀ s ∈ ss, s.reshapes table = true) (hrun : run db ss = .ok db') :
    db'.rows table = (db.rows table).map (reshaped table ss) := by
  induction ss generalizing db with
  | nil =>
    cases hrun
    exact (List.map_id' _).symm
  | cons s ss ih =>
    obtain ⟨mid, hexec, hrest⟩ := run_cons_eq_ok_iff.mp hrun
    rw [ih (fun s' hs' => h s' (List.mem_cons_of_mem _ hs')) hrest,
      (exec_eq_ok_iff.mp hexec).2.1, rows_of_reshapes db (h s (List.mem_cons_self ..)),
      List.map_map]
    rfl

theorem reshaped_append (ss ss' : List (Statement V)) (r : Row V) :
    reshaped table (ss ++ ss') r = reshaped table ss' (reshaped table ss r) :=
  List.foldl_append

/-- The other columns stay. -/
theorem reshaped_of_not_written {ss : List (Statement V)} {column : String}
    (h : column ∉ written table ss) (r : Row V) : reshaped table ss r column = r column := by
  induction ss generalizing r with
  | nil => rfl
  | cons s ss ih =>
    rw [written, List.flatMap_cons, List.mem_append, not_or] at h
    obtain ⟨hfirst, hrest⟩ := h
    rw [reshaped, List.foldl_cons]
    refine (ih hrest _).trans ?_
    cases s with
    | add_column other c =>
      rw [Statement.reshape]
      dsimp only at hfirst
      split
      · rename_i heq
        rw [if_pos heq, List.mem_singleton] at hfirst
        exact Function.update_of_ne hfirst _ _
      · rfl
    | drop_column other name =>
      rw [Statement.reshape]
      dsimp only at hfirst
      split
      · rename_i heq
        rw [if_pos heq, List.mem_singleton] at hfirst
        exact Function.update_of_ne hfirst _ _
      · rfl
    | _ => rfl

/-- A database without rows breaks no constraint. -/
theorem valid_of_no_rows (h : ∀ table ∈ schema.tables.map (·.1), rows table = []) :
    Database.Valid ⟨schema, rows⟩ := by
  intro e he
  have hnone : ∀ column, valuesOf rows e.1 column = [] := by
    intro column
    rw [valuesOf, h e.1 (List.mem_map_of_mem he)]
    rfl
  refine ⟨fun c _ => .inr ?_, fun k _ => ?_⟩
  · dsimp only
    rw [hnone]
    exact List.not_mem_nil
  · cases k <;> simp [Constraint.Holds, hnone]

/-! ## Statements on the rows of one table -/

/-- No constraint of another table reads the table. -/
def Schema.isolated (s : Schema V) (table : String) : Bool :=
  s.tables.all fun e => e.1 = table || e.2.constraints.all fun k =>
    (k.reads e.1).all fun p => p.1 ≠ table

/-- Only the constraints of the table itself can break when its rows change. -/
theorem valid_of_isolated (h : Database.Valid ⟨schema, rows⟩)
    (hisolated : schema.isolated table = true)
    (hsame : ∀ other, other ≠ table → rows' other = rows other)
    (htable : ∀ t, (table, t) ∈ schema.tables →
      (∀ c ∈ t.columns, c.Holds (valuesOf rows' table c.name)) ∧
        ∀ k ∈ t.constraints, k.Holds (valuesOf rows') table) :
    Database.Valid ⟨schema, rows'⟩ := by
  have hvalues : ∀ other column, other ≠ table →
      valuesOf rows' other column = valuesOf rows other column := by
    intro other column hne
    unfold valuesOf
    rw [hsame other hne]
  intro e he
  by_cases heq : e.1 = table
  · obtain ⟨name, t⟩ := e
    subst heq
    exact htable t he
  · obtain ⟨hcolumns, hconstraints⟩ := h e he
    refine ⟨fun c hc => ?_, fun k hk => ?_⟩
    · rw [hvalues e.1 c.name heq]
      exact hcolumns c hc
    · refine holds_congr (fun p hp => hvalues p.1 p.2 ?_) (hconstraints k hk)
      unfold Schema.isolated at hisolated
      rw [List.all_eq_true] at hisolated
      have hentry := (Bool.or_eq_true_iff.mp (hisolated e he)).resolve_left (by simpa using heq)
      rw [List.all_eq_true] at hentry
      exact of_decide_eq_true (List.all_eq_true.mp (hentry k hk) p hp)

end sql
