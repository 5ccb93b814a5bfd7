-- A chain of revisions of a database, each with a script for both ways. The version is a row
-- of a table of its own. An upgrade or a downgrade is one transaction. Nothing here names
-- this repository.
import AristoteDispatcher.Lib.Sql

open sql

namespace alembic

structure Revision (V : Type*) where
  revision : String
  down_revision : Option String
  upgrade : List (Statement V)
  downgrade : List (Statement V)

variable {V : Type*}

/-- The revisions follow each other, from one without a predecessor on. -/
def chained : Option String → List (Revision V) → Bool
  | _, [] => true
  | down_revision, r :: rs => r.down_revision = down_revision && chained (some r.revision) rs

def versionTable : Table V where
  columns := [{ name := "version_num", type := "VARCHAR(32)", nullable := false }]
  constraints := [.primary_key "alembic_version_pkc" "version_num"]

section

variable [DecidableEq V] (text : String → V)

/-- What is done to the version when a revision is passed. -/
def stamp : Option String → Option String → List (Statement V)
  | none, none => []
  | none, some target =>
    [.insert "alembic_version" [("version_num", some (text target))]]
  | some source, some target =>
    [.update "alembic_version" (fun r => r "version_num" = some (text source))
      fun r => Function.update r "version_num" (some (text target))]
  | some source, none =>
    [.delete "alembic_version" fun r => r "version_num" = some (text source)]

def Revision.up (r : Revision V) : List (Statement V) :=
  r.upgrade ++ stamp text r.down_revision (some r.revision)

def Revision.down (r : Revision V) : List (Statement V) :=
  r.downgrade ++ stamp text (some r.revision) r.down_revision

/-- The revisions of the chain from that of the database on, with this one first. It has none
before its first upgrade. -/
def current (versions : List (Revision V)) (db : Database V) :
    Except Error (Option (List (Revision V))) :=
  match db.schema.table? "alembic_version" with
  | none => .ok none
  | some _ =>
    match db.rows "alembic_version" with
    | [] => .ok none
    | [row] =>
      match versions.dropWhile fun r => row "version_num" ≠ some (text r.revision) with
      | [] => .error .CantLocateRevision
      | rs => .ok (some rs)
    | _ => .error .CantLocateRevision

/-- The revisions that are not yet applied. -/
def pending (versions : List (Revision V)) : Option (List (Revision V)) → List (Revision V)
  | none => versions
  | some rs => rs.tail

/-- `alembic upgrade head`. -/
def upgrade_head (versions : List (Revision V)) (db : Database V) : Except Error (Database V) :=
  match current text versions db with
  | .error e => .error e
  | .ok rs => run db (.create_table "alembic_version" versionTable true ::
      (pending versions rs).flatMap (Revision.up text))

/-- `alembic downgrade -1`. -/
def downgrade (versions : List (Revision V)) (db : Database V) : Except Error (Database V) :=
  match current text versions db with
  | .ok (some (r :: _)) => run db (r.down text)
  | _ => .error .CantLocateRevision

/-- A number of downgrades, each of which succeeds. -/
def downgrades (versions : List (Revision V)) : Nat → Database V → Except Error (Database V)
  | 0, db => .ok db
  | n + 1, db =>
    match downgrade text versions db with
    | .error e => .error e
    | .ok db' => downgrades versions n db'

end

/-! ## One revision -/

/-- The table of the version is that of alembic, and no constraint of another table reads it. -/
structure Versioned (schema : Schema V) : Prop where
  isolated : schema.isolated "alembic_version" = true
  table : ∀ e ∈ schema.tables, e.1 = "alembic_version" → e.2 = versionTable
  exists_table : (schema.table? "alembic_version").isSome = true

instance [DecidableEq V] (schema : Schema V) : Decidable (Versioned schema) :=
  decidable_of_iff (schema.isolated "alembic_version" = true ∧
      (∀ e ∈ schema.tables, e.1 = "alembic_version" → e.2 = versionTable) ∧
      (schema.table? "alembic_version").isSome = true)
    ⟨fun ⟨h, h', h''⟩ => ⟨h, h', h''⟩, fun ⟨h, h', h''⟩ => ⟨h, h', h''⟩⟩

/-- The database is valid, has the schema, and its version is that of the revision. -/
structure At (text : String → V) (revision : String) (schema : Schema V) (db : Database V) :
    Prop where
  valid : db.Valid
  schema : db.schema = schema
  version : valuesOf db.rows "alembic_version" "version_num" = [some (text revision)]

section

variable [DecidableEq V] {text : String → V} {versions rs : List (Revision V)} {r : Revision V}
  {db db' : Database V} {source target : String} {schema schema' : Schema V}
  {ss : List (Statement V)}

omit [DecidableEq V] in
theorem At.row (h : At text source schema db) :
    ∃ row, db.rows "alembic_version" = [row] ∧ row "version_num" = some (text source) := by
  obtain ⟨row, hrows, hrow⟩ := List.map_eq_singleton_iff.mp h.version
  exact ⟨row, hrows, hrow⟩

/-- The new version breaks no constraint. -/
theorem exec_stamp (target : String) (h : At text source schema db) (hv : Versioned schema) :
    ∃ db', run db (stamp text (some source) (some target)) = .ok db' ∧
      At text target schema db' ∧
      ∀ table, table ≠ "alembic_version" → db'.rows table = db.rows table := by
  obtain ⟨row, hrows, hrow⟩ := h.row
  obtain ⟨t, ht⟩ := Option.isSome_iff_exists.mp hv.exists_table
  have hnew : valuesOf (Function.update db.rows "alembic_version"
      [Function.update row "version_num" (some (text target))]) "alembic_version" "version_num" =
        [some (text target)] := by
    simp [valuesOf]
  have hvalid : Database.Valid ⟨schema, Function.update db.rows "alembic_version"
      [Function.update row "version_num" (some (text target))]⟩ := by
    have hbefore : Database.Valid ⟨schema, db.rows⟩ := h.schema ▸ h.valid
    refine valid_of_isolated hbefore hv.isolated (fun other hne => ?_) fun t' ht' => ?_
    · exact Function.update_of_ne hne _ _
    · have htable : t' = versionTable := hv.table _ ht' rfl
      subst htable
      simp [versionTable, Column.Holds, Constraint.Holds, hnew]
  refine ⟨⟨schema, _⟩, ?_, ⟨hvalid, rfl, hnew⟩, fun table hne => Function.update_of_ne hne _ _⟩
  rw [stamp, run_cons_ok (exec_eq_ok_iff.mpr ⟨?_, ?_, hvalid⟩), run]
  · rw [h.schema, Schema.alter, ht]
  · simp [Statement.rows, hrows, hrow]

/-- What a script leads to, with the new version behind it. -/
structure Passed (text : String → V) (target : String) (schema : Schema V)
    (ss : List (Statement V)) (db db' : Database V) : Prop where
  at_target : At text target schema db'
  kept : ∀ table columns, table ≠ "alembic_version" →
    (∀ s ∈ ss, s.leaves table columns = true) → Kept columns (db.rows table) (db'.rows table)

/-- A script that leaves the version and succeeds. -/
theorem run_stamped (target : String) {mid : Database V} (h : At text source schema db)
    (hrun : run db ss = .ok mid) (hvalid : mid.Valid)
    (hleaves : ∀ s ∈ ss, s.leaves "alembic_version" ["version_num"] = true)
    (halter : schema.alterAll ss = .ok schema') (hv : Versioned schema') :
    ∃ db', run db (ss ++ stamp text (some source) (some target)) = .ok db' ∧
      Passed text target schema' ss db db' := by
  have hschema := alterAll_of_run hrun
  rw [h.schema, halter, Except.ok.injEq] at hschema
  have hmid : At text source schema' mid := by
    refine ⟨hvalid, hschema.symm, ?_⟩
    rw [← h.version]
    exact (kept_run hleaves hrun).map_eq (List.mem_singleton_self _)
  obtain ⟨db', hstamp, hat, hsame⟩ := exec_stamp target hmid hv
  refine ⟨db', run_append_eq_ok_iff.mpr ⟨mid, hrun, hstamp⟩, hat, fun table columns hne hall => ?_⟩
  rw [hsame table hne]
  exact kept_run hall hrun

/-- The script takes the schema to another one, and no rows can stop it. -/
structure Smooth (schema : Schema V) (ss : List (Statement V)) (schema' : Schema V) : Prop where
  benign : schema.allBenign ss = true
  leaves : ∀ s ∈ ss, s.leaves "alembic_version" ["version_num"] = true
  alter : schema.alterAll ss = .ok schema'
  versioned : Versioned schema'

theorem run_smooth (target : String) (h : At text source schema db)
    (hs : Smooth schema ss schema') :
    ∃ db', run db (ss ++ stamp text (some source) (some target)) = .ok db' ∧
      Passed text target schema' ss db db' := by
  obtain ⟨mid, hrun, hvalid⟩ := run_of_benign h.valid (h.schema ▸ hs.benign)
  exact run_stamped target h hrun hvalid hs.leaves hs.alter hs.versioned

/-- A new constraint is accepted by the rows it holds of. -/
theorem run_add_constraint (target : String) {table : String} {k : Constraint}
    (h : At text source schema db)
    (halter : schema.add_constraint table k = .ok schema') (hv : Versioned schema')
    (hk : k.Holds (valuesOf db.rows) table) :
    ∃ db', run db ([.add_constraint table k] ++ stamp text (some source) (some target)) = .ok db' ∧
      Passed text target schema' [.add_constraint table k] db db' := by
  obtain ⟨mid, hexec⟩ := (exec_add_constraint_iff h.valid (h.schema ▸ halter)).mpr hk
  refine run_stamped target h (run_cons_eq_ok_iff.mpr ⟨mid, hexec, rfl⟩)
    (exec_eq_ok_iff.mp hexec).2.2 ?_ ?_ hv
  · intro s hs
    rw [List.mem_singleton.mp hs]
    rfl
  · rw [Schema.alterAll, Schema.alter, halter]
    rfl

/-- And by no others. -/
theorem holds_of_run_add_constraint {table : String} {k : Constraint}
    (h : At text source schema db) (halter : schema.add_constraint table k = .ok schema')
    (hrun : run db ([.add_constraint table k] ++ ss) = .ok db') :
    k.Holds (valuesOf db.rows) table := by
  obtain ⟨mid, hexec, _⟩ := run_cons_eq_ok_iff.mp hrun
  exact (exec_add_constraint_iff h.valid (h.schema ▸ halter)).mp ⟨mid, hexec⟩

/-! ## Many revisions -/

/-- The schema behind the upgrades, when each of them is smooth. -/
def climb (schema : Schema V) : List (Revision V) → Option (Schema V)
  | [] => some schema
  | r :: rs =>
    match schema.alterAll r.upgrade with
    | .error _ => none
    | .ok schema' =>
      if schema.allBenign r.upgrade = true ∧
          (∀ s ∈ r.upgrade, s.leaves "alembic_version" ["version_num"] = true) ∧
          Versioned schema'
      then climb schema' rs else none

/-- The version behind the upgrades. -/
def climbed (source : String) : List (Revision V) → String
  | [] => source
  | r :: rs => climbed r.revision rs

theorem run_climb (h : At text source schema db) (hchained : chained (some source) rs = true)
    (hclimb : climb schema rs = some schema') :
    ∃ db', run db (rs.flatMap (Revision.up text)) = .ok db' ∧
      Passed text (climbed source rs) schema' (rs.flatMap (·.upgrade)) db db' := by
  induction rs generalizing source schema db with
  | nil =>
    cases hclimb
    exact ⟨db, rfl, h, fun table columns _ _ => .refl columns _⟩
  | cons r rs ih =>
    obtain ⟨hr, hrest⟩ := Bool.and_eq_true_iff.mp hchained
    rw [climb] at hclimb
    split at hclimb
    · cases hclimb
    · rename_i mid_schema halter
      obtain ⟨⟨hbenign, hleaves, hv⟩, hclimb⟩ := Option.ite_none_right_eq_some.mp hclimb
      obtain ⟨mid, hrun, hpassed⟩ := run_smooth r.revision h
        ⟨hbenign, hleaves, halter, hv⟩
      obtain ⟨db', hrun', hpassed'⟩ := ih hpassed.at_target hrest hclimb
      refine ⟨db', ?_, hpassed'.at_target, fun table columns hne hall => ?_⟩
      · rw [List.flatMap_cons, run_append_eq_ok_iff]
        refine ⟨mid, ?_, hrun'⟩
        rw [Revision.up, of_decide_eq_true hr]
        exact hrun
      · rw [List.flatMap_cons, List.forall_mem_append] at hall
        exact (hpassed.kept table columns hne hall.1).trans
          (hpassed'.kept table columns hne hall.2)

/-- The revisions from the version of the database on. -/
theorem current_of_at (hinj : Function.Injective text) (h : At text source schema db)
    (hv : Versioned schema) (hrs : versions.dropWhile (fun r => source ≠ r.revision) = r :: rs) :
    current text versions db = .ok (some (r :: rs)) := by
  obtain ⟨row, hrows, hrow⟩ := h.row
  obtain ⟨t, ht⟩ := Option.isSome_iff_exists.mp hv.exists_table
  have hpredicate : (fun r : Revision V => decide (row "version_num" ≠ some (text r.revision))) =
      fun r => decide (source ≠ r.revision) := by
    funext r
    rw [hrow, decide_eq_decide, ne_eq, Option.some.injEq, hinj.eq_iff]
  unfold current
  simp only [h.schema, ht, hrows, hpredicate, hrs]

theorem downgrade_of_at (hinj : Function.Injective text) (h : At text source schema db)
    (hv : Versioned schema) (hrs : versions.dropWhile (fun r => source ≠ r.revision) = r :: rs) :
    downgrade text versions db = run db (r.down text) := by
  unfold downgrade
  rw [current_of_at hinj h hv hrs]

theorem upgrade_head_of_at (hinj : Function.Injective text) (h : At text source schema db)
    (hv : Versioned schema) (hrs : versions.dropWhile (fun r => source ≠ r.revision) = r :: rs) :
    upgrade_head text versions db = run db (rs.flatMap (Revision.up text)) := by
  obtain ⟨t, ht⟩ := Option.isSome_iff_exists.mp hv.exists_table
  have hcreate : exec db (.create_table "alembic_version" versionTable true) = .ok db := by
    refine exec_eq_ok_iff.mpr ⟨?_, ?_, h.valid⟩
    · simp [Schema.alter, h.schema, ht]
    · simp [Statement.rows, h.schema, ht]
  unfold upgrade_head
  rw [current_of_at hinj h hv hrs]
  exact run_cons_ok hcreate

end

end alembic
