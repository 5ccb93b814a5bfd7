-- The table `users` and its administration (sender/command/manage_users.py,
-- sender/entities/user.py). The database enforces the unique and the not-null columns. The
-- enumeration of the routing mode is checked by nothing: an unknown text is stored as is, and
-- raises LookupError when the row is loaded.
import AristoteDispatcher.Lib.Keyed
import AristoteDispatcher.Lib.Runs
import AristoteDispatcher.Lib.Traverse
import AristoteDispatcher.Middleware

open runs keyed traverse
open aristote_dispatcher.messages
open aristote_dispatcher.middleware (RoutingMode User)

namespace aristote_dispatcher.manage_users

/-- A row as the database has it. -/
structure Row where
  id : Nat
  token : String
  name : String
  organization : Option String
  email : Option String
  priority : Int
  threshold : Int
  client_type : Option String
  default_routing_mode : String
  deriving DecidableEq, Repr

/-- The table, with the next number of the sequence of its ids. -/
structure Users where
  rows : List Row
  next_id : Nat
  deriving DecidableEq, Repr

def Users.empty : Users := ⟨[], 1⟩

inductive Exn
  | LookupError
  deriving DecidableEq, Repr

/-! ## Loading -/

/-- The member of the enumeration with that value. -/
def RoutingMode.ofValue? (value : String) : Option RoutingMode :=
  [RoutingMode.any, .private_first, .private_only].find? fun mode => mode.value = value

/-- A row as SQLAlchemy hands it over. -/
def load (row : Row) : Except Exn User :=
  match RoutingMode.ofValue? row.default_routing_mode with
  | none => .error .LookupError
  | some mode => .ok
      { name := row.name
        organization := row.organization
        threshold := some row.threshold
        client_type := row.client_type
        token := row.token
        priority := row.priority
        default_routing_mode := mode }

/-- `query.filter(...).all()`. -/
def list_users (t : Users) (criteria : Row → Bool) : Except Exn (List User) :=
  (t.rows.filter criteria).mapM load

/-- `session.query(User).filter_by(token=token).first()`, without the load. -/
def Users.first (t : Users) (token : String) : Option Row := t.rows.find? (·.token = token)

/-- What `authorize` reads for a token. -/
def user_of_token (t : Users) (token : String) : Except Exn (Option User) :=
  match t.first token with
  | none => .ok none
  | some row => (load row).map some

/-! ## The commands -/

inductive Outcome
  | success
  /-- `typer.Exit(code=0)`: no field is given. -/
  | nothing_to_do
  /-- `typer.Exit(code=1)`: no user has the token. -/
  | not_found
  /-- Caught and reported, with no exit code. -/
  | IntegrityError
  /-- `typer.Exit(code=1)` behind `except Exception`. -/
  | unexpected_error
  /-- Caught by nothing. -/
  | LookupError
  deriving DecidableEq, Repr

def Outcome.failed : Outcome → Bool
  | .success | .nothing_to_do => false
  | _ => true

/-- The arguments of `add-user`. -/
structure NewUser where
  token : String
  priority : Int
  threshold : Int
  name : String
  organization : String
  email : String
  client_type : Option String := none
  default_routing_mode : String := "any"
  deriving DecidableEq, Repr

def NewUser.row (new_user : NewUser) (id : Nat) : Row where
  id := id
  token := new_user.token
  name := new_user.name
  organization := some new_user.organization
  email := some new_user.email
  priority := new_user.priority
  threshold := new_user.threshold
  client_type := new_user.client_type
  default_routing_mode := new_user.default_routing_mode

/-- A unique column has the value already. -/
def Users.taken (t : Users) (new_user : NewUser) : Bool :=
  t.rows.any fun row => row.token = new_user.token || row.name = new_user.name

/-- The sequence counts also an insert that fails. -/
def add_user (t : Users) (new_user : NewUser) : Outcome × Users :=
  if t.taken new_user then (.IntegrityError, { t with next_id := t.next_id + 1 })
  else (.success, ⟨t.rows ++ [new_user.row t.next_id], t.next_id + 1⟩)

/-- A deleted user stays loaded, so its name is printed without another load. -/
def delete_user (t : Users) (token : String) : Outcome × Users :=
  match t.first token with
  | none => (.not_found, t)
  | some row =>
    match load row with
    | .error .LookupError => (.LookupError, t)
    | .ok _ => (.success, { t with rows := t.rows.filter fun r => r.id ≠ row.id })

/-- The options of `edit-user`. -/
structure Updates where
  priority : Option Int := none
  threshold : Option Int := none
  organization : Option String := none
  email : Option String := none
  client_type : Option String := none
  default_routing_mode : Option String := none
  deriving DecidableEq, Repr

/-- The loop over the updates: `setattr(user, key, value)`. -/
def Updates.apply (updates : Updates) (row : Row) : Row :=
  { row with
    priority := updates.priority.getD row.priority
    threshold := updates.threshold.getD row.threshold
    organization := updates.organization.or row.organization
    email := updates.email.or row.email
    client_type := updates.client_type.or row.client_type
    default_routing_mode := updates.default_routing_mode.getD row.default_routing_mode }

/-- No update can break a unique or a not-null column. The name that is printed behind the
commit is loaded again, with its whole row. -/
def edit_user (t : Users) (token : String) (updates : Updates) : Outcome × Users :=
  if updates = {} then (.nothing_to_do, t)
  else match t.first token with
    | none => (.not_found, t)
    | some row =>
      match load row with
      | .error .LookupError => (.LookupError, t)
      | .ok _ =>
        let committed := { t with
          rows := t.rows.map fun r => if r.id = row.id then updates.apply r else r }
        match load (updates.apply row) with
        | .error .LookupError => (.unexpected_error, committed)
        | .ok _ => (.success, committed)

inductive Command
  | add_user (new_user : NewUser)
  | delete_user (token : String)
  | edit_user (token : String) (updates : Updates)
  deriving DecidableEq, Repr

def Command.run (t : Users) : Command → Outcome × Users
  | .add_user new_user => manage_users.add_user t new_user
  | .delete_user token => manage_users.delete_user t token
  | .edit_user token updates => manage_users.edit_user t token updates

def Users.step (t : Users) (c : Command) : Option Users := some (c.run t).2

/-! ## The invariant -/

/-- The ids are those of the sequence, and ids, tokens and names are distinct. -/
structure Distinct (t : Users) : Prop where
  ids : (t.rows.map (·.id)).Nodup
  below : ∀ row ∈ t.rows, row.id < t.next_id
  tokens : (t.rows.map (·.token)).Nodup
  names : (t.rows.map (·.name)).Nodup

/-- And the modes are those of the enumeration. -/
structure Valid (t : Users) : Prop extends Distinct t where
  modes : ∀ row ∈ t.rows, row.default_routing_mode ∈ routing_modes

/-- The two rows differ in the given fields only, which have the given values. -/
structure Edited (updates : Updates) (row row' : Row) : Prop where
  id : row'.id = row.id
  token : row'.token = row.token
  name : row'.name = row.name
  priority : row'.priority = updates.priority.getD row.priority
  threshold : row'.threshold = updates.threshold.getD row.threshold
  organization : ∀ v, row'.organization = some v ↔
    updates.organization = some v ∨ updates.organization = none ∧ row.organization = some v
  email : ∀ v, row'.email = some v ↔
    updates.email = some v ∨ updates.email = none ∧ row.email = some v
  client_type : ∀ v, row'.client_type = some v ↔
    updates.client_type = some v ∨ updates.client_type = none ∧ row.client_type = some v
  default_routing_mode :
    row'.default_routing_mode = updates.default_routing_mode.getD row.default_routing_mode

/-- The edit changes the given fields of the one row with the token. -/
def EditsOneRow (t t' : Users) (token : String) (updates : Updates) : Prop :=
  ∃ before row after row', t.rows = before ++ row :: after ∧ row.token = token ∧
    (∀ r ∈ before ++ after, r.token ≠ token) ∧ Edited updates row row' ∧
    t'.rows = before ++ row' :: after

/-- What a command must keep. -/
structure Keeps (t : Users) (c : Command) : Prop where
  valid : Valid (c.run t).2
  failed : (c.run t).1.failed = true → (c.run t).2.rows = t.rows
  edited : ∀ token updates, c = .edit_user token updates → (c.run t).1 = .success →
    EditsOneRow t (c.run t).2 token updates

variable {t : Users} {token : String} {row : Row}

theorem distinct_empty : Distinct .empty where
  ids := List.nodup_nil
  below := fun _ h => (by cases h)
  tokens := List.nodup_nil
  names := List.nodup_nil

/-! ## Loading the rows of a valid table -/

theorem ofValue?_isSome_iff {value : String} :
    (∃ mode, RoutingMode.ofValue? value = some mode) ↔ value ∈ routing_modes := by
  unfold RoutingMode.ofValue? routing_modes
  rw [← Option.isSome_iff_exists, List.find?_isSome]
  simp [RoutingMode.value, eq_comm]

theorem load_isOk_iff : (∃ user, load row = .ok user) ↔
    row.default_routing_mode ∈ routing_modes := by
  rw [← ofValue?_isSome_iff]
  unfold load
  cases RoutingMode.ofValue? row.default_routing_mode with
  | none => simp
  | some mode => simp

theorem load_token {user : User} (h : load row = .ok user) : user.token = row.token := by
  unfold load at h
  split at h
  · cases h
  · cases h
    rfl

/-- The user of a token is the first one with it among the loaded users. -/
theorem user_of_token_eq {rows : List Row} {next_id : Nat} {users : List User}
    (h : rows.mapM load = .ok users) (token : String) :
    user_of_token ⟨rows, next_id⟩ token = .ok (users.find? (·.token = token)) := by
  have hloaded := mapM_ok_iff.mp h
  clear h
  induction hloaded with
  | nil => rfl
  | @cons row user rows users hload _ ih =>
    unfold user_of_token Users.first at ih ⊢
    by_cases htoken : row.token = token
    · rw [List.find?_cons_of_pos (by simpa using htoken),
        List.find?_cons_of_pos (by simpa [load_token hload] using htoken)]
      simp only [hload]
      rfl
    · rw [List.find?_cons_of_neg (by simpa using htoken),
        List.find?_cons_of_neg (by simpa [load_token hload] using htoken)]
      exact ih

/-- Every listing can load its rows, and an authorization finds its user among those of the
whole list. -/
def Loads (t : Users) : Prop :=
  (∀ criteria, ∃ users, list_users t criteria = .ok users) ∧
    ∃ users, list_users t (fun _ => true) = .ok users ∧
      ∀ token, user_of_token t token = .ok (users.find? (·.token = token))

theorem Valid.loads (h : Valid t) : Loads t := by
  have hlist : ∀ criteria, ∃ users, list_users t criteria = .ok users := by
    intro criteria
    refine exists_mapM_ok fun row hrow => load_isOk_iff.mpr ?_
    exact h.modes row (List.mem_filter.mp hrow).1
  obtain ⟨users, husers⟩ := hlist fun _ => true
  refine ⟨hlist, users, husers, user_of_token_eq ?_⟩
  rwa [list_users, List.filter_true] at husers

/-! ## What each command keeps -/

/-- The command names no unknown mode, or it does not come to the row: its user is taken, or no
user has its token. -/
def Command.Admissible (t : Users) : Command → Prop
  | .add_user new_user => new_user.default_routing_mode ∈ routing_modes ∨ t.taken new_user = true
  | .delete_user _ => True
  | .edit_user token updates =>
    (∀ mode, updates.default_routing_mode = some mode → mode ∈ routing_modes) ∨
      ∀ row ∈ t.rows, row.token ≠ token

theorem not_taken_iff {new_user : NewUser} : ¬ t.taken new_user = true ↔
    ∀ row ∈ t.rows, row.token ≠ new_user.token ∧ row.name ≠ new_user.name := by
  unfold Users.taken
  simp [not_or]

theorem distinct_insert {new_user : NewUser} (h : Distinct t) (hnew : ¬ t.taken new_user = true) :
    Distinct ⟨t.rows ++ [new_user.row t.next_id], t.next_id + 1⟩ := by
  rw [not_taken_iff] at hnew
  refine ⟨?_, ?_, ?_, ?_⟩
  · exact nodup_snoc h.ids fun row hrow => Nat.ne_of_lt (h.below row hrow)
  · intro row hrow
    rcases List.mem_append.mp hrow with hold | hlast
    · exact Nat.lt_succ_of_lt (h.below row hold)
    · rw [List.mem_singleton.mp hlast]
      exact Nat.lt_succ_self _
  · exact nodup_snoc h.tokens fun row hrow => (hnew row hrow).1
  · exact nodup_snoc h.names fun row hrow => (hnew row hrow).2

/-- An id that is not given changes nothing else. -/
theorem distinct_next (h : Distinct t) : Distinct { t with next_id := t.next_id + 1 } :=
  ⟨h.ids, fun row hrow => Nat.lt_succ_of_lt (h.below row hrow), h.tokens, h.names⟩

theorem distinct_filter (h : Distinct t) (p : Row → Bool) :
    Distinct { t with rows := t.rows.filter p } where
  ids := h.ids.sublist (List.filter_sublist.map _)
  below := fun row hrow => h.below row (List.mem_filter.mp hrow).1
  tokens := h.tokens.sublist (List.filter_sublist.map _)
  names := h.names.sublist (List.filter_sublist.map _)

/-- A change of rows that leaves ids, tokens and names. -/
theorem distinct_map {f : Row → Row} (h : Distinct t)
    (hf : ∀ r, (f r).id = r.id ∧ (f r).token = r.token ∧ (f r).name = r.name) :
    Distinct { t with rows := t.rows.map f } := by
  refine ⟨?_, ?_, ?_, ?_⟩
  · rw [List.map_map]
    exact (List.map_congr_left fun r _ => (hf r).1) ▸ h.ids
  · intro r hr
    obtain ⟨old, hold, rfl⟩ := List.mem_map.mp hr
    rw [(hf old).1]
    exact h.below old hold
  · rw [List.map_map]
    exact (List.map_congr_left fun r _ => (hf r).2.1) ▸ h.tokens
  · rw [List.map_map]
    exact (List.map_congr_left fun r _ => (hf r).2.2) ▸ h.names

/-- The rows behind a delete. -/
theorem delete_user_cases (t : Users) (token : String) :
    (∃ outcome, delete_user t token = (outcome, t)) ∨
    ∃ p, delete_user t token = (.success, { t with rows := t.rows.filter p }) := by
  unfold delete_user
  split
  · exact .inl ⟨_, rfl⟩
  · split
    · exact .inl ⟨_, rfl⟩
    · exact .inr ⟨_, rfl⟩

/-- The rows behind an edit. -/
theorem edit_user_rows (t : Users) (token : String) (updates : Updates) :
    (edit_user t token updates).2 = t ∨ ∃ row : Row, (edit_user t token updates).2 =
      { t with rows := t.rows.map fun r => if r.id = row.id then updates.apply r else r } := by
  unfold edit_user
  split
  · exact .inl rfl
  · split
    · exact .inl rfl
    · split
      · exact .inl rfl
      · split
        · exact .inr ⟨_, rfl⟩
        · exact .inr ⟨_, rfl⟩

/-- Every command keeps ids, tokens and names distinct. -/
theorem distinct_run (h : Distinct t) (c : Command) : Distinct (c.run t).2 := by
  cases c with
  | add_user new_user =>
    rw [Command.run, add_user]
    split
    · exact distinct_next h
    · rename_i hnew
      exact distinct_insert h hnew
  | delete_user token =>
    rw [Command.run]
    rcases delete_user_cases t token with ⟨outcome, hrun⟩ | ⟨p, hrun⟩
    · rw [hrun]
      exact h
    · rw [hrun]
      exact distinct_filter h p
  | edit_user token updates =>
    rw [Command.run]
    rcases edit_user_rows t token updates with hrun | ⟨row, hrun⟩
    · rw [hrun]
      exact h
    · rw [hrun]
      refine distinct_map h fun r => ?_
      split
      · exact ⟨rfl, rfl, rfl⟩
      · exact ⟨rfl, rfl, rfl⟩

/-- A command that changes nothing and is no success keeps all. -/
theorem keeps_of_same {c : Command} {outcome : Outcome} (h : Valid t)
    (hrun : c.run t = (outcome, t)) (hno : outcome ≠ .success) : Keeps t c where
  valid := by
    rw [hrun]
    exact h
  failed := by
    rw [hrun]
    exact fun _ => rfl
  edited := by
    rw [hrun]
    exact fun _ _ _ hsuccess => absurd hsuccess hno

theorem keeps_add_iff {new_user : NewUser} (h : Valid t) :
    Keeps t (.add_user new_user) ↔ (Command.add_user new_user).Admissible t := by
  have hdistinct := distinct_run h.toDistinct (.add_user new_user)
  by_cases htaken : t.taken new_user = true
  · have hrun : (Command.add_user new_user).run t =
        (.IntegrityError, { t with next_id := t.next_id + 1 }) := if_pos htaken
    refine iff_of_true ⟨⟨hdistinct, ?_⟩, ?_, fun token updates hc => by cases hc⟩ (.inr htaken)
    · rw [hrun]
      exact h.modes
    · rw [hrun]
      exact fun _ => rfl
  · have hrun : (Command.add_user new_user).run t =
        (.success, ⟨t.rows ++ [new_user.row t.next_id], t.next_id + 1⟩) := if_neg htaken
    rw [Command.Admissible, or_iff_left htaken]
    constructor
    · intro hkeeps
      refine hkeeps.valid.modes (new_user.row t.next_id) ?_
      rw [hrun]
      exact List.mem_append_right _ (List.mem_singleton_self _)
    · intro hmode
      refine ⟨⟨hdistinct, ?_⟩, ?_, fun token updates hc => by cases hc⟩
      · rw [hrun]
        intro row hrow
        rcases List.mem_append.mp hrow with hold | hlast
        · exact h.modes row hold
        · rw [List.mem_singleton.mp hlast]
          exact hmode
      · rw [hrun]
        intro hfailed
        cases hfailed

theorem keeps_delete (h : Valid t) (token : String) : Keeps t (.delete_user token) := by
  have hdistinct := distinct_run h.toDistinct (.delete_user token)
  have hrun : (Command.delete_user token).run t = delete_user t token := rfl
  rcases delete_user_cases t token with ⟨outcome, heq⟩ | ⟨p, heq⟩
  · rw [heq] at hrun
    refine ⟨⟨hdistinct, ?_⟩, ?_, fun token updates hc => by cases hc⟩
    · rw [hrun]
      exact h.modes
    · rw [hrun]
      exact fun _ => rfl
  · rw [heq] at hrun
    refine ⟨⟨hdistinct, ?_⟩, ?_, fun token updates hc => by cases hc⟩
    · rw [hrun]
      exact fun row hrow => h.modes row (List.mem_filter.mp hrow).1
    · rw [hrun]
      intro hfailed
      cases hfailed

/-! ## Edits -/

theorem edited_apply (updates : Updates) (row : Row) : Edited updates row (updates.apply row) where
  id := rfl
  token := rfl
  name := rfl
  priority := rfl
  threshold := rfl
  organization := fun v => by simp [Updates.apply, Option.or_eq_some_iff]
  email := fun v => by simp [Updates.apply, Option.or_eq_some_iff]
  client_type := fun v => by simp [Updates.apply, Option.or_eq_some_iff]
  default_routing_mode := rfl

/-- What an edit of a valid table comes to: it has nothing to do, no row has the token, or the
one row with the token is changed, and the load behind the commit decides. -/
theorem edit_user_cases (h : Valid t) (token : String) (updates : Updates) :
    (updates = {} ∧ edit_user t token updates = (.nothing_to_do, t)) ∨
    ((∀ row ∈ t.rows, row.token ≠ token) ∧ edit_user t token updates = (.not_found, t)) ∨
    ∃ before row after, t.rows = before ++ row :: after ∧ row.token = token ∧
      (∀ r ∈ before ++ after, r.token ≠ token) ∧
      ((∃ user, load (updates.apply row) = .ok user) ∧ edit_user t token updates =
          (.success, { t with rows := before ++ updates.apply row :: after }) ∨
        load (updates.apply row) = .error .LookupError ∧ edit_user t token updates =
          (.unexpected_error, { t with rows := before ++ updates.apply row :: after })) := by
  unfold edit_user
  by_cases hempty : updates = {}
  · exact .inl ⟨hempty, if_pos hempty⟩
  rw [if_neg hempty]
  cases hfirst : t.first token with
  | none =>
    refine .inr (.inl ⟨fun row hrow => ?_, rfl⟩)
    simpa using List.find?_eq_none.mp hfirst row hrow
  | some row =>
    obtain ⟨before, after, hrows, htoken, hothers⟩ := split_of_find hfirst h.tokens
    obtain ⟨user, hload⟩ := load_isOk_iff.mpr (h.modes row (List.mem_of_find?_eq_some hfirst))
    have hids := h.ids
    rw [hrows] at hids
    have hmap := map_at hids updates.apply
    rw [← hrows] at hmap
    refine .inr (.inr ⟨before, row, after, hrows, htoken, hothers, ?_⟩)
    simp only [hload, hmap]
    cases hbehind : load (updates.apply row) with
    | ok user' => exact .inl ⟨⟨user', rfl⟩, rfl⟩
    | error e =>
      cases e
      exact .inr ⟨rfl, rfl⟩

/-- The modes behind an edit are those of the enumeration if the new one is. -/
theorem modes_edited_iff {before after : List Row} (updates : Updates) (h : Valid t)
    (hrows : t.rows = before ++ row :: after) :
    (∀ r ∈ before ++ updates.apply row :: after, r.default_routing_mode ∈ routing_modes) ↔
      (updates.apply row).default_routing_mode ∈ routing_modes := by
  constructor
  · intro hmodes
    exact hmodes _ (List.mem_append_right _ (List.mem_cons_self ..))
  · intro hmode r hr
    rcases List.mem_append.mp hr with hbefore | hr
    · exact h.modes r (hrows ▸ List.mem_append_left _ hbefore)
    · rcases List.mem_cons.mp hr with rfl | hafter
      · exact hmode
      · exact h.modes r (hrows ▸ List.mem_append_right _ (List.mem_cons_of_mem _ hafter))

theorem apply_mode_iff {updates : Updates} (h : row.default_routing_mode ∈ routing_modes) :
    (updates.apply row).default_routing_mode ∈ routing_modes ↔
      ∀ mode, updates.default_routing_mode = some mode → mode ∈ routing_modes := by
  unfold Updates.apply
  cases updates.default_routing_mode with
  | none => exact iff_of_true h (fun mode hmode => by cases hmode)
  | some mode => simp

theorem keeps_edit_iff {updates : Updates} (h : Valid t) :
    Keeps t (.edit_user token updates) ↔ (Command.edit_user token updates).Admissible t := by
  have hrun : (Command.edit_user token updates).run t = edit_user t token updates := rfl
  rcases edit_user_cases h token updates with ⟨rfl, heq⟩ | ⟨hno, heq⟩ |
    ⟨before, row, after, hrows, htoken, hothers, hedit⟩
  · have hkeeps := keeps_of_same h (hrun.trans heq) nofun
    exact iff_of_true hkeeps (.inl fun mode hmode => by cases hmode)
  · have hkeeps := keeps_of_same h (hrun.trans heq) nofun
    exact iff_of_true hkeeps (.inr hno)
  · have hrow : row ∈ t.rows := by
      rw [hrows]
      exact List.mem_append_right _ (List.mem_cons_self ..)
    have hmodes := modes_edited_iff updates h hrows
    rw [← load_isOk_iff] at hmodes
    have hadmissible : (Command.edit_user token updates).Admissible t ↔
        ∃ user, load (updates.apply row) = .ok user := by
      rw [load_isOk_iff, apply_mode_iff (h.modes row hrow)]
      exact or_iff_left fun hno => hno row hrow htoken
    rw [hadmissible]
    rcases hedit with ⟨hload, heq⟩ | ⟨hload, heq⟩
    · rw [heq] at hrun
      have hdistinct := distinct_run h.toDistinct (.edit_user token updates)
      refine iff_of_true ⟨⟨hdistinct, ?_⟩, ?_, ?_⟩ hload
      · rw [hrun]
        exact hmodes.mpr hload
      · rw [hrun]
        intro hfailed
        cases hfailed
      · intro token' updates' hc _
        cases hc
        rw [hrun]
        exact ⟨before, row, after, _, hrows, htoken, hothers, edited_apply updates row, rfl⟩
    · rw [heq] at hrun
      refine iff_of_false ?_ (by simp [hload])
      intro hkeeps
      have hbehind := hkeeps.valid.modes
      rw [hrun] at hbehind
      obtain ⟨user, hok⟩ := hmodes.mp hbehind
      rw [hload] at hok
      cases hok

/-- A command keeps the table valid, and itself to what it should change, exactly when it is
admissible. -/
theorem keeps_iff (h : Valid t) (c : Command) : Keeps t c ↔ c.Admissible t := by
  cases c with
  | add_user new_user => exact keeps_add_iff h
  | delete_user token => exact iff_of_true (keeps_delete h token) trivial
  | edit_user token updates => exact keeps_edit_iff h

/-- In every run from the empty table whose commands are admissible, the table is valid, every
listing and authorization can load its rows, and any next command keeps to what it should
exactly when it is admissible as well. -/
theorem the_table_stays_valid_under_admissible_commands {cs : List Command}
    (h : Run Users.step (fun t c => c.Admissible t) .empty cs t) :
    Valid t ∧ Loads t ∧ ∀ c, Keeps t c ↔ c.Admissible t := by
  have hvalid : Valid t := by
    refine h.invariant ⟨distinct_empty, fun _ hrow => by cases hrow⟩ ?_
    intro t c t' ht hok hs
    cases hs
    exact ((keeps_iff ht c).mpr hok).valid
  exact ⟨hvalid, hvalid.loads, keeps_iff hvalid⟩

/-- A user of some mode. -/
def alice (default_routing_mode : String) : NewUser :=
  { token := "1", priority := 1, threshold := 10, name := "alice", organization := "org",
    email := "alice@org", default_routing_mode := default_routing_mode }

def bob : NewUser :=
  { token := "2", priority := 5, threshold := 20, name := "bob", organization := "lab",
    email := "bob@lab", client_type := some "chat" }

/-- Two users, of whom the first gets another mode and priority and the second is deleted. -/
def editedAndDeleted : List Command :=
  [.add_user (alice "private-only"), .add_user bob,
    .edit_user "1" { priority := some 3, default_routing_mode := some "private-first" },
    .delete_user "2"]

theorem a_table_of_two_users_is_valid : ∃ t,
    Run Users.step (fun t c => c.Admissible t) .empty editedAndDeleted t ∧
    t.rows = [{ (alice "private-first").row 1 with priority := 3 }] ∧ Valid t := by
  have hrun : Run Users.step (fun t c => c.Admissible t) .empty editedAndDeleted
      ⟨[{ (alice "private-first").row 1 with priority := 3 }], 3⟩ := by
    refine .snoc (.snoc (.snoc (.snoc .nil ?_ rfl) ?_ rfl) ?_ rfl) ?_ (by decide)
    · exact .inl (by decide)
    · exact .inl (by decide)
    · exact .inl fun mode hmode => (by cases hmode; decide)
    · trivial
  exact ⟨_, hrun, rfl, (the_table_stays_valid_under_admissible_commands hrun).1⟩

/-- A mode that is none is stored, and the row can be loaded no more. -/
theorem an_unknown_mode_is_stored :
    ¬ ∀ (cs : List Command) (t : Users), Run Users.step Any .empty cs t → Valid t := by
  intro hall
  have hvalid := hall [.add_user (alice "fastest")] _ (Run.single trivial rfl)
  exact absurd (hvalid.modes ((alice "fastest").row 1) (by decide)) (by decide)

end aristote_dispatcher.manage_users
