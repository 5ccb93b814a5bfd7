-- The administration of the users as what it is for (sender/command/manage_users.py): a map from
-- tokens to users. The table answers each command and each query as the map does, whatever
-- commands came before, also those that fail.
import AristoteDispatcher.Lib.Logged
import AristoteDispatcher.Users

open runs keyed traverse
open aristote_dispatcher.messages (routing_modes)
open aristote_dispatcher.middleware (User)

namespace aristote_dispatcher.manage_users

/-! ## The map -/

/-- What is known of a user beside the token. -/
structure Profile where
  name : String
  organization : Option String
  email : Option String
  priority : Int
  threshold : Int
  client_type : Option String
  default_routing_mode : String
  deriving DecidableEq, Repr

abbrev Directory := String → Option Profile

def NewUser.profile (new_user : NewUser) : Profile where
  name := new_user.name
  organization := some new_user.organization
  email := some new_user.email
  priority := new_user.priority
  threshold := new_user.threshold
  client_type := new_user.client_type
  default_routing_mode := new_user.default_routing_mode

/-- The given fields are new. -/
def Updates.edit (updates : Updates) (p : Profile) : Profile :=
  { p with
    priority := updates.priority.getD p.priority
    threshold := updates.threshold.getD p.threshold
    organization := updates.organization.or p.organization
    email := updates.email.or p.email
    client_type := updates.client_type.or p.client_type
    default_routing_mode := updates.default_routing_mode.getD p.default_routing_mode }

/-- The mode is one of the enumeration. -/
def Profile.Loads (p : Profile) : Prop := p.default_routing_mode ∈ routing_modes

/-- What a command says, and what becomes of the map. -/
inductive Directory.Rule (d : Directory) : Command → Outcome → Directory → Prop
  | added {new_user : NewUser} (htoken : d new_user.token = none)
      (hname : ∀ token p, d token = some p → p.name ≠ new_user.name) :
      Rule d (.add_user new_user) .success
        (Function.update d new_user.token (some new_user.profile))
  | taken {new_user : NewUser} {token : String} {p : Profile} (hp : d token = some p)
      (htaken : token = new_user.token ∨ p.name = new_user.name) :
      Rule d (.add_user new_user) .IntegrityError d
  | deleted {token : String} {p : Profile} (hp : d token = some p) (hloads : p.Loads) :
      Rule d (.delete_user token) .success (Function.update d token none)
  | not_deleted {token : String} (hnone : d token = none) :
      Rule d (.delete_user token) .not_found d
  | delete_raises {token : String} {p : Profile} (hp : d token = some p) (hnot : ¬ p.Loads) :
      Rule d (.delete_user token) .LookupError d
  | nothing_to_do {token : String} : Rule d (.edit_user token {}) .nothing_to_do d
  | not_edited {token : String} {updates : Updates} (hgiven : updates ≠ {})
      (hnone : d token = none) : Rule d (.edit_user token updates) .not_found d
  | edit_raises {token : String} {updates : Updates} {p : Profile} (hgiven : updates ≠ {})
      (hp : d token = some p) (hnot : ¬ p.Loads) : Rule d (.edit_user token updates) .LookupError d
  | edited {token : String} {updates : Updates} {p : Profile} (hgiven : updates ≠ {})
      (hp : d token = some p) (hloads : p.Loads) (hafter : (updates.edit p).Loads) :
      Rule d (.edit_user token updates) .success
        (Function.update d token (some (updates.edit p)))
  -- an unknown mode is committed, and the load behind it reports an error
  | misedited {token : String} {updates : Updates} {p : Profile} (hgiven : updates ≠ {})
      (hp : d token = some p) (hloads : p.Loads) (hafter : ¬ (updates.edit p).Loads) :
      Rule d (.edit_user token updates) .unexpected_error
        (Function.update d token (some (updates.edit p)))

/-- The map behind commands that said so. -/
inductive Directory.Holds : List (Command × Outcome) → Directory → Prop
  | nil : Holds [] fun _ => none
  | snoc {log : List (Command × Outcome)} {d d' : Directory} {c : Command} {outcome : Outcome}
      (h : Holds log d) (hrule : d.Rule c outcome d') : Holds (log ++ [(c, outcome)]) d'

/-- The commands that give or take a token. -/
def concerns (token : String) : Command × Outcome → Option Bool
  | (.add_user new_user, .success) => if new_user.token = token then some true else none
  | (.delete_user deleted, .success) => if deleted = token then some false else none
  | _ => none

/-- The last command that gave or took the token gave it. -/
def Admitted (log : List (Command × Outcome)) (token : String) : Prop :=
  (log.filterMap (concerns token)).getLast? = some true

theorem admitted_snoc_of_none {log : List (Command × Outcome)} {entry : Command × Outcome}
    {token : String} (h : concerns token entry = none) :
    Admitted (log ++ [entry]) token ↔ Admitted log token := by
  simp [Admitted, List.filterMap_append, h]

theorem admitted_snoc_of_some {log : List (Command × Outcome)} {entry : Command × Outcome}
    {token : String} {given : Bool} (h : concerns token entry = some given) :
    Admitted (log ++ [entry]) token ↔ given = true := by
  simp [Admitted, List.filterMap_append, h]

/-- An update of an other token, or of the token to another profile. -/
theorem update_ne_none {d : Directory} {token other : String} {p q : Profile}
    (hp : d token = some p) :
    Function.update d token (some q) other ≠ none ↔ d other ≠ none := by
  by_cases hother : other = token
  · subst hother
    simp [hp]
  · rw [Function.update_of_ne hother]

/-- Whoever has the last word on a token decides. -/
theorem Directory.Holds.admitted_iff {log : List (Command × Outcome)} {d : Directory}
    (h : d.Holds log) (token : String) : d token ≠ none ↔ Admitted log token := by
  induction h with
  | nil => simp [Admitted]
  | @snoc log d d' c outcome _ hrule ih =>
    cases hrule with
    | @added new_user htoken hname =>
      by_cases heq : new_user.token = token
      · have hconcerns : concerns token (.add_user new_user, .success) = some true := if_pos heq
        rw [admitted_snoc_of_some hconcerns, ← heq]
        simp
      · have hconcerns : concerns token (.add_user new_user, .success) = none := if_neg heq
        rw [admitted_snoc_of_none hconcerns, Function.update_of_ne (Ne.symm heq)]
        exact ih
    | @deleted deleted p hp hloads =>
      by_cases heq : deleted = token
      · have hconcerns : concerns token (.delete_user deleted, .success) = some false :=
          if_pos heq
        rw [admitted_snoc_of_some hconcerns, ← heq]
        simp
      · have hconcerns : concerns token (.delete_user deleted, .success) = none := if_neg heq
        rw [admitted_snoc_of_none hconcerns, Function.update_of_ne (Ne.symm heq)]
        exact ih
    | edited hgiven hp hloads hafter =>
      rw [admitted_snoc_of_none rfl, update_ne_none hp]
      exact ih
    | misedited hgiven hp hloads hafter =>
      rw [admitted_snoc_of_none rfl, update_ne_none hp]
      exact ih
    | _ =>
      rw [admitted_snoc_of_none rfl]
      exact ih

/-! ## The table as a map -/

def Row.profile (row : Row) : Profile where
  name := row.name
  organization := row.organization
  email := row.email
  priority := row.priority
  threshold := row.threshold
  client_type := row.client_type
  default_routing_mode := row.default_routing_mode

/-- The row of a profile, but for its id. -/
def Profile.row (token : String) (p : Profile) : Row where
  id := 0
  token := token
  name := p.name
  organization := p.organization
  email := p.email
  priority := p.priority
  threshold := p.threshold
  client_type := p.client_type
  default_routing_mode := p.default_routing_mode

def Profile.user (token : String) (p : Profile) : Except Exn User := load (p.row token)

def Users.directory (t : Users) : Directory := fun token => (t.first token).map Row.profile

variable {t : Users} {token : String} {p : Profile}

theorem loads_iff (token : String) : p.Loads ↔ ∃ user, p.user token = .ok user := by
  have hload : (∃ user, load (p.row token) = .ok user) ↔ p.Loads := load_isOk_iff
  exact hload.symm

theorem loads_of_load {row : Row} {user : User} (h : load row = .ok user) : row.profile.Loads :=
  load_isOk_iff.mp ⟨user, h⟩

theorem not_loads_of_load {row : Row} {e : Exn} (h : load row = .error e) :
    ¬ row.profile.Loads := by
  intro hloads
  obtain ⟨user, huser⟩ := load_isOk_iff.mpr hloads
  rw [h] at huser
  cases huser

theorem directory_eq_none_iff : t.directory token = none ↔ ∀ row ∈ t.rows, row.token ≠ token := by
  rw [Users.directory, Option.map_eq_none_iff]
  exact lookup_eq_none_iff

theorem directory_eq_some_iff (h : Distinct t) :
    t.directory token = some p ↔ ∃ row ∈ t.rows, row.token = token ∧ row.profile = p := by
  rw [Users.directory, Option.map_eq_some_iff]
  constructor
  · rintro ⟨row, hfirst, hp⟩
    obtain ⟨hrow, htoken⟩ := (lookup_eq_some_iff h.tokens).mp hfirst
    exact ⟨row, hrow, htoken, hp⟩
  · rintro ⟨row, hrow, htoken, hp⟩
    exact ⟨row, (lookup_eq_some_iff h.tokens).mpr ⟨hrow, htoken⟩, hp⟩

theorem directory_of_first {row : Row} (h : t.first token = some row) :
    t.directory token = some row.profile := by
  rw [Users.directory, h, Option.map_some]

/-- A change of the rows of one token. -/
theorem directory_update {rows : List Row} {n : Nat} {row : Option Row}
    (h : lookup Row.token rows = Function.update (lookup Row.token t.rows) token row) :
    Users.directory ⟨rows, n⟩ = Function.update t.directory token (row.map Row.profile) := by
  have hleft : Users.directory ⟨rows, n⟩ = Option.map Row.profile ∘ lookup Row.token rows := rfl
  have hright : t.directory = Option.map Row.profile ∘ lookup Row.token t.rows := rfl
  rw [hleft, hright, h, Function.comp_update]

/-! ## The commands -/

theorem rule_of_add (h : Distinct t) (new_user : NewUser) :
    t.directory.Rule (.add_user new_user) (add_user t new_user).1
      (add_user t new_user).2.directory := by
  unfold add_user
  split
  · rename_i htaken
    obtain ⟨row, hrow, htaken⟩ := List.any_eq_true.mp htaken
    have hp := (directory_eq_some_iff h).mpr ⟨row, hrow, rfl, rfl⟩
    have heq : row.token = new_user.token ∨ row.name = new_user.name := by simpa using htaken
    exact .taken hp heq
  · rename_i hnew
    rw [not_taken_iff] at hnew
    have hsnoc : lookup Row.token (t.rows ++ [new_user.row t.next_id]) = Function.update
        (lookup Row.token t.rows) new_user.token (some (new_user.row t.next_id)) :=
      lookup_snoc fun row hrow => (hnew row hrow).1
    rw [directory_update hsnoc]
    refine .added (directory_eq_none_iff.mpr fun row hrow => (hnew row hrow).1) ?_
    intro token p hp
    obtain ⟨row, hrow, _, rfl⟩ := (directory_eq_some_iff h).mp hp
    exact (hnew row hrow).2

theorem rule_of_delete (h : Distinct t) (token : String) :
    t.directory.Rule (.delete_user token) (delete_user t token).1
      (delete_user t token).2.directory := by
  cases hfirst : t.first token with
  | none =>
    have hrun : delete_user t token = (.not_found, t) := by simp only [delete_user, hfirst]
    rw [hrun]
    exact .not_deleted (directory_eq_none_iff.mpr (lookup_eq_none_iff.mp hfirst))
  | some row =>
    have hp := directory_of_first hfirst
    cases hload : load row with
    | error e =>
      cases e
      have hrun : delete_user t token = (.LookupError, t) := by
        simp only [delete_user, hfirst, hload]
      rw [hrun]
      exact .delete_raises hp (not_loads_of_load hload)
    | ok user =>
      obtain ⟨before, after, hrows, htoken, _⟩ := split_of_find hfirst h.tokens
      subst htoken
      have hids := h.ids
      have htokens := h.tokens
      rw [hrows] at hids htokens
      have hrun : delete_user t row.token = (.success, ⟨before ++ after, t.next_id⟩) := by
        simp only [delete_user, hfirst, hload]
        rw [hrows, filter_at hids]
      have hlookup := lookup_remove htokens
      rw [← hrows] at hlookup
      rw [hrun, directory_update hlookup]
      exact .deleted hp (loads_of_load hload)

theorem rule_of_edit (h : Distinct t) (token : String) (updates : Updates) :
    t.directory.Rule (.edit_user token updates) (edit_user t token updates).1
      (edit_user t token updates).2.directory := by
  by_cases hgiven : updates = {}
  · subst hgiven
    exact .nothing_to_do
  cases hfirst : t.first token with
  | none =>
    have hrun : edit_user t token updates = (.not_found, t) := by
      simp only [edit_user, if_neg hgiven, hfirst]
    rw [hrun]
    exact .not_edited hgiven (directory_eq_none_iff.mpr (lookup_eq_none_iff.mp hfirst))
  | some row =>
    have hp := directory_of_first hfirst
    cases hload : load row with
    | error e =>
      cases e
      have hrun : edit_user t token updates = (.LookupError, t) := by
        simp only [edit_user, if_neg hgiven, hfirst, hload]
      rw [hrun]
      exact .edit_raises hgiven hp (not_loads_of_load hload)
    | ok user =>
      obtain ⟨before, after, hrows, htoken, _⟩ := split_of_find hfirst h.tokens
      subst htoken
      have hids := h.ids
      have htokens := h.tokens
      rw [hrows] at hids htokens
      have hchanged : t.rows.map (fun r => if r.id = row.id then updates.apply r else r) =
          before ++ updates.apply row :: after := by
        rw [hrows, map_at hids]
      have hsame : (updates.apply row).token = row.token := rfl
      have hlookup := lookup_replace htokens hsame
      rw [← hrows] at hlookup
      have hloads := loads_of_load hload
      -- the rows are committed before the name is loaded again
      cases hbehind : load (updates.apply row) with
      | ok user' =>
        have hrun : edit_user t row.token updates =
            (.success, ⟨before ++ updates.apply row :: after, t.next_id⟩) := by
          simp only [edit_user, if_neg hgiven, hfirst, hload, hbehind, hchanged]
        rw [hrun, directory_update hlookup]
        exact .edited hgiven hp hloads (loads_of_load hbehind)
      | error e =>
        cases e
        have hrun : edit_user t row.token updates =
            (.unexpected_error, ⟨before ++ updates.apply row :: after, t.next_id⟩) := by
          simp only [edit_user, if_neg hgiven, hfirst, hload, hbehind, hchanged]
        rw [hrun, directory_update hlookup]
        exact .misedited hgiven hp hloads (not_loads_of_load hbehind)

/-- Each command does to the table what the rules say, from any table that can come to be. -/
theorem rule_of_run (h : Distinct t) (c : Command) :
    t.directory.Rule c (c.run t).1 (c.run t).2.directory := by
  cases c with
  | add_user new_user => exact rule_of_add h new_user
  | delete_user token => exact rule_of_delete h token
  | edit_user token updates => exact rule_of_edit h token updates

/-! ## The queries -/

/-- The options of `list-users`. -/
structure Filters where
  token : Option String := none
  name : Option String := none
  organization : Option String := none
  email : Option String := none
  priority : Option Int := none
  threshold : Option Int := none
  client_type : Option String := none
  default_routing_mode : Option String := none
  deriving DecidableEq, Repr

/-- `column == value` for each value that is given: NULL is equal to none. -/
def Filters.criteria (filters : Filters) (row : Row) : Bool :=
  filters.token.all (fun value => row.token = value) &&
  filters.name.all (fun value => row.name = value) &&
  filters.organization.all (fun value => row.organization = some value) &&
  filters.email.all (fun value => row.email = some value) &&
  filters.priority.all (fun value => row.priority = value) &&
  filters.threshold.all (fun value => row.threshold = value) &&
  filters.client_type.all (fun value => row.client_type = some value) &&
  filters.default_routing_mode.all (fun value => row.default_routing_mode = value)

/-- The user has the values that are asked for. -/
structure Filters.Matches (filters : Filters) (token : String) (p : Profile) : Prop where
  token : ∀ value, filters.token = some value → token = value
  name : ∀ value, filters.name = some value → p.name = value
  organization : ∀ value, filters.organization = some value → p.organization = some value
  email : ∀ value, filters.email = some value → p.email = some value
  priority : ∀ value, filters.priority = some value → p.priority = value
  threshold : ∀ value, filters.threshold = some value → p.threshold = value
  client_type : ∀ value, filters.client_type = some value → p.client_type = some value
  default_routing_mode :
    ∀ value, filters.default_routing_mode = some value → p.default_routing_mode = value

/-- The users with those values, each once, if all of them can be loaded. -/
structure Directory.Lists (d : Directory) (filters : Filters)
    (listed : Except Exn (List User)) : Prop where
  succeeds : (∃ users, listed = .ok users) ↔
    ∀ token p, d token = some p → filters.Matches token p → p.Loads
  once : ∀ users, listed = .ok users → (users.map (·.token)).Nodup
  complete : ∀ users, listed = .ok users → ∀ user, user ∈ users ↔
    ∃ token p, d token = some p ∧ filters.Matches token p ∧ p.user token = .ok user

theorem criteria_iff (filters : Filters) (row : Row) :
    filters.criteria row = true ↔ filters.Matches row.token row.profile := by
  unfold Filters.criteria
  simp only [Bool.and_eq_true, Option.all_eq_true, decide_eq_true_eq]
  constructor
  · rintro ⟨⟨⟨⟨⟨⟨⟨htoken, hname⟩, horganization⟩, hemail⟩, hpriority⟩, hthreshold⟩, htype⟩, hmode⟩
    exact ⟨htoken, hname, horganization, hemail, hpriority, hthreshold, htype, hmode⟩
  · rintro ⟨htoken, hname, horganization, hemail, hpriority, hthreshold, htype, hmode⟩
    exact ⟨⟨⟨⟨⟨⟨⟨htoken, hname⟩, horganization⟩, hemail⟩, hpriority⟩, hthreshold⟩, htype⟩, hmode⟩

/-- The matching rows are those of the map. -/
theorem matching_iff (h : Distinct t) (filters : Filters) (q : Except Exn User → Prop) :
    (∃ row ∈ t.rows.filter filters.criteria, q (load row)) ↔
      ∃ token p, t.directory token = some p ∧ filters.Matches token p ∧ q (p.user token) := by
  constructor
  · rintro ⟨row, hrow, hload⟩
    obtain ⟨hrow, hcriteria⟩ := List.mem_filter.mp hrow
    exact ⟨row.token, row.profile, (directory_eq_some_iff h).mpr ⟨row, hrow, rfl, rfl⟩,
      (criteria_iff filters row).mp hcriteria, hload⟩
  · rintro ⟨token, p, hp, hmatches, hload⟩
    obtain ⟨row, hrow, rfl, rfl⟩ := (directory_eq_some_iff h).mp hp
    exact ⟨row, List.mem_filter.mpr ⟨hrow, (criteria_iff filters row).mpr hmatches⟩, hload⟩

theorem lists (h : Distinct t) (filters : Filters) :
    t.directory.Lists filters (list_users t filters.criteria) where
  succeeds := by
    rw [list_users, exists_mapM_ok_iff]
    constructor
    · intro hall token p hp hmatches
      obtain ⟨row, hrow, rfl, rfl⟩ := (directory_eq_some_iff h).mp hp
      refine (loads_iff row.token).mpr (hall row (List.mem_filter.mpr ⟨hrow, ?_⟩))
      exact (criteria_iff filters row).mpr hmatches
    · intro hall row hrow
      obtain ⟨hrow, hcriteria⟩ := List.mem_filter.mp hrow
      refine (loads_iff row.token).mp (hall row.token row.profile ?_ ?_)
      · exact (directory_eq_some_iff h).mpr ⟨row, hrow, rfl, rfl⟩
      · exact (criteria_iff filters row).mp hcriteria
  once := by
    intro users husers
    rw [map_of_mapM (fun row user => load_token) husers]
    exact h.tokens.sublist (List.filter_sublist.map _)
  complete := by
    intro users husers user
    rw [mem_of_mapM husers]
    exact matching_iff h filters fun loaded => loaded = .ok user

/-- What the map says of a token. -/
def Directory.user (d : Directory) (token : String) : Except Exn (Option User) :=
  (d token).elim (.ok none) fun p => (p.user token).map some

theorem user_of_token_eq_user (t : Users) (token : String) :
    user_of_token t token = t.directory.user token := by
  unfold user_of_token Directory.user Users.directory
  cases hfirst : t.first token with
  | none => rfl
  | some row =>
    have htoken : row.token = token := by simpa using List.find?_some hfirst
    rw [← htoken]
    rfl

theorem user_eq_none_iff {d : Directory} : d.user token = .ok none ↔ d token = none := by
  unfold Directory.user
  cases d token with
  | none => exact iff_of_true rfl rfl
  | some p =>
    refine iff_of_false ?_ nofun
    rw [Option.elim_some]
    cases p.user token with
    | error e => exact nofun
    | ok user => exact nofun

/-! ## Runs -/

/-- A command, with what it says. -/
def said (t : Users) (c : Command) : List (Command × Outcome) := [(c, (c.run t).1)]

theorem holds_of_run {cs : List Command} {l : Logged Users (Command × Outcome)}
    (h : Run (logged Users.step said) Any (.start .empty) cs l) :
    Distinct l.state ∧ Directory.Holds l.log l.state.directory := by
  refine h.invariant (I := fun l => Distinct l.state ∧ Directory.Holds l.log l.state.directory)
    ⟨distinct_empty, .nil⟩ ?_
  rintro l c l' ⟨hdistinct, hholds⟩ _ hs
  obtain ⟨hstate, hlog⟩ := logged_eq_some hs
  rw [hlog, ← Option.some.inj hstate]
  exact ⟨distinct_run hdistinct c, .snoc hholds (rule_of_run hdistinct c)⟩

/-- After any commands, also such that failed, the table is the map that follows the rules. A
request without a user is one whose token was taken last, or never given. A listing gives the
matching users, each once, or raises if one of them has an unknown mode. -/
theorem the_administration_is_a_directory {cs : List Command}
    {l : Logged Users (Command × Outcome)}
    (h : Run (logged Users.step said) Any (.start .empty) cs l) :
    Directory.Holds l.log l.state.directory ∧
      (∀ token, user_of_token l.state token = l.state.directory.user token ∧
        (user_of_token l.state token = .ok none ↔ ¬ Admitted l.log token)) ∧
      ∀ filters : Filters, l.state.directory.Lists filters
        (list_users l.state filters.criteria) := by
  obtain ⟨hdistinct, hholds⟩ := holds_of_run h
  refine ⟨hholds, fun token => ⟨user_of_token_eq_user _ _, ?_⟩, lists hdistinct⟩
  rw [user_of_token_eq_user, user_eq_none_iff, ← hholds.admitted_iff token, not_not]

/-- An unknown mode is edited in. The token stays, and can be neither read nor deleted. -/
theorem a_misedited_user_cannot_be_deleted : ∃ l : Logged Users (Command × Outcome),
    Run (logged Users.step said) Any (.start .empty)
      [.add_user (alice "any"), .edit_user "1" { default_routing_mode := some "fastest" },
        .delete_user "1"] l ∧
    Admitted l.log "1" ∧ ¬ ∃ users, list_users l.state (Filters.criteria {}) = .ok users := by
  have hrun : Run (logged Users.step said) Any (.start .empty)
      [.add_user (alice "any"), .edit_user "1" { default_routing_mode := some "fastest" },
        .delete_user "1"] _ := run_of_exec rfl
  obtain ⟨_, htokens, hlists⟩ := the_administration_is_a_directory hrun
  refine ⟨_, hrun, ?_, ?_⟩
  · by_contra hnot
    have hnone := (htokens "1").2.mpr hnot
    cases hnone
  · rintro ⟨users, husers⟩
    cases husers

end aristote_dispatcher.manage_users
