-- The answer on the wire (common/message_data.py): the bytes that a consumer publishes, and what
-- the sender reads of them. It is the answer that was written, up to the digits of its score.
import AristoteDispatcher.Lib.JsonValid
import AristoteDispatcher.Proxy

open pyfloat json
open aristote_dispatcher.messages
open aristote_dispatcher.proxy (llm_params_dict)

namespace aristote_dispatcher.message_data

/-! ## The writer -/

def text (s : String) : Json := .str (.ofString s)

section

variable {α : Type}

/-- A value of a type with None. -/
def optional (value : α → Json) : Option α → Json
  | none => .null
  | some x => value x

/-- `llm_params.dict()`. -/
def dict (m : MessageData) : List (PyStr × Json) :=
  [(.ofString "llm_url", optional text m.llm_url),
    (.ofString "llm_token", optional text m.llm_token),
    (.ofString "llm_organization", optional text m.llm_organization),
    (.ofString "strategy", text m.strategy),
    (.ofString "requeue_count", .int m.requeue_count),
    (.ofString "max_parallel_requests", .int m.max_parallel_requests),
    (.ofString "current_parallel_requests",
      optional (fun n : Nat => .int n) m.current_parallel_requests),
    (.ofString "forwarded_priority", optional .int m.forwarded_priority),
    (.ofString "performance_score", optional .float m.performance_score)]

/-- `json.dumps(llm_params.dict(), default=pydantic_encoder).encode("utf-8")`. No value of the dict
needs the encoder. -/
def body (float_repr : PyFloat → List Char) (m : MessageData) : ByteArray :=
  (String.ofList ((Json.obj (dict m)).dumps float_repr)).toUTF8

/-! ## The reader -/

/-- What pydantic takes as a value of a type, and that it takes a value of the type itself as it
is. -/
structure Validators where
  str : Json → Option String
  int : Json → Option Int
  float : Json → Option PyFloat
  str_text : ∀ s, str (text s) = some s
  int_int : ∀ i, int (.int i) = some i
  float_float : ∀ f, float (.float f) = some f

def orNone (check : Json → Option α) : Json → Option (Option α)
  | .null => some none
  | value => (check value).map some

/-- A field without a default. -/
def required (check : Json → Option α) (members : List (PyStr × Json)) (name : String) :
    Option α :=
  (members.lookup (.ofString name)).bind check

def defaulted (check : Json → Option α) (default : α) (members : List (PyStr × Json))
    (name : String) : Option α :=
  match members.lookup (.ofString name) with
  | none => some default
  | some value => check value

variable (v : Validators)

/-- A length. -/
def Validators.count (value : Json) : Option Nat := (v.int value).bind Int.toNat?

/-- `MessageData(**llm_params_dict)`. Other members are ignored. -/
def Validators.validate (members : List (PyStr × Json)) : Option MessageData := do
  let llm_url ← defaulted (orNone v.str) none members "llm_url"
  let llm_token ← defaulted (orNone v.str) none members "llm_token"
  let llm_organization ← defaulted (orNone v.str) none members "llm_organization"
  let strategy ← required v.str members "strategy"
  let requeue_count ← defaulted v.int 0 members "requeue_count"
  let max_parallel_requests ← required v.int members "max_parallel_requests"
  let current_parallel_requests ←
    defaulted (orNone v.count) none members "current_parallel_requests"
  let forwarded_priority ← defaulted (orNone v.int) none members "forwarded_priority"
  let performance_score ← defaulted (orNone v.float) none members "performance_score"
  return ⟨llm_url, llm_token, llm_organization, strategy, requeue_count, max_parallel_requests,
    current_parallel_requests, forwarded_priority, performance_score⟩

end

/-! ## What is read -/

variable {float_repr : PyFloat → List Char} {m : MessageData} {α : Type}

/-- The answer with the score that its digits say. -/
def reread (float_repr : PyFloat → List Char) (m : MessageData) : MessageData :=
  { m with performance_score := m.performance_score.map fun f => readFloat (float_repr f) }

theorem reread_optional {value : α → Json} (h : ∀ x, (value x).reread float_repr = value x)
    (o : Option α) : (optional value o).reread float_repr = optional value o := by
  cases o with
  | none => rfl
  | some x => exact h x

theorem reread_text (s : String) : (text s).reread float_repr = text s := by
  rw [text, Json.reread, PyStr.reread_ofString]

theorem reread_score (o : Option PyFloat) :
    (optional .float o).reread float_repr =
      optional .float (o.map fun f => readFloat (float_repr f)) := by
  cases o <;> rfl

theorem rereadPairs_dict (m : MessageData) :
    rereadPairs float_repr (dict m) = dict (reread float_repr m) := by
  have htext : ∀ o, (optional text o).reread float_repr = optional text o :=
    reread_optional reread_text
  have hint : ∀ o, (optional .int o).reread float_repr = optional .int o :=
    reread_optional fun _ => rfl
  have hcount : ∀ o, (optional (fun n : Nat => .int n) o).reread float_repr =
      optional (fun n : Nat => .int n) o :=
    reread_optional fun _ => rfl
  simp only [dict, reread, rereadPairs, PyStr.reread_ofString, htext, hint, hcount, reread_score,
    reread_text, Json.reread]

theorem nodup_dict (m : MessageData) : ((dict m).map (·.1)).Nodup := by
  have hnames : ["llm_url", "llm_token", "llm_organization", "strategy", "requeue_count",
      "max_parallel_requests", "current_parallel_requests", "forwarded_priority",
      "performance_score"].Nodup := by decide
  have hkeys := hnames.map PyStr.ofString_injective
  exact hkeys

theorem llm_params_dict_body (hprints : Prints float_repr) (m : MessageData) :
    llm_params_dict (body float_repr m) = some (dict (reread float_repr m)) := by
  have hloads := loads_dumps_value hprints (.obj (dict m))
  rw [Json.reread, rereadPairs_dict, dictOf_of_nodup (nodup_dict _)] at hloads
  simp only [llm_params_dict, body, fromUTF8?_toUTF8, Option.bind_some, hloads]

theorem orNone_optional {check : Json → Option α} {value : α → Json}
    (hcheck : ∀ x, check (value x) = some x) (hnull : ∀ x, value x ≠ .null) (o : Option α) :
    orNone check (optional value o) = some o := by
  cases o with
  | none => rfl
  | some x =>
    have hsome : ∀ w, w ≠ .null → orNone check w = (check w).map some := by
      intro w hw
      cases w <;> first | exact absurd rfl hw | rfl
    rw [optional, hsome _ (hnull x), hcheck]
    rfl

theorem validate_dict (v : Validators) (m : MessageData) : v.validate (dict m) = some m := by
  have htext : ∀ o, orNone v.str (optional text o) = some o :=
    orNone_optional v.str_text fun _ => by simp [text]
  have hint : ∀ o, orNone v.int (optional .int o) = some o :=
    orNone_optional v.int_int fun _ => by simp
  have hcount : ∀ o, orNone v.count (optional (fun n : Nat => .int n) o) = some o := by
    refine orNone_optional (fun n => ?_) fun _ => by simp
    rw [Validators.count, v.int_int]
    rfl
  have hfloat : ∀ o, orNone v.float (optional .float o) = some o :=
    orNone_optional v.float_float fun _ => by simp
  have hread : v.validate (dict m) = (do
      let llm_url ← orNone v.str (optional text m.llm_url)
      let llm_token ← orNone v.str (optional text m.llm_token)
      let llm_organization ← orNone v.str (optional text m.llm_organization)
      let strategy ← v.str (text m.strategy)
      let requeue_count ← v.int (.int m.requeue_count)
      let max_parallel_requests ← v.int (.int m.max_parallel_requests)
      let current_parallel_requests ←
        orNone v.count (optional (fun n : Nat => .int n) m.current_parallel_requests)
      let forwarded_priority ← orNone v.int (optional .int m.forwarded_priority)
      let performance_score ← orNone v.float (optional .float m.performance_score)
      return ⟨llm_url, llm_token, llm_organization, strategy, requeue_count,
        max_parallel_requests, current_parallel_requests, forwarded_priority,
        performance_score⟩) := rfl
  rw [hread, htext, htext, htext, v.str_text, v.int_int, v.int_int, hcount, hint, hfloat]
  rfl

/-- What the sender reads is the answer, with the score that its digits say. -/
theorem read_body (hprints : Prints float_repr) (v : Validators) (m : MessageData) :
    (llm_params_dict (body float_repr m)).bind v.validate = some (reread float_repr m) := by
  rw [llm_params_dict_body hprints, Option.bind_some, validate_dict]

/-- The sender reads the very answer that the consumer wrote, whatever its texts and numbers are,
exactly if the digits of its score say the score. -/
theorem the_answer_is_read_as_written_iff (hprints : Prints float_repr) (v : Validators)
    (m : MessageData) :
    (llm_params_dict (body float_repr m)).bind v.validate = some m ↔
      ∀ f, m.performance_score = some f → readFloat (float_repr f) = f := by
  rw [read_body hprints, Option.some.injEq]
  obtain ⟨_, _, _, _, _, _, _, _, performance_score⟩ := m
  cases performance_score with
  | none => exact iff_of_true rfl fun f hf => (by cases hf)
  | some f =>
    simp only [reread, Option.map_some, MessageData.mk.injEq, true_and, Option.some.injEq,
      forall_eq']

/-- Each type takes its own values only. -/
def strict : Validators where
  str
    | .str s => s.toString?
    | _ => none
  int
    | .int i => some i
    | _ => none
  float
    | .float f => some f
    | _ => none
  str_text := PyStr.toString?_ofString
  int_int := fun _ => rfl
  float_float := fun _ => rfl

/-- The digits of one half. -/
def halfDigits (_ : PyFloat) : List Char := "0.5".toList

theorem prints_halfDigits : Prints halfDigits := fun _ => ⟨_, rfl⟩

/-- An answer with a score of one half, and a token that has to be escaped. -/
def scored : MessageData where
  llm_url := some "http://a"
  llm_token := some "\"é\""
  llm_organization := some "org"
  strategy := "least-busy"
  requeue_count := 2
  max_parallel_requests := 3
  current_parallel_requests := some 1
  performance_score := some (.fin (1 / 2))

theorem a_scored_answer_is_read_as_written :
    (llm_params_dict (body halfDigits scored)).bind strict.validate = some scored := by
  refine (the_answer_is_read_as_written_iff prints_halfDigits strict scored).mpr fun f hf => ?_
  cases hf
  decide +kernel

end aristote_dispatcher.message_data
