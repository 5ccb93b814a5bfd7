-- What the consumer does with the fields of a server, whatever their types are: it names a
-- queue after the organization and compares it with that of a message (consumer/rpc_server.py),
-- compares the limit with a count (consumer/quality_of_service_policy), and puts them into the
-- answer, which pydantic validates (common/message_data.py). Accepted settings give any value
-- of JSON that can be hashed.
import AristoteDispatcher.Messages

open pyfloat json
open aristote_dispatcher.settings

namespace aristote_dispatcher.rpc_server

/-- `s == value` for a string `s`. -/
def isStr (value : Json) (s : String) : Bool :=
  match value with
  | .str t => t = PyStr.ofString s
  | _ => false

theorem isStr_iff {value : Json} {text : String} :
    isStr value text = true ↔ value = .str (PyStr.ofString text) := by
  cases value with
  | str t => simp [isStr]
  | _ => simp [isStr]

theorem isStr_ofString (a b : String) : isStr (.str (PyStr.ofString a)) b = decide (a = b) := by
  simp [isStr, PyStr.ofString_inj]

/-! ## What each field has to do -/

class UrlField (U : Type) where
  /-- `url == ""`. -/
  empty : U → Bool
  /-- `value == url`. -/
  equals : U → Json → Bool
  /-- What pydantic makes of it as `str | None`, where `none` is its ValidationError. -/
  llm_url : U → Option (Option String)

class TokenField (T : Type) where
  /-- What pydantic makes of it as `str | None`. -/
  llm_token : T → Option (Option String)

class OrganizationField (O : Type) where
  /-- `f"{organization}"`, if a queue can have it in its name. -/
  format : O → Option String
  /-- `organization == value`. -/
  equals : O → Json → Bool
  /-- What pydantic makes of it as `str | None`. -/
  llm_organization : O → Option (Option String)

class LimitField (L : Type) where
  /-- `current_parallel_requests >= max_parallel_requests`, where `none` is a TypeError. -/
  reached : L → Nat → Option Bool
  /-- What pydantic makes of it as `int`. -/
  max_parallel_requests : L → Option Int

def at_limit {L : Type} [LimitField L] (limit : L) (current : Nat) : Except Exn Bool :=
  match LimitField.reached limit current with
  | some full => .ok full
  | none => .error .TypeError

/-! ## The declared types -/

instance : UrlField String where
  empty url := url = ""
  equals url value := isStr value url
  llm_url url := some (some url)

@[simp] theorem urlField_empty (url : String) : UrlField.empty url = decide (url = "") := rfl

@[simp] theorem urlField_equals (url : String) (value : Json) :
    UrlField.equals url value = isStr value url := rfl

instance : TokenField ServerToken where
  llm_token token := some token

instance : OrganizationField String where
  format organization := some organization
  equals organization value := isStr value organization
  llm_organization organization := some (some organization)

instance : LimitField Int where
  reached limit current := some (limit ≤ current)
  max_parallel_requests limit := some limit

/-! ## The values of accepted settings -/

/-- A value of JSON that can be hashed. With a list or an object in a field the server is no
key of a dict, and the consumer does not start. -/
inductive Scalar
  | none
  | bool (b : Bool)
  | int (i : Int)
  | float (f : PyFloat)
  | str (s : PyStr)
  deriving DecidableEq, Repr

def Scalar.of? : Json → Option Scalar
  | .null => some .none
  | .bool b => some (.bool b)
  | .int i => some (.int i)
  | .float f => some (.float f)
  | .str s => some (.str s)
  | .arr _ | .obj _ => Option.none

def Scalar.json : Scalar → Json
  | .none => .null
  | .bool b => .bool b
  | .int i => .int i
  | .float f => .float f
  | .str s => .str s

theorem Scalar.of?_eq_some_iff {value : Json} {scalar : Scalar} :
    Scalar.of? value = some scalar ↔ value = scalar.json := by
  cases value <;> cases scalar <;> simp [Scalar.of?, Scalar.json]

/-- The value of a number. -/
def Scalar.number? : Scalar → Option PyFloat
  | .bool b => some (.fin (if b then 1 else 0))
  | .int i => some (.fin i)
  | .float f => some f.rounded
  | .none | .str _ => Option.none

/-- `a == b`. -/
def Scalar.eq (a b : Scalar) : Bool :=
  match a.number?, b.number? with
  | some x, some y => x.eq y
  | Option.none, Option.none => a = b
  | _, _ => false

/-- A server of accepted settings. Its url is a key of JSON. -/
abbrev AcceptedServer := VLLMServer Scalar Scalar Scalar PyStr

/-- What is not written here: `repr` of a float, and what pydantic makes of a value as `str | None`
and as `int`. -/
class Validation where
  float_repr : PyFloat → String
  validate_str : Scalar → Option (Option String)
  validate_int : Scalar → Option Int

variable [Validation]

instance : UrlField PyStr where
  empty url := url.codes = []
  equals url
    | .str s => s = url
    | _ => false
  llm_url url := Validation.validate_str (.str url)

instance : TokenField Scalar where
  llm_token := Validation.validate_str

instance : OrganizationField Scalar where
  format
    | .none => some "None"
    | .bool b => some (if b then "True" else "False")
    | .int i => some (toString i)
    | .float f => some (Validation.float_repr f)
    | .str s => s.toString?
  equals organization value := (Scalar.of? value).any organization.eq
  llm_organization := Validation.validate_str

instance : LimitField Scalar where
  reached limit current := limit.number?.map fun limit => limit.le (.fin current)
  max_parallel_requests := Validation.validate_int

end aristote_dispatcher.rpc_server
