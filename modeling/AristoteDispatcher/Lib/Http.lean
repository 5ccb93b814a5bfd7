-- The content of an HTTP message as its receiver reads it: as long as
-- Content-Length says, and decoded as Content-Encoding says. The decoders are a
-- parameter. Nothing here names this repository.
import AristoteDispatcher.Lib.PyDict

open pydict

namespace http

/-- Names in lower case, and the values of one name joined. -/
abbrev Headers := Dict String String

/-- The pieces of a content, in one. -/
def join (chunks : List ByteArray) : ByteArray := chunks.foldr (· ++ ·) ByteArray.empty

@[simp] theorem join_cons (chunk : ByteArray) (chunks : List ByteArray) :
    join (chunk :: chunks) = chunk ++ join chunks := rfl

def isDigit (c : Char) : Bool := 48 ≤ c.toNat && c.toNat ≤ 57

/-- A number of digits only. -/
def decimal? (text : String) : Option Nat :=
  if text.toList ≠ [] ∧ text.toList.all isDigit then
    some (text.toList.foldl (fun n c => 10 * n + (c.toNat - 48)) 0)
  else none

/-- The bytes that belong to the message. With too few of them it is not complete. -/
def delimited (headers : Headers) (bytes : ByteArray) : Option ByteArray :=
  match headers.lookup "content-length" with
  | none => some bytes
  | some text =>
    match decimal? text with
    | none => none
    | some n => if n ≤ bytes.size then some (bytes.extract 0 n) else none

def isWs (c : Char) : Bool := c = ' ' || c = '\t'

def strip (text : List Char) : List Char :=
  ((text.dropWhile isWs).reverse.dropWhile isWs).reverse

/-- The codings of a content, in the order in which they were applied. -/
def content_codings (headers : Headers) : List String :=
  match headers.lookup "content-encoding" with
  | none => []
  | some text =>
    (text.toList.splitOn ',').map fun coding => String.ofList ((strip coding).map Char.toLower)

variable (decode : String → ByteArray → Option ByteArray)

/-- The content without its codings, the last one first. -/
def decoded (codings : List String) (content : ByteArray) : Option ByteArray :=
  codings.reverse.foldlM (fun content coding => decode coding content) content

/-- What a receiver makes of the bytes. -/
def received (headers : Headers) (bytes : ByteArray) : Option ByteArray :=
  (delimited headers bytes).bind (decoded decode (content_codings headers))

/-- No coding but the one that does nothing. -/
def Plain (headers : Headers) : Prop := ∀ coding ∈ content_codings headers, coding = "identity"

instance (headers : Headers) : Decidable (Plain headers) :=
  inferInstanceAs (Decidable (∀ coding ∈ content_codings headers, coding = "identity"))

variable {decode}

end http
