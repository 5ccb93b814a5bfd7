-- JSON values and `json.loads` of Python, as a lexer that reads one character
-- at a time and a parser that reads one token at a time. A float is the exact
-- value of its text, which Python rounds. The limits of the interpreter (the
-- recursion depth, the digits of one integer) are left out.
import AristoteDispatcher.Lib.PyFloat

open pyfloat

namespace json

/-! ## Values -/

/-- A Python string: any code points. A JSON escape can leave a lone surrogate,
which no `String` holds. -/
structure PyStr where
  codes : List Nat
  deriving DecidableEq, Repr

def PyStr.ofString (s : String) : PyStr := ⟨s.toList.map Char.toNat⟩

/-- The text, when no code point is a lone surrogate. -/
def PyStr.toString? (s : PyStr) : Option String :=
  if s.codes.all fun n => decide n.isValidChar then
    some (String.ofList (s.codes.map Char.ofNat))
  else none

/-- A value that `json.loads` gives. -/
inductive Json
  | null
  | bool (b : Bool)
  | int (i : Int)
  | float (f : PyFloat)
  | str (s : PyStr)
  | arr (items : List Json)
  | obj (members : List (PyStr × Json))

theorem PyStr.toString?_ofString (s : String) : (PyStr.ofString s).toString? = some s := by
  unfold PyStr.toString? PyStr.ofString
  have hall : ((s.toList.map Char.toNat).all fun n => decide n.isValidChar) = true := by
    simp only [List.all_eq_true, List.mem_map, decide_eq_true_eq]
    rintro n ⟨c, _, rfl⟩
    exact c.valid
  rw [if_pos hall, List.map_map]
  simp [Function.comp_def, Char.ofNat_toNat]

theorem PyStr.ofString_injective : Function.Injective PyStr.ofString := by
  intro a b h
  have := congrArg PyStr.toString? h
  simpa [PyStr.toString?_ofString] using this

theorem PyStr.ofString_inj {a b : String} : PyStr.ofString a = PyStr.ofString b ↔ a = b :=
  PyStr.ofString_injective.eq_iff

theorem fromUTF8?_toUTF8 (text : String) : String.fromUTF8? text.toUTF8 = some text :=
  dif_pos text.isValidUTF8

/-- `d[k] = v` on the members of an object: a key that is there keeps its place. -/
def setMember (d : List (PyStr × Json)) (k : PyStr) (v : Json) : List (PyStr × Json) :=
  if d.any (·.1 = k) then d.map fun m => if m.1 = k then (k, v) else m else d ++ [(k, v)]

/-- The dict of the pairs of an object: of two pairs with one key, the later wins. -/
def dictOf (pairs : List (PyStr × Json)) : List (PyStr × Json) :=
  pairs.foldl (fun d m => setMember d m.1 m.2) []

/-- `data.get(k)` of a dict, where a key that is not there gives `None`. -/
def getMember (d : List (PyStr × Json)) (k : String) : Json :=
  (d.lookup (PyStr.ofString k)).getD .null

/-- `data.get(key, default)` of a dict. -/
def getOr (members : List (PyStr × Json)) (key : String) (default : Json) : Json :=
  (members.lookup (.ofString key)).getD default

/-! ## The lexer -/

inductive Token
  | lbrace
  | rbrace
  | lbracket
  | rbracket
  | comma
  | colon
  | str (s : PyStr)
  | atom (text : List Char)
  | bad
  deriving DecidableEq, Repr

/-- Where the lexer stands. The accumulators are reversed. -/
inductive Mode
  | idle
  | atom (text : List Char)
  | str (codes : List Nat)
  | escape (codes : List Nat)
  | hex (codes : List Nat) (left value : Nat)
  | failed

def isWs (c : Char) : Bool := c = ' ' || c = '\t' || c = '\n' || c = '\r'

def isAsciiDigit (c : Char) : Bool := 48 ≤ c.toNat && c.toNat ≤ 57

/-- The characters of a number, a literal or a constant. -/
def isAtomChar (c : Char) : Bool :=
  isAsciiDigit c || (65 ≤ c.toNat && c.toNat ≤ 90) || (97 ≤ c.toNat && c.toNat ≤ 122) ||
    c = '+' || c = '-' || c = '.'

def hexValue? (c : Char) : Option Nat :=
  if isAsciiDigit c then some (c.toNat - 48)
  else if 97 ≤ c.toNat && c.toNat ≤ 102 then some (c.toNat - 87)
  else if 65 ≤ c.toNat && c.toNat ≤ 70 then some (c.toNat - 55)
  else none

def isHigh (n : Nat) : Bool := 0xd800 ≤ n && n ≤ 0xdbff

def isLow (n : Nat) : Bool := 0xdc00 ≤ n && n ≤ 0xdfff

/-- Two surrogates in a row are one code point. -/
def combine : List Nat → List Nat
  | h :: l :: r =>
    if isHigh h && isLow l then (0x10000 + (h - 0xd800) * 0x400 + (l - 0xdc00)) :: combine r
    else h :: combine (l :: r)
  | [h] => [h]
  | [] => []

/-- One character between two tokens. -/
def idleStep (c : Char) : List Token × Mode :=
  if isWs c then ([], .idle)
  else if c = '{' then ([.lbrace], .idle)
  else if c = '}' then ([.rbrace], .idle)
  else if c = '[' then ([.lbracket], .idle)
  else if c = ']' then ([.rbracket], .idle)
  else if c = ',' then ([.comma], .idle)
  else if c = ':' then ([.colon], .idle)
  else if c = '"' then ([], .str [])
  else if isAtomChar c then ([], .atom [c])
  else ([.bad], .failed)

/-- The character that a two-character escape stands for. -/
def escapeValue? (c : Char) : Option Nat :=
  if c = '"' then some 34
  else if c = '\\' then some 92
  else if c = '/' then some 47
  else if c = 'b' then some 8
  else if c = 'f' then some 12
  else if c = 'n' then some 10
  else if c = 'r' then some 13
  else if c = 't' then some 9
  else none

def lexStep : Mode → Char → List Token × Mode
  | .idle, c => idleStep c
  | .atom text, c =>
    if isAtomChar c then ([], .atom (c :: text))
    else (.atom text.reverse :: (idleStep c).1, (idleStep c).2)
  | .str codes, c =>
    if c = '"' then ([.str ⟨combine codes.reverse⟩], .idle)
    else if c = '\\' then ([], .escape codes)
    -- a control character must be escaped
    else if c.toNat < 32 then ([.bad], .failed)
    else ([], .str (c.toNat :: codes))
  | .escape codes, c =>
    if c = 'u' then ([], .hex codes 4 0)
    else match escapeValue? c with
      | some n => ([], .str (n :: codes))
      | none => ([.bad], .failed)
  | .hex codes left value, c =>
    match hexValue? c with
    | some d =>
      if left = 1 then ([], .str ((value * 16 + d) :: codes))
      else ([], .hex codes (left - 1) (value * 16 + d))
    | none => ([.bad], .failed)
  | .failed, _ => ([], .failed)

/-- The text ends inside a token, or between two. -/
def lexEnd : Mode → List Token
  | .idle => []
  | .atom text => [.atom text.reverse]
  | .failed => []
  | _ => [.bad]

def lexFrom : Mode → List Char → List Token
  | m, [] => lexEnd m
  | m, c :: cs => (lexStep m c).1 ++ lexFrom (lexStep m c).2 cs

/-! ## Numbers and literals -/

/-- The exponent of a number: no text, or `e`, a sign and digits. -/
def exponent? : List Char → Option Int
  | [] => some 0
  | e :: r =>
    if e = 'e' ∨ e = 'E' then
      let digits := match r with
        | '+' :: ds => ds
        | '-' :: ds => ds
        | ds => ds
      if digits ≠ [] ∧ digits.all isAsciiDigit then
        some (if r.head? = some '-' then -(digitsVal digits : Int) else digitsVal digits)
      else none
    else none

/-- A number with no sign: `(0|[1-9][0-9]*)(\.[0-9]+)?([eE][-+]?[0-9]+)?`. -/
def number? (negative : Bool) (u : List Char) : Option Json :=
  let ip := u.takeWhile isAsciiDigit
  if ip = [] ∨ (ip.head? = some '0' ∧ ip ≠ ['0']) then none
  else match u.dropWhile isAsciiDigit with
    | [] => some (.int (if negative then -(digitsVal ip : Int) else digitsVal ip))
    | '.' :: r =>
      let fp := r.takeWhile isAsciiDigit
      if fp = [] then none
      else (exponent? (r.dropWhile isAsciiDigit)).map fun e =>
        .float (.fin ((if negative then -1 else 1) * decimalVal ip fp * 10 ^ e))
    | r => (exponent? r).map fun e =>
        .float (.fin ((if negative then -1 else 1) * decimalVal ip [] * 10 ^ e))

def atom? (text : List Char) : Option Json :=
  if text = "null".toList then some .null
  else if text = "true".toList then some (.bool true)
  else if text = "false".toList then some (.bool false)
  else if text = "NaN".toList then some (.float .nan)
  else if text = "Infinity".toList then some (.float .posInf)
  else if text = "-Infinity".toList then some (.float .negInf)
  else match text with
    | '-' :: u => number? true u
    | u => number? false u

/-! ## The parser -/

/-- A list or an object that is not closed yet. Its items are reversed. -/
inductive Frame
  | arr (items : List Json)
  | obj (members : List (PyStr × Json)) (key : PyStr)

/-- What the parser waits for. -/
inductive State
  | value (stack : List Frame)
  | firstItem (stack : List Frame)
  | firstKey (stack : List Frame)
  | key (members : List (PyStr × Json)) (stack : List Frame)
  | colon (members : List (PyStr × Json)) (key : PyStr) (stack : List Frame)
  | after (v : Json) (stack : List Frame)

/-- A token where a value may begin. -/
def beginValue (stack : List Frame) : Token → Option State
  | .lbrace => some (.firstKey stack)
  | .lbracket => some (.firstItem stack)
  | .str s => some (.after (.str s) stack)
  | .atom text => (atom? text).map fun v => .after v stack
  | _ => none

def parseStep : State → Token → Option State
  | .value stack, t => beginValue stack t
  | .firstItem stack, .rbracket => some (.after (.arr []) stack)
  | .firstItem stack, t => beginValue (.arr [] :: stack) t
  | .firstKey stack, .rbrace => some (.after (.obj []) stack)
  | .firstKey stack, .str k => some (.colon [] k stack)
  | .key members stack, .str k => some (.colon members k stack)
  | .colon members k stack, .colon => some (.value (.obj members k :: stack))
  | .after v (.arr items :: stack), .comma => some (.value (.arr (v :: items) :: stack))
  | .after v (.arr items :: stack), .rbracket => some (.after (.arr (v :: items).reverse) stack)
  | .after v (.obj members k :: stack), .comma => some (.key ((k, v) :: members) stack)
  | .after v (.obj members k :: stack), .rbrace =>
    some (.after (.obj (dictOf ((k, v) :: members).reverse)) stack)
  | _, _ => none

def parseFrom : State → List Token → Option Json
  | .after v [], [] => some v
  | _, [] => none
  | s, t :: ts => (parseStep s t).bind fun s' => parseFrom s' ts

/-- `json.loads(text)`: `none` is the JSONDecodeError. -/
def loads (text : String) : Option Json := parseFrom (.value []) (lexFrom .idle text.toList)

end json
