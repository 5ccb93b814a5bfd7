-- `json.dumps` of any value, and what `json.loads` reads of its text: a float as its digits
-- say, two halves of a surrogate pair as one code point, and all else as it was. Nothing here
-- names this repository.
import AristoteDispatcher.Lib.JsonBytes
import Mathlib.Data.List.TakeWhile

open pyfloat

namespace json

/-! ## The writer -/

/-- One code point of a string. A surrogate is escaped alone. -/
def escapeCode (n : Nat) : List Char :=
  if isHigh n || isLow n then unicodeEscape n else escapeChar (Char.ofNat n)

def PyStr.dumps (s : PyStr) : List Char := '"' :: (s.codes.flatMap escapeCode ++ ['"'])

section

-- `float.__repr__`, and the names of what is no number
variable (float_repr : PyFloat → List Char)

mutual

/-- `json.dumps(value)`. -/
def Json.dumps : Json → List Char
  | .null => "null".toList
  | .bool true => "true".toList
  | .bool false => "false".toList
  | .int i => (toString i).toList
  | .float f => float_repr f
  | .str s => s.dumps
  | .arr items => '[' :: (dumpsItems [] items ++ [']'])
  | .obj members => '{' :: (dumpsPairs [] members ++ ['}'])

/-- The separator stands before every item but the first. -/
def dumpsItems (separator : List Char) : List Json → List Char
  | [] => []
  | v :: vs => separator ++ (v.dumps ++ dumpsItems ", ".toList vs)

def dumpsPairs (separator : List Char) : List (PyStr × Json) → List Char
  | [] => []
  | (k, v) :: ms => separator ++ (k.dumps ++ ':' :: ' ' :: (v.dumps ++ dumpsPairs ", ".toList ms))

end

/-! ## What is read back -/

def unitsOf (n : Nat) : List Nat :=
  if isHigh n || isLow n then [n] else units (Char.ofNat n)

def PyStr.reread (s : PyStr) : PyStr := ⟨combine (s.codes.flatMap unitsOf)⟩

/-- The float of a text of digits. -/
def readFloat (text : List Char) : PyFloat :=
  match atom? text with
  | some (.float f) => f
  | _ => .nan

mutual

def Json.reread : Json → Json
  | .null => .null
  | .bool b => .bool b
  | .int i => .int i
  | .float f => .float (readFloat (float_repr f))
  | .str s => .str s.reread
  | .arr items => .arr (rereadItems items)
  | .obj members => .obj (dictOf (rereadPairs members))

def rereadItems : List Json → List Json
  | [] => []
  | v :: vs => v.reread :: rereadItems vs

def rereadPairs : List (PyStr × Json) → List (PyStr × Json)
  | [] => []
  | (k, v) :: ms => (k.reread, v.reread) :: rereadPairs ms

end

/-! ## The tokens of the text -/

mutual

def Json.tokens : Json → List Token
  | .null => [.atom "null".toList]
  | .bool true => [.atom "true".toList]
  | .bool false => [.atom "false".toList]
  | .int i => [.atom (toString i).toList]
  | .float f => [.atom (float_repr f)]
  | .str s => [.str s.reread]
  | .arr items => .lbracket :: (itemTokens [] items ++ [.rbracket])
  | .obj members => .lbrace :: (pairTokens [] members ++ [.rbrace])

def itemTokens (separator : List Token) : List Json → List Token
  | [] => []
  | v :: vs => separator ++ (v.tokens ++ itemTokens [.comma] vs)

def pairTokens (separator : List Token) : List (PyStr × Json) → List Token
  | [] => []
  | (k, v) :: ms => separator ++ (.str k.reread :: .colon :: (v.tokens ++ pairTokens [.comma] ms))

end

end

/-! ## Strings -/

theorem lexFrom_escapeCode (n : Nat) (acc : List Nat) (r : List Char) :
    lexFrom (.str acc) (escapeCode n ++ r) = lexFrom (.str ((unitsOf n).reverse ++ acc)) r := by
  unfold escapeCode unitsOf
  split
  · rename_i hsurrogate
    have hlt : n < 0x10000 := by
      simp only [isHigh, isLow, Bool.or_eq_true, Bool.and_eq_true, decide_eq_true_eq] at hsurrogate
      omega
    exact lexFrom_unicodeEscape hlt acc r
  · exact lexFrom_escapeChar _ acc r

theorem lexFrom_codes (codes acc : List Nat) (r : List Char) :
    lexFrom (.str acc) (codes.flatMap escapeCode ++ '"' :: r) =
      .str ⟨combine (acc.reverse ++ codes.flatMap unitsOf)⟩ :: lexFrom .idle r := by
  induction codes generalizing acc with
  | nil => simp [lexFrom, lexStep]
  | cons n codes ih =>
    rw [List.flatMap_cons, List.append_assoc, lexFrom_escapeCode, ih]
    simp

theorem PyStr.lexFrom_dumps (s : PyStr) (r : List Char) :
    lexFrom .idle (s.dumps ++ r) = .str s.reread :: lexFrom .idle r := by
  have h := lexFrom_codes s.codes [] r
  rw [PyStr.dumps, List.cons_append, List.append_assoc]
  simpa [lexFrom, lexStep, idleStep, isWs, PyStr.reread] using h

/-- No character is a surrogate. -/
theorem not_surrogate (c : Char) : (isHigh c.toNat || isLow c.toNat) = false := by
  have hv := c.valid
  have he : c.toNat = c.val.toNat := rfl
  rw [UInt32.isValidChar, Nat.isValidChar] at hv
  unfold isHigh isLow
  simp only [Bool.or_eq_false_iff, Bool.and_eq_false_iff, decide_eq_false_iff_not]
  omega

theorem unitsOf_toNat (c : Char) : unitsOf c.toNat = units c := by
  rw [unitsOf, not_surrogate, if_neg Bool.false_ne_true, Char.ofNat_toNat]

/-- A text comes back as it was. -/
@[simp] theorem PyStr.reread_ofString (s : String) :
    (PyStr.ofString s).reread = .ofString s := by
  have hunits : (s.toList.map Char.toNat).flatMap unitsOf = s.toList.flatMap units := by
    rw [List.flatMap_map]
    exact List.flatMap_congr fun c _ => unitsOf_toNat c
  rw [PyStr.reread, PyStr.ofString, hunits, combine_units]

/-! ## Atoms -/

/-- No atom goes on into the text. -/
def Ends (r : List Char) : Prop := ∀ c ∈ r.head?, isAtomChar c = false

theorem ends_cons {c : Char} {r : List Char} (h : isAtomChar c = false) : Ends (c :: r) := by
  intro d hd
  cases hd
  exact h

theorem idleStep_atomChar {c : Char} (h : isAtomChar c = true) : idleStep c = ([], .atom [c]) := by
  have hne : ∀ d : Char, isAtomChar d = false → c ≠ d := by
    rintro d hd rfl
    rw [h] at hd
    cases hd
  have hws : isWs c = false := by
    simp only [isWs, Bool.or_eq_false_iff, decide_eq_false_iff_not]
    exact ⟨⟨⟨hne _ (by decide), hne _ (by decide)⟩, hne _ (by decide)⟩, hne _ (by decide)⟩
  simp [idleStep, hws, h, hne '{' (by decide), hne '}' (by decide), hne '[' (by decide),
    hne ']' (by decide), hne ',' (by decide), hne ':' (by decide), hne '"' (by decide)]

theorem lexFrom_atom_run {text : List Char} (h : ∀ c ∈ text, isAtomChar c = true)
    (acc r : List Char) (hr : Ends r) :
    lexFrom (.atom acc) (text ++ r) = .atom (acc.reverse ++ text) :: lexFrom .idle r := by
  induction text generalizing acc with
  | nil =>
    rw [List.nil_append, List.append_nil]
    cases r with
    | nil => rfl
    | cons c r => simp [lexFrom, lexStep, hr c rfl]
  | cons c text ih =>
    have hstep : lexStep (.atom acc) c = ([], .atom (c :: acc)) := by
      rw [lexStep, if_pos (h c List.mem_cons_self)]
    rw [List.cons_append, lexFrom, hstep, List.nil_append,
      ih fun d hd => h d (List.mem_cons_of_mem _ hd)]
    simp

/-- A text that is an atom is one token. -/
theorem lexFrom_atom {text : List Char} {v : Json} (h : atom? text = some v) {r : List Char}
    (hr : Ends r) : lexFrom .idle (text ++ r) = .atom text :: lexFrom .idle r := by
  have hchars : ∀ c ∈ text, isAtomChar c = true := by
    intro c hc
    by_contra hnot
    rw [atom?_eq_none hc (alien_of_not_atomChar (Bool.eq_false_iff.mpr hnot))] at h
    cases h
  cases text with
  | nil => cases h
  | cons c text =>
    rw [List.cons_append, lexFrom, lexStep, idleStep_atomChar (hchars c List.mem_cons_self),
      List.nil_append, lexFrom_atom_run (fun d hd => hchars d (List.mem_cons_of_mem _ hd)) _ _ hr]
    rfl

/-! ## Integers -/

theorem isAsciiDigit_of_isDigit {c : Char} (h : c.isDigit = true) : isAsciiDigit c = true := by
  simp only [Char.isDigit, Bool.and_eq_true, decide_eq_true_eq, ge_iff_le, UInt32.le_iff_toNat_le]
    at h
  simp only [isAsciiDigit, Bool.and_eq_true, decide_eq_true_eq]
  exact h

theorem digitVal_ascii {c : Char} (h : isAsciiDigit c = true) : digitVal c = c.toNat - 48 := by
  simp only [isAsciiDigit, Bool.and_eq_true, decide_eq_true_eq] at h
  have hfind : (ndBlocks.find? fun b => b ≤ c.toNat && c.toNat < b + 10) = some 48 := by
    unfold ndBlocks
    exact List.find?_cons_of_pos (by simp; omega)
  rw [digitVal, hfind]

theorem digits_ascii (n : Nat) : ∀ c ∈ Nat.toDigits 10 n, isAsciiDigit c = true :=
  fun _ hc => isAsciiDigit_of_isDigit (Nat.isDigit_of_mem_toDigits (by decide) (by decide) hc)

theorem digitsVal_toDigits (n : Nat) : digitsVal (Nat.toDigits 10 n) = n := by
  have hsame : ∀ (ds : List Char) (acc : Nat), (∀ c ∈ ds, isAsciiDigit c = true) →
      ds.foldl (fun acc d => acc * 10 + digitVal d) acc = Nat.ofDigitChars 10 ds acc := by
    intro ds
    induction ds with
    | nil => exact fun acc _ => rfl
    | cons d ds ih =>
      intro acc h
      rw [List.foldl_cons, Nat.ofDigitChars_cons, digitVal_ascii (h d List.mem_cons_self),
        Nat.mul_comm acc]
      exact ih _ fun c hc => h c (List.mem_cons_of_mem _ hc)
  rw [digitsVal, hsame _ _ (digits_ascii n)]
  exact Nat.ofDigitChars_ten_toDigits

/-- A number does not begin with a zero, unless it is zero. -/
theorem head_toDigits {n : Nat} (h : 0 < n) : (Nat.toDigits 10 n).head? ≠ some '0' := by
  induction n using Nat.strongRecOn with
  | ind n ih =>
    by_cases hlt : n < 10
    · rw [Nat.toDigits_of_lt_base hlt]
      have hdigit : ∀ m < 10, 0 < m → [Nat.digitChar m].head? ≠ some '0' := by decide
      exact hdigit n hlt h
    · have hpos : 0 < n / 10 := Nat.div_pos (Nat.not_lt.mp hlt) (by decide)
      rw [Nat.toDigits_of_base_le (by decide) (Nat.not_lt.mp hlt),
        List.head?_append_of_ne_nil _ Nat.toDigits_ne_nil]
      exact ih (n / 10) (Nat.div_lt_self h (by decide)) hpos

theorem number?_toDigits (negative : Bool) (n : Nat) :
    number? negative (Nat.toDigits 10 n) = some (.int (if negative then -n else n)) := by
  have hall : ∀ c ∈ Nat.toDigits 10 n, isAsciiDigit c = true := digits_ascii n
  have htake : (Nat.toDigits 10 n).takeWhile isAsciiDigit = Nat.toDigits 10 n :=
    List.takeWhile_eq_self_iff.mpr hall
  have hdrop : (Nat.toDigits 10 n).dropWhile isAsciiDigit = [] :=
    List.dropWhile_eq_nil_iff.mpr hall
  have hzero : ¬ ((Nat.toDigits 10 n).head? = some '0' ∧ Nat.toDigits 10 n ≠ ['0']) := by
    rintro ⟨hhead, hne⟩
    rcases Nat.eq_zero_or_pos n with rfl | hpos
    · exact hne (Nat.toDigits_zero 10)
    · exact head_toDigits hpos hhead
  unfold number?
  simp only [htake, hdrop, digitsVal_toDigits]
  rw [if_neg (not_or.mpr ⟨Nat.toDigits_ne_nil, hzero⟩)]

theorem atom?_of_digit {c : Char} (h : isAsciiDigit c = true) (text : List Char) :
    atom? (c :: text) = number? false (c :: text) := by
  have hne : ∀ name : List Char, name.head?.map isAsciiDigit = some false → c :: text ≠ name := by
    rintro name hname rfl
    rw [List.head?_cons, Option.map_some, h] at hname
    cases hname
  unfold atom?
  rw [if_neg (hne _ (by decide)), if_neg (hne _ (by decide)), if_neg (hne _ (by decide)),
    if_neg (hne _ (by decide)), if_neg (hne _ (by decide)), if_neg (hne _ (by decide))]
  split
  · rename_i heq
    rw [(List.cons.inj heq).1] at h
    exact absurd h (by decide)
  · rfl

theorem atom?_minus {c : Char} (h : isAsciiDigit c = true) (text : List Char) :
    atom? ('-' :: c :: text) = number? true (c :: text) := by
  have hinfinity : '-' :: c :: text ≠ "-Infinity".toList := by
    intro heq
    rw [(List.cons.inj (List.cons.inj heq).2).1] at h
    exact absurd h (by decide)
  unfold atom?
  rw [if_neg (by simp), if_neg (by simp), if_neg (by simp), if_neg (by simp), if_neg (by simp),
    if_neg hinfinity]
  rfl

theorem atom?_int (i : Int) : atom? (toString i).toList = some (.int i) := by
  have hdigits : ∀ n : Nat, ∃ c text, Nat.toDigits 10 n = c :: text ∧ isAsciiDigit c = true := by
    intro n
    obtain ⟨c, text, heq⟩ := List.exists_cons_of_ne_nil (Nat.toDigits_ne_nil (b := 10) (n := n))
    exact ⟨c, text, heq, digits_ascii n c (heq ▸ List.mem_cons_self)⟩
  cases i with
  | ofNat n =>
    obtain ⟨c, text, heq, hc⟩ := hdigits n
    have htext : (toString (Int.ofNat n)).toList = Nat.toDigits 10 n := Nat.toList_repr
    rw [htext, heq, atom?_of_digit hc, ← heq]
    exact number?_toDigits false n
  | negSucc n =>
    obtain ⟨c, text, heq, hc⟩ := hdigits (n + 1)
    have htext : (toString (Int.negSucc n)).toList = '-' :: Nat.toDigits 10 (n + 1) := by
      have hrepr : toString (Int.negSucc n) = "-" ++ (n + 1).repr := rfl
      rw [hrepr, String.toList_append, Nat.toList_repr]
      rfl
    rw [htext, heq, atom?_minus hc, ← heq]
    exact number?_toDigits true (n + 1)

/-! ## The text of a value -/

/-- The text of a float is that of a number with a point or an exponent, or a name. -/
def Prints (float_repr : PyFloat → List Char) : Prop :=
  ∀ f, ∃ g, atom? (float_repr f) = some (.float g)

variable {float_repr : PyFloat → List Char}

theorem Prints.atom? (h : Prints float_repr) (f : PyFloat) :
    atom? (float_repr f) = some (.float (readFloat (float_repr f))) := by
  obtain ⟨g, hg⟩ := h f
  rw [readFloat, hg]

theorem ends_items (vs : List Json) (r : List Char) :
    Ends (dumpsItems float_repr ", ".toList vs ++ ']' :: r) := by
  cases vs with
  | nil => exact ends_cons (by decide)
  | cons v vs => exact ends_cons (by decide)

theorem ends_pairs (ms : List (PyStr × Json)) (r : List Char) :
    Ends (dumpsPairs float_repr ", ".toList ms ++ '}' :: r) := by
  cases ms with
  | nil => exact ends_cons (by decide)
  | cons m ms => exact ends_cons (by decide)

theorem lexFrom_comma (r : List Char) : lexFrom .idle (", ".toList ++ r) =
    .comma :: lexFrom .idle r := rfl

mutual

/-- The text of a value has its tokens. -/
theorem lexFrom_dumps (h : Prints float_repr) (v : Json) {r : List Char} (hr : Ends r) :
    lexFrom .idle (v.dumps float_repr ++ r) = v.tokens float_repr ++ lexFrom .idle r := by
  cases v with
  | null => exact lexFrom_atom (v := .null) rfl hr
  | bool b =>
    cases b with
    | true => exact lexFrom_atom (v := .bool true) rfl hr
    | false => exact lexFrom_atom (v := .bool false) rfl hr
  | int i => exact lexFrom_atom (atom?_int i) hr
  | float f => exact lexFrom_atom (h.atom? f) hr
  | str s => exact s.lexFrom_dumps r
  | arr items =>
    have hopen : ∀ t, lexFrom .idle ('[' :: t) = .lbracket :: lexFrom .idle t := fun t => rfl
    have hclose : lexFrom .idle (']' :: r) = .rbracket :: lexFrom .idle r := rfl
    have hitems := lexFrom_items h items [] [] (fun t => rfl) r
    rw [Json.dumps, Json.tokens, List.cons_append, hopen, List.append_assoc,
      List.singleton_append, hitems, hclose, List.cons_append, List.append_assoc,
      List.singleton_append]
  | obj members =>
    have hopen : ∀ t, lexFrom .idle ('{' :: t) = .lbrace :: lexFrom .idle t := fun t => rfl
    have hclose : lexFrom .idle ('}' :: r) = .rbrace :: lexFrom .idle r := rfl
    have hpairs := lexFrom_pairs h members [] [] (fun t => rfl) r
    rw [Json.dumps, Json.tokens, List.cons_append, hopen, List.append_assoc,
      List.singleton_append, hpairs, hclose, List.cons_append, List.append_assoc,
      List.singleton_append]

theorem lexFrom_items (h : Prints float_repr) (vs : List Json) (separator : List Char)
    (tokens : List Token)
    (hseparator : ∀ t, lexFrom .idle (separator ++ t) = tokens ++ lexFrom .idle t)
    (r : List Char) :
    lexFrom .idle (dumpsItems float_repr separator vs ++ ']' :: r) =
      itemTokens float_repr tokens vs ++ lexFrom .idle (']' :: r) := by
  cases vs with
  | nil => rfl
  | cons v vs =>
    rw [dumpsItems, itemTokens, List.append_assoc, List.append_assoc, hseparator,
      lexFrom_dumps h v (ends_items vs r), lexFrom_items h vs _ [.comma] lexFrom_comma r]
    simp only [List.append_assoc]

theorem lexFrom_pairs (h : Prints float_repr) (ms : List (PyStr × Json)) (separator : List Char)
    (tokens : List Token)
    (hseparator : ∀ t, lexFrom .idle (separator ++ t) = tokens ++ lexFrom .idle t)
    (r : List Char) :
    lexFrom .idle (dumpsPairs float_repr separator ms ++ '}' :: r) =
      pairTokens float_repr tokens ms ++ lexFrom .idle ('}' :: r) := by
  cases ms with
  | nil => rfl
  | cons m ms =>
    obtain ⟨k, v⟩ := m
    have hcolon : ∀ t, lexFrom .idle (':' :: ' ' :: t) = .colon :: lexFrom .idle t := fun t => rfl
    simp only [dumpsPairs, pairTokens, List.append_assoc, List.cons_append]
    rw [hseparator, PyStr.lexFrom_dumps, hcolon, lexFrom_dumps h v (ends_pairs ms r),
      lexFrom_pairs h ms _ [.comma] lexFrom_comma r]

end

/-! ## The value of a text -/

/-- A value begins with a token of its own. -/
theorem tokens_head (float_repr : PyFloat → List Char) (v : Json) :
    ∃ t ts, v.tokens float_repr = t :: ts ∧ t ≠ .rbracket := by
  cases v with
  | bool b => cases b <;> exact ⟨_, _, rfl, by simp⟩
  | null => exact ⟨_, _, rfl, by simp⟩
  | int i => exact ⟨_, _, rfl, by simp⟩
  | float f => exact ⟨_, _, rfl, by simp⟩
  | str s => exact ⟨_, _, rfl, by simp⟩
  | arr items => exact ⟨_, _, rfl, by simp⟩
  | obj members => exact ⟨_, _, rfl, by simp⟩

theorem parseFrom_firstItem (v : Json) (stack : List Frame) (ts : List Token) :
    parseFrom (.firstItem stack) (v.tokens float_repr ++ ts) =
      parseFrom (.value (.arr [] :: stack)) (v.tokens float_repr ++ ts) := by
  obtain ⟨t, us, htokens, hne⟩ := tokens_head float_repr v
  have hstep : parseStep (.firstItem stack) t = parseStep (.value (.arr [] :: stack)) t := by
    cases t with
    | rbracket => exact absurd rfl hne
    | _ => rfl
  rw [htokens, List.cons_append, parseFrom_cons, parseFrom_cons, hstep]

theorem parseFrom_atom {text : List Char} {v : Json} (h : atom? text = some v)
    (stack : List Frame) (ts : List Token) :
    parseFrom (.value stack) (.atom text :: ts) = parseFrom (.after v stack) ts := by
  rw [parseFrom_cons, parseStep, beginValue, h]
  rfl

mutual

/-- The tokens of a value are read as what comes back of it. -/
theorem parseFrom_tokens (h : Prints float_repr) (v : Json) (stack : List Frame)
    (ts : List Token) :
    parseFrom (.value stack) (v.tokens float_repr ++ ts) =
      parseFrom (.after (v.reread float_repr) stack) ts := by
  cases v with
  | null => exact parseFrom_atom rfl stack ts
  | bool b =>
    cases b with
    | true => exact parseFrom_atom rfl stack ts
    | false => exact parseFrom_atom rfl stack ts
  | int i => exact parseFrom_atom (atom?_int i) stack ts
  | float f => exact parseFrom_atom (h.atom? f) stack ts
  | str s => rfl
  | arr items =>
    rw [Json.tokens, Json.reread, List.cons_append, List.append_assoc, List.singleton_append]
    cases items with
    | nil => rfl
    | cons v vs =>
      have hopen : ∀ us, parseFrom (.value stack) (.lbracket :: us) =
          parseFrom (.firstItem stack) us := fun us => rfl
      rw [hopen, itemTokens, List.nil_append, List.append_assoc, parseFrom_firstItem,
        parseFrom_tokens h v, parseFrom_items h vs]
      rfl
  | obj members =>
    rw [Json.tokens, Json.reread, List.cons_append, List.append_assoc, List.singleton_append]
    cases members with
    | nil => rfl
    | cons m ms =>
      obtain ⟨k, v⟩ := m
      have hopen : ∀ us, parseFrom (.value stack) (.lbrace :: .str k.reread :: .colon :: us) =
          parseFrom (.value (.obj [] k.reread :: stack)) us := fun us => rfl
      simp only [pairTokens, List.nil_append, List.cons_append, List.append_assoc]
      rw [hopen, parseFrom_tokens h v, parseFrom_pairs h ms]
      rfl

theorem parseFrom_items (h : Prints float_repr) (vs : List Json) (u : Json) (acc : List Json)
    (stack : List Frame) (ts : List Token) :
    parseFrom (.after u (.arr acc :: stack))
        (itemTokens float_repr [.comma] vs ++ .rbracket :: ts) =
      parseFrom (.after (.arr ((u :: acc).reverse ++ rereadItems float_repr vs)) stack) ts := by
  cases vs with
  | nil =>
    rw [rereadItems, List.append_nil]
    rfl
  | cons v vs =>
    have hcomma : ∀ us, parseFrom (.after u (.arr acc :: stack)) (.comma :: us) =
        parseFrom (.value (.arr (u :: acc) :: stack)) us := fun us => rfl
    rw [itemTokens, List.singleton_append, List.cons_append, List.append_assoc, hcomma,
      parseFrom_tokens h v, parseFrom_items h vs, rereadItems]
    simp only [List.reverse_cons, List.append_assoc, List.cons_append, List.nil_append]

theorem parseFrom_pairs (h : Prints float_repr) (ms : List (PyStr × Json)) (u : Json)
    (acc : List (PyStr × Json)) (key : PyStr) (stack : List Frame) (ts : List Token) :
    parseFrom (.after u (.obj acc key :: stack))
        (pairTokens float_repr [.comma] ms ++ .rbrace :: ts) =
      parseFrom (.after (.obj (dictOf (((key, u) :: acc).reverse ++ rereadPairs float_repr ms)))
        stack) ts := by
  cases ms with
  | nil =>
    rw [rereadPairs, List.append_nil]
    rfl
  | cons m ms =>
    obtain ⟨k, v⟩ := m
    have hcomma : ∀ us, parseFrom (.after u (.obj acc key :: stack))
        (.comma :: .str k.reread :: .colon :: us) =
        parseFrom (.value (.obj ((key, u) :: acc) k.reread :: stack)) us := fun us => rfl
    simp only [pairTokens, List.nil_append, List.cons_append, List.append_assoc]
    rw [hcomma, parseFrom_tokens h v, parseFrom_pairs h ms, rereadPairs]
    simp only [List.reverse_cons, List.append_assoc, List.cons_append, List.nil_append]

end

/-- `json.loads` of the text that `json.dumps` writes. -/
theorem loads_dumps_value (h : Prints float_repr) (v : Json) :
    loads (String.ofList (v.dumps float_repr)) = some (v.reread float_repr) := by
  have hlex := lexFrom_dumps h v (r := []) (fun c hc => by cases hc)
  have hparse := parseFrom_tokens h v [] []
  rw [List.append_nil] at hlex hparse
  rw [loads, String.toList_ofList, hlex]
  exact (congrArg (parseFrom (.value [])) (List.append_nil _)).trans hparse

end json
