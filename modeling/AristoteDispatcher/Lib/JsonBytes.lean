-- `json.loads` of Python on bytes: the encoding is told from the first bytes, and
-- lone surrogates pass. Text that is encoded as UTF-8 reads as the text itself.
import AristoteDispatcher.Lib.JsonCut
import AristoteDispatcher.Lib.JsonDumps

namespace json

/-! ## The encoding -/

/-- With a byte order mark, or with the order of the bytes. -/
inductive Encoding
  | utf_8
  | utf_8_sig
  | utf_16
  | utf_16_le
  | utf_16_be
  | utf_32
  | utf_32_le
  | utf_32_be
  deriving DecidableEq, Repr

/-- `detect_encoding` of the `json` module. -/
def detect_encoding (b : List Nat) : Encoding :=
  if [0, 0, 0xfe, 0xff].isPrefixOf b || [0xff, 0xfe, 0, 0].isPrefixOf b then .utf_32
  else if [0xfe, 0xff].isPrefixOf b || [0xff, 0xfe].isPrefixOf b then .utf_16
  else if [0xef, 0xbb, 0xbf].isPrefixOf b then .utf_8_sig
  else match b with
    | b0 :: b1 :: b2 :: b3 :: _ =>
      if b0 = 0 then if b1 ≠ 0 then .utf_16_be else .utf_32_be
      else if b1 = 0 then if b2 ≠ 0 ∨ b3 ≠ 0 then .utf_16_le else .utf_32_le
      else .utf_8
    | [b0, b1] => if b0 = 0 then .utf_16_be else if b1 = 0 then .utf_16_le else .utf_8
    | _ => .utf_8

/-! ## Code points

With `surrogatepass` the code point of a surrogate is one like any other. -/

def isTail (b : Nat) : Bool := 0x80 ≤ b && b < 0xc0

/-- UTF-8, in its shortest form only. -/
def utf8 : List Nat → Option (List Nat)
  | [] => some []
  | a :: r =>
    if a < 0x80 then (utf8 r).map (a :: ·)
    else match r with
      | [] => none
      | b :: r =>
        if isTail b = false ∨ a < 0xc2 ∨ 0xf5 ≤ a then none
        else if a < 0xe0 then (utf8 r).map (((a - 0xc0) * 64 + (b - 0x80)) :: ·)
        else match r with
          | [] => none
          | c :: r =>
            if isTail c = false ∨ (a = 0xe0 ∧ b < 0xa0) ∨ (a = 0xf0 ∧ b < 0x90) ∨
                (a = 0xf4 ∧ 0x90 ≤ b) then none
            else if a < 0xf0 then
              (utf8 r).map (((a - 0xe0) * 4096 + (b - 0x80) * 64 + (c - 0x80)) :: ·)
            else match r with
              | [] => none
              | d :: r =>
                if isTail d = false then none
                else (utf8 r).map (((a - 0xf0) * 262144 + (b - 0x80) * 4096 + (c - 0x80) * 64 +
                  (d - 0x80)) :: ·)

/-- The units of UTF-16. -/
def units16 (big : Bool) : List Nat → Option (List Nat)
  | [] => some []
  | [_] => none
  | a :: b :: r => (units16 big r).map ((if big then a * 256 + b else b * 256 + a) :: ·)

def utf16 (big : Bool) (b : List Nat) : Option (List Nat) := (units16 big b).map combine

def utf32 (big : Bool) : List Nat → Option (List Nat)
  | [] => some []
  | a :: b :: c :: d :: r =>
    let n := if big then ((a * 256 + b) * 256 + c) * 256 + d
      else ((d * 256 + c) * 256 + b) * 256 + a
    if n < 0x110000 then (utf32 big r).map (n :: ·) else none
  | _ => none

/-- `b.decode(encoding, "surrogatepass")`: `none` is the UnicodeDecodeError. -/
def decode (encoding : Encoding) (b : List Nat) : Option (List Nat) :=
  match encoding with
  | .utf_8 => utf8 b
  | .utf_8_sig => utf8 (b.drop 3)
  | .utf_16 => utf16 (b.head? = some 0xfe) (b.drop 2)
  | .utf_16_le => utf16 false b
  | .utf_16_be => utf16 true b
  | .utf_32 => utf32 (b.head? = some 0) (b.drop 4)
  | .utf_32_le => utf32 false b
  | .utf_32_be => utf32 true b

/-! ## The lexer on code points -/

/-- A surrogate of the text itself makes no pair, so it is marked while its string is read. -/
def mark : Nat := 0x110000

/-- A surrogate stands only in a string. -/
def lexSurrogate (n : Nat) : Mode → List Token × Mode
  | .str codes => ([], .str ((mark + n) :: codes))
  | .atom text => ([.atom text.reverse, .bad], .failed)
  | .failed => ([], .failed)
  | _ => ([.bad], .failed)

def lexPoint (m : Mode) (n : Nat) : List Token × Mode :=
  if isHigh n ∨ isLow n then lexSurrogate n m else lexStep m (Char.ofNat n)

def lexPoints : Mode → List Nat → List Token
  | m, [] => lexEnd m
  | m, n :: ns => (lexPoint m n).1 ++ lexPoints (lexPoint m n).2 ns

def Token.unmark : Token → Token
  | .str s => .str ⟨s.codes.map fun n => if mark ≤ n then n - mark else n⟩
  | t => t

inductive LoadsError
  | JSONDecodeError
  | UnicodeDecodeError
  deriving DecidableEq, Repr

def bytesOf (b : ByteArray) : List Nat := b.data.toList.map UInt8.toNat

/-- `json.loads(b)` of bytes. -/
def loads_bytes (b : ByteArray) : Except LoadsError Json :=
  match decode (detect_encoding (bytesOf b)) (bytesOf b) with
  | none => .error .UnicodeDecodeError
  | some points =>
    match parseFrom (.value []) ((lexPoints .idle points).map Token.unmark) with
    | none => .error .JSONDecodeError
    | some v => .ok v

/-- `json.loads(s)` of a string of any code points: `none` is the JSONDecodeError. -/
def loads_str (s : PyStr) : Option Json :=
  parseFrom (.value []) ((lexPoints .idle s.codes).map Token.unmark)

/-! ## A text in UTF-8 -/

def charBytes (c : Char) : List Nat := (String.utf8EncodeChar c).map UInt8.toNat

theorem bytesOf_toUTF8 (text : String) : bytesOf text.toUTF8 = text.toList.flatMap charBytes := by
  have h : text.toUTF8 = (text.toList.flatMap String.utf8EncodeChar).toByteArray := by
    rw [String.toUTF8_eq_toByteArray, ← String.utf8Encode_toList]
    rfl
  rw [h, bytesOf, List.toList_data_toByteArray, List.map_flatMap]
  rfl

/-- The bytes of a character, by their number. -/
theorem charBytes_cases (c : Char) :
    (c.toNat < 0x80 ∧ charBytes c = [c.toNat]) ∨
    (0x80 ≤ c.toNat ∧ c.toNat < 0x800 ∧
      charBytes c = [c.toNat / 64 + 0xc0, c.toNat % 64 + 0x80]) ∨
    (0x800 ≤ c.toNat ∧ c.toNat < 0x10000 ∧
      charBytes c = [c.toNat / 4096 + 0xe0, c.toNat / 64 % 64 + 0x80, c.toNat % 64 + 0x80]) ∨
    (0x10000 ≤ c.toNat ∧ charBytes c = [c.toNat / 262144 + 0xf0, c.toNat / 4096 % 64 + 0x80,
      c.toNat / 64 % 64 + 0x80, c.toNat % 64 + 0x80]) := by
  have hlt := toNat_lt c
  have hval : c.val.toNat = c.toNat := rfl
  unfold charBytes String.utf8EncodeChar
  simp only [hval]
  split_ifs with h1 h2 h3
  · left
    refine ⟨by omega, ?_⟩
    simp only [List.map_cons, List.map_nil, UInt8.toNat_ofNat', List.cons.injEq, and_true]
    omega
  · right; left
    refine ⟨by omega, by omega, ?_⟩
    simp only [List.map_cons, List.map_nil, UInt8.toNat_ofNat', List.cons.injEq, and_true]
    omega
  · right; right; left
    refine ⟨by omega, by omega, ?_⟩
    simp only [List.map_cons, List.map_nil, UInt8.toNat_ofNat', List.cons.injEq, and_true]
    omega
  · right; right; right
    refine ⟨by omega, ?_⟩
    simp only [List.map_cons, List.map_nil, UInt8.toNat_ofNat', List.cons.injEq, and_true]
    omega

/-- The decoder reads a character back. -/
theorem utf8_charBytes (c : Char) (r : List Nat) :
    utf8 (charBytes c ++ r) = (utf8 r).map (c.toNat :: ·) := by
  have hlt := toNat_lt c
  have htail : ∀ n, isTail (n % 64 + 0x80) = true := by
    intro n
    simp only [isTail, Bool.and_eq_true, decide_eq_true_eq]
    omega
  rcases charBytes_cases c with ⟨h, heq⟩ | ⟨h, h', heq⟩ | ⟨h, h', heq⟩ | ⟨h, heq⟩
  · simp only [heq, List.cons_append, List.nil_append]
    rw [utf8.eq_def]
    simp only [if_pos h]
  · have hval : (c.toNat / 64 + 0xc0 - 0xc0) * 64 + (c.toNat % 64 + 0x80 - 0x80) = c.toNat := by
      omega
    simp only [heq, List.cons_append, List.nil_append]
    rw [utf8.eq_def]
    simp only [htail, hval]
    rw [if_neg (by omega), if_neg (by simp; omega), if_pos (by omega)]
  · have hval : (c.toNat / 4096 + 0xe0 - 0xe0) * 4096 + (c.toNat / 64 % 64 + 0x80 - 0x80) * 64 +
        (c.toNat % 64 + 0x80 - 0x80) = c.toNat := by omega
    simp only [heq, List.cons_append, List.nil_append]
    rw [utf8.eq_def]
    simp only [htail, hval]
    rw [if_neg (by omega), if_neg (by simp; omega), if_neg (by omega), if_neg (by simp; omega),
      if_pos (by omega)]
  · have hval : (c.toNat / 262144 + 0xf0 - 0xf0) * 262144 +
        (c.toNat / 4096 % 64 + 0x80 - 0x80) * 4096 + (c.toNat / 64 % 64 + 0x80 - 0x80) * 64 +
        (c.toNat % 64 + 0x80 - 0x80) = c.toNat := by omega
    simp only [heq, List.cons_append, List.nil_append]
    rw [utf8.eq_def]
    simp only [htail, hval]
    rw [if_neg (by omega), if_neg (by simp; omega), if_neg (by omega), if_neg (by simp; omega),
      if_neg (by omega), if_neg (by simp)]

theorem utf8_flatMap (cs : List Char) : utf8 (cs.flatMap charBytes) = some (cs.map Char.toNat) := by
  induction cs with
  | nil => rfl
  | cons c cs ih =>
    rw [List.flatMap_cons, utf8_charBytes, ih]
    rfl

/-! The marks do not touch the strings of a text. -/

/-- The codes that the lexer holds are below the mark. -/
def Mode.Small : Mode → Prop
  | .str codes | .escape codes => ∀ n ∈ codes, n < mark
  | .hex codes left value => (∀ n ∈ codes, n < mark) ∧ 1 ≤ left ∧ left ≤ 4 ∧
    value < 16 ^ (4 - left)
  | _ => True

def Token.Small : Token → Prop
  | .str s => ∀ n ∈ s.codes, n < mark
  | _ => True

/-- The same with another bound, as the codes of a surrogate are marked. -/
def Mode.Below (bound : Nat) : Mode → Prop
  | .str codes | .escape codes => ∀ n ∈ codes, n < bound
  | .hex codes left value => (∀ n ∈ codes, n < bound) ∧ 1 ≤ left ∧ left ≤ 4 ∧
    value < 16 ^ (4 - left)
  | _ => True

def Token.Below (bound : Nat) : Token → Prop
  | .str s => ∀ n ∈ s.codes, n < bound
  | _ => True

theorem Mode.small_iff {m : Mode} : m.Small ↔ m.Below mark := by cases m <;> rfl

theorem Token.small_iff {t : Token} : t.Small ↔ t.Below mark := by cases t <;> rfl

theorem combine_lt {bound : Nat} (hbound : mark ≤ bound) {codes : List Nat}
    (h : ∀ n ∈ codes, n < bound) : ∀ n ∈ combine codes, n < bound := by
  induction codes using combine.induct with
  | case1 h' l r hpair ih =>
    intro n hn
    rw [combine, if_pos hpair] at hn
    simp only [isHigh, isLow, Bool.and_eq_true, decide_eq_true_eq] at hpair
    rcases List.mem_cons.mp hn with heq | hn
    · unfold mark at hbound
      omega
    · exact ih (fun m hm => h m (List.mem_cons_of_mem _ (List.mem_cons_of_mem _ hm))) n hn
  | case2 h' l r hpair ih =>
    intro n hn
    rw [combine, if_neg hpair] at hn
    rcases List.mem_cons.mp hn with rfl | hn
    · exact h _ List.mem_cons_self
    · exact ih (fun m hm => h m (List.mem_cons_of_mem _ hm)) n hn
  | case3 h' => exact h
  | case4 => exact h

theorem idleStep_below {bound : Nat} (c : Char) :
    (∀ t ∈ (idleStep c).1, t.Below bound) ∧ (idleStep c).2.Below bound := by
  unfold idleStep
  split_ifs <;> simp [Token.Below, Mode.Below]

theorem hexValue?_lt {c : Char} {d : Nat} (h : hexValue? c = some d) : d < 16 := by
  unfold hexValue? isAsciiDigit at h
  split_ifs at h with h1 h2 h3
  all_goals
    simp only [Bool.and_eq_true, decide_eq_true_eq] at *
    cases h
    omega

theorem escapeValue?_lt {c : Char} {n : Nat} (h : escapeValue? c = some n) : n < mark := by
  unfold escapeValue? at h
  split_ifs at h <;> cases h <;> decide

theorem lexStep_below {bound : Nat} (hbound : mark ≤ bound) {m : Mode} (hm : m.Below bound)
    (c : Char) : (∀ t ∈ (lexStep m c).1, t.Below bound) ∧ (lexStep m c).2.Below bound := by
  have hc : c.toNat < bound := Nat.lt_of_lt_of_le (toNat_lt c) hbound
  cases m with
  | idle => exact idleStep_below c
  | atom text =>
    obtain ⟨htokens, hmode⟩ : (∀ t ∈ (idleStep c).1, t.Below bound) ∧ (idleStep c).2.Below bound :=
      idleStep_below c
    simp only [lexStep]
    split_ifs
    · simp [Mode.Below]
    · exact ⟨by simpa [Token.Below] using htokens, hmode⟩
  | str codes =>
    simp only [lexStep]
    split_ifs
    · have hcombined := combine_lt hbound fun n hn => hm n (List.mem_reverse.mp hn)
      simpa [Token.Below, Mode.Below] using hcombined
    · exact ⟨by simp, hm⟩
    · simp [Token.Below, Mode.Below]
    · exact ⟨by simp, List.forall_mem_cons.mpr ⟨hc, hm⟩⟩
  | escape codes =>
    simp only [lexStep]
    split_ifs
    · exact ⟨by simp, hm, by decide, by decide, by decide⟩
    · cases hvalue : escapeValue? c with
      | none => simp [Token.Below, Mode.Below]
      | some n =>
        have hn := Nat.lt_of_lt_of_le (escapeValue?_lt hvalue) hbound
        exact ⟨by simp, List.forall_mem_cons.mpr ⟨hn, hm⟩⟩
  | hex codes left value =>
    obtain ⟨hcodes, hpos, hle, hvalue⟩ := hm
    simp only [lexStep]
    cases hdigit : hexValue? c with
    | none => simp [Token.Below, Mode.Below]
    | some d =>
      have hd := hexValue?_lt hdigit
      by_cases hone : left = 1
      · subst hone
        have hcode : value * 16 + d < bound := by
          norm_num at hvalue
          unfold mark at hbound
          omega
        simp only [if_true]
        exact ⟨by simp, List.forall_mem_cons.mpr ⟨hcode, hcodes⟩⟩
      · have hpow : 16 ^ (4 - (left - 1)) = 16 * 16 ^ (4 - left) := by
          rw [← Nat.pow_succ']
          congr 1
          omega
        simp only [if_neg hone]
        refine ⟨by simp, hcodes, by omega, by omega, ?_⟩
        rw [hpow]
        omega
  | failed => simp [lexStep, Mode.Below]

theorem lexEnd_below {bound : Nat} (m : Mode) : ∀ t ∈ lexEnd m, t.Below bound := by
  cases m <;> simp [lexEnd, Token.Below]

theorem lexStep_small {m : Mode} (hm : m.Small) (c : Char) :
    (∀ t ∈ (lexStep m c).1, t.Small) ∧ (lexStep m c).2.Small := by
  obtain ⟨htokens, hmode⟩ := lexStep_below (le_refl mark) (Mode.small_iff.mp hm) c
  exact ⟨fun t ht => Token.small_iff.mpr (htokens t ht), Mode.small_iff.mpr hmode⟩

theorem lexFrom_small {m : Mode} (hm : m.Small) (cs : List Char) :
    ∀ t ∈ lexFrom m cs, t.Small := by
  induction cs generalizing m with
  | nil => exact fun t ht => Token.small_iff.mpr (lexEnd_below m t ht)
  | cons c cs ih =>
    obtain ⟨htokens, hmode⟩ := lexStep_small hm c
    intro t ht
    rcases List.mem_append.mp ht with ht | ht
    · exact htokens t ht
    · exact ih hmode t ht

/-- The marks of a text of any code points are twice the mark at most, and go with `unmark`. -/
theorem lexPoints_below {m : Mode} (hm : m.Below (2 * mark)) (points : List Nat) :
    ∀ t ∈ lexPoints m points, t.Below (2 * mark) := by
  induction points generalizing m with
  | nil => exact lexEnd_below m
  | cons n points ih =>
    have hstep : (∀ t ∈ (lexPoint m n).1, t.Below (2 * mark)) ∧
        (lexPoint m n).2.Below (2 * mark) := by
      unfold lexPoint
      split
      · rename_i hsurrogate
        have hn : mark + n < 2 * mark := by
          simp only [isHigh, isLow, Bool.and_eq_true, decide_eq_true_eq] at hsurrogate
          unfold mark
          omega
        unfold lexSurrogate
        cases m with
        | str codes => exact ⟨by simp, List.forall_mem_cons.mpr ⟨hn, hm⟩⟩
        | _ => simp [Token.Below, Mode.Below]
      · exact lexStep_below (by decide) hm _
    intro t ht
    rcases List.mem_append.mp ht with ht | ht
    · exact hstep.1 t ht
    · exact ih hstep.2 t ht

theorem unmark_small {t : Token} (h : t.Below (2 * mark)) : t.unmark.Small := by
  cases t with
  | str s =>
    intro n hn
    obtain ⟨code, hcode, rfl⟩ := List.mem_map.mp hn
    have hlt := h code hcode
    unfold mark at hlt ⊢
    split <;> omega
  | _ => trivial

theorem unmark_of_small {t : Token} (h : t.Small) : t.unmark = t := by
  cases t with
  | str s =>
    have hcodes : (s.codes.map fun n => if mark ≤ n then n - mark else n) = s.codes := by
      rw [List.map_congr_left fun n hn => if_neg (Nat.not_le.mpr (h n hn)), List.map_id']
    exact congrArg (fun codes => Token.str ⟨codes⟩) hcodes
  | _ => rfl

/-- No character is a surrogate. -/
theorem lexPoint_toNat (m : Mode) (c : Char) : lexPoint m c.toNat = lexStep m c := by
  have hv := c.valid
  have he : c.toNat = c.val.toNat := rfl
  rw [UInt32.isValidChar, Nat.isValidChar] at hv
  have hnot : ¬ (isHigh c.toNat = true ∨ isLow c.toNat = true) := by
    simp only [isHigh, isLow, Bool.and_eq_true, decide_eq_true_eq]
    omega
  rw [lexPoint, if_neg hnot, Char.ofNat_toNat]

theorem lexPoints_map (m : Mode) (cs : List Char) :
    lexPoints m (cs.map Char.toNat) = lexFrom m cs := by
  induction cs generalizing m with
  | nil => rfl
  | cons c cs ih =>
    rw [List.map_cons, lexPoints, lexPoint_toNat, ih]
    rfl

theorem unmark_lexPoints (cs : List Char) :
    (lexPoints .idle (cs.map Char.toNat)).map Token.unmark = lexFrom .idle cs := by
  rw [lexPoints_map]
  refine (List.map_congr_left fun t ht => ?_).trans (List.map_id _)
  exact unmark_of_small (lexFrom_small (m := .idle) trivial cs t ht)

theorem loads_str_ofString (text : String) : loads_str (.ofString text) = loads text := by
  rw [loads_str, PyStr.ofString, unmark_lexPoints]
  rfl

/-! A JSON text has no null character, and begins with an ASCII character. -/

theorem not_null_of_reads {m : Mode} {cs : List Char} (hm : m ≠ .failed) (h : Reads m cs) :
    ∀ c ∈ cs, c.toNat ≠ 0 := by
  induction cs generalizing m with
  | nil => exact fun c hc => (by cases hc)
  | cons c cs ih =>
    intro d hd
    rcases List.mem_cons.mp hd with rfl | hd
    · intro hnull
      obtain rfl : d = Char.ofNat 0 := by rw [← hnull, Char.ofNat_toNat]
      refine h.not_bad ?_
      cases m with
      | idle => exact List.mem_singleton_self _
      | atom text => exact List.mem_cons_of_mem _ (List.mem_singleton_self _)
      | str codes => exact List.mem_singleton_self _
      | escape codes => exact List.mem_singleton_self _
      | hex codes left value => exact List.mem_singleton_self _
      | failed => exact absurd rfl hm
    · exact ih (not_failed_step hm h) h.tail d hd

theorem ascii_of_reads {c : Char} {cs : List Char} (h : Reads .idle (c :: cs)) :
    c.toNat < 0x80 := by
  by_contra hlt
  refine h.not_bad ?_
  have hne : ∀ d : Char, d.toNat < 0x80 → c ≠ d := by
    rintro d hd rfl
    exact hlt hd
  have hatom : isAtomChar c = false := by
    simp only [isAtomChar, isAsciiDigit, Bool.or_eq_false_iff, Bool.and_eq_false_iff,
      decide_eq_false_iff_not]
    refine ⟨⟨⟨⟨⟨?_, ?_⟩, ?_⟩, hne _ (by decide)⟩, hne _ (by decide)⟩, hne _ (by decide)⟩ <;> omega
  have hws : isWs c = false := by
    simp only [isWs, Bool.or_eq_false_iff, decide_eq_false_iff_not]
    exact ⟨⟨⟨hne _ (by decide), hne _ (by decide)⟩, hne _ (by decide)⟩, hne _ (by decide)⟩
  simp [lexStep, idleStep, hws, hatom, hne '{' (by decide), hne '}' (by decide),
    hne '[' (by decide), hne ']' (by decide), hne ',' (by decide), hne ':' (by decide),
    hne '"' (by decide)]

theorem charBytes_ne_zero {c : Char} (hc : c.toNat ≠ 0) : ∀ b ∈ charBytes c, b ≠ 0 := by
  rcases charBytes_cases c with ⟨h, heq⟩ | ⟨h, h', heq⟩ | ⟨h, h', heq⟩ | ⟨h, heq⟩ <;> rw [heq] <;>
    simp [hc]

theorem detect_utf_8 {b : Nat} {bs : List Nat} (hb : b < 0x80)
    (hne : ∀ n ∈ b :: bs, n ≠ 0) : detect_encoding (b :: bs) = .utf_8 := by
  have h0 : b ≠ 0 := hne b List.mem_cons_self
  have hfirst : ∀ (n : Nat) (ns : List Nat), n ≠ b → (n :: ns).isPrefixOf (b :: bs) = false := by
    intro n ns hn
    rw [Bool.eq_false_iff]
    intro h
    obtain ⟨rest, hrest⟩ := List.isPrefixOf_iff_prefix.mp h
    exact hn (List.cons.inj hrest).1
  unfold detect_encoding
  rw [hfirst 0 _ h0.symm, hfirst 0xff _ (by omega), hfirst 0xfe _ (by omega),
    hfirst 0xff _ (by omega), hfirst 0xef _ (by omega)]
  simp only [Bool.or_self, Bool.false_eq_true, if_false]
  split
  · rename_i heq
    cases heq
    rw [if_neg h0, if_neg (hne _ (by simp))]
  · rename_i heq
    cases heq
    rw [if_neg h0, if_neg (hne _ (by simp))]
  · rfl

/-- A JSON text in UTF-8 reads as the text. -/
theorem loads_bytes_toUTF8 {text : String} {v : Json} (h : loads text = some v) :
    loads_bytes text.toUTF8 = .ok v := by
  have hreads := reads_of_loads h
  have hdetect : detect_encoding (bytesOf text.toUTF8) = .utf_8 := by
    rw [bytesOf_toUTF8]
    have hnull := not_null_of_reads (by simp) hreads
    cases hcs : text.toList with
    | nil => rfl
    | cons c cs =>
      rw [hcs] at hreads hnull
      have hne : ∀ n ∈ (c :: cs).flatMap charBytes, n ≠ 0 := by
        intro n hn
        obtain ⟨d, hd, hmem⟩ := List.mem_flatMap.mp hn
        exact charBytes_ne_zero (hnull d hd) n hmem
      have hascii := ascii_of_reads hreads
      have hbytes : charBytes c = [c.toNat] := by
        rcases charBytes_cases c with ⟨_, heq⟩ | ⟨h, _⟩ | ⟨h, _⟩ | ⟨h, _⟩
        · exact heq
        all_goals omega
      rw [List.flatMap_cons, hbytes] at hne ⊢
      exact detect_utf_8 hascii hne
  unfold loads_bytes
  rw [hdetect, decode, bytesOf_toUTF8, utf8_flatMap]
  simp only [unmark_lexPoints]
  rw [loads] at h
  rw [h]

end json
