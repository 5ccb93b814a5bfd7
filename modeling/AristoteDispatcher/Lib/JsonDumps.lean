-- `json.dumps` of a dict of strings, and its round trip: `json.loads` gives
-- the dict back, for every string, also those past the basic plane.
import AristoteDispatcher.Lib.Json

namespace json

/-! ## The writer -/

def hexDigit (n : Nat) : Char := Char.ofNat (if n < 10 then 48 + n else 87 + n)

/-- `\uXXXX`. -/
def unicodeEscape (n : Nat) : List Char :=
  ['\\', 'u', hexDigit (n / 4096 % 16), hexDigit (n / 256 % 16), hexDigit (n / 16 % 16),
   hexDigit (n % 16)]

/-- The UTF-16 units of a character. -/
def units (c : Char) : List Nat :=
  if c.toNat < 0x10000 then [c.toNat]
  else [0xd800 + (c.toNat - 0x10000) / 0x400, 0xdc00 + (c.toNat - 0x10000) % 0x400]

/-- One character of a string, with `ensure_ascii` as by default. -/
def escapeChar (c : Char) : List Char :=
  if c = '"' then ['\\', '"']
  else if c = '\\' then ['\\', '\\']
  else if c = '\n' then ['\\', 'n']
  else if c = '\r' then ['\\', 'r']
  else if c = '\t' then ['\\', 't']
  else if c.toNat = 12 then ['\\', 'f']
  else if c.toNat = 8 then ['\\', 'b']
  else if 32 ≤ c.toNat ∧ c.toNat ≤ 126 then [c]
  else (units c).flatMap unicodeEscape

def dumpsStr (s : String) : List Char := '"' :: (s.toList.flatMap escapeChar ++ ['"'])

/-- The members of an object, with Python's separators. -/
def dumpsMembers : List (String × String) → List Char
  | [] => []
  | [(k, v)] => dumpsStr k ++ ':' :: ' ' :: dumpsStr v
  | (k, v) :: m :: rest =>
    dumpsStr k ++ ':' :: ' ' :: (dumpsStr v ++ ',' :: ' ' :: dumpsMembers (m :: rest))

/-- `json.dumps(d)` for a dict of strings. -/
def dumps (d : List (String × String)) : String :=
  String.ofList ('{' :: (dumpsMembers d ++ ['}']))

/-- The dict that `json.loads` should give back. -/
def ofStrings (d : List (String × String)) : List (PyStr × Json) :=
  d.map fun m => (PyStr.ofString m.1, .str (PyStr.ofString m.2))

/-! ## A string read back -/

theorem hexValue?_hexDigit : ∀ n < 16, hexValue? (hexDigit n) = some n := by decide

theorem lexFrom_hex {c : Char} {d : Nat} (h : hexValue? c = some d) (acc : List Nat)
    (left value : Nat) (r : List Char) :
    lexFrom (.hex acc left value) (c :: r) =
      if left = 1 then lexFrom (.str ((value * 16 + d) :: acc)) r
      else lexFrom (.hex acc (left - 1) (value * 16 + d)) r := by
  simp only [lexFrom, lexStep, h]
  split <;> rfl

theorem lexFrom_unicodeEscape {n : Nat} (hn : n < 0x10000) (acc : List Nat) (r : List Char) :
    lexFrom (.str acc) (unicodeEscape n ++ r) = lexFrom (.str (n :: acc)) r := by
  have h1 := hexValue?_hexDigit (n / 4096 % 16) (by omega)
  have h2 := hexValue?_hexDigit (n / 256 % 16) (by omega)
  have h3 := hexValue?_hexDigit (n / 16 % 16) (by omega)
  have h4 := hexValue?_hexDigit (n % 16) (by omega)
  have hval : (((0 * 16 + n / 4096 % 16) * 16 + n / 256 % 16) * 16 + n / 16 % 16) * 16 + n % 16
      = n := by omega
  have hstart : ∀ t, lexFrom (.str acc) ('\\' :: 'u' :: t) = lexFrom (.hex acc 4 0) t :=
    fun t => rfl
  simp only [unicodeEscape, List.cons_append, List.nil_append]
  rw [hstart, lexFrom_hex h1, if_neg (by decide), lexFrom_hex h2, if_neg (by decide),
    lexFrom_hex h3, if_neg (by decide), lexFrom_hex h4, if_pos (by decide), hval]

theorem toNat_lt (c : Char) : c.toNat < 0x110000 := by
  have h := c.valid
  have he : c.toNat = c.val.toNat := rfl
  rw [UInt32.isValidChar, Nat.isValidChar] at h
  omega

theorem units_lt (c : Char) : ∀ n ∈ units c, n < 0x10000 := by
  have h := toNat_lt c
  unfold units
  intro n hn
  split at hn
  · simp only [List.mem_singleton] at hn
    omega
  · simp only [List.mem_cons, List.not_mem_nil, or_false] at hn
    omega

theorem lexFrom_units (us : List Nat) (h : ∀ n ∈ us, n < 0x10000) (acc : List Nat)
    (r : List Char) :
    lexFrom (.str acc) (us.flatMap unicodeEscape ++ r) = lexFrom (.str (us.reverse ++ acc)) r := by
  induction us generalizing acc with
  | nil => rfl
  | cons n us ih =>
    rw [List.flatMap_cons, List.append_assoc, lexFrom_unicodeEscape (h n List.mem_cons_self),
      ih fun m hm => h m (List.mem_cons_of_mem _ hm)]
    simp

theorem lexFrom_escapeChar (c : Char) (acc : List Nat) (r : List Char) :
    lexFrom (.str acc) (escapeChar c ++ r) = lexFrom (.str ((units c).reverse ++ acc)) r := by
  have hsmall : c.toNat < 0x10000 → units c = [c.toNat] := fun h => by simp [units, h]
  unfold escapeChar
  split_ifs with h1 h2 h3 h4 h5 h6 h7 h8
  · subst h1; rfl
  · subst h2; rfl
  · subst h3; rfl
  · subst h4; rfl
  · subst h5; rfl
  · rw [hsmall (by omega), h6]; rfl
  · rw [hsmall (by omega), h7]; rfl
  · -- a printable ASCII character is written as it is
    have hctl : ¬ c.toNat < 32 := by omega
    rw [hsmall (by omega)]
    simp [lexFrom, lexStep, h1, h2, hctl]
  · exact lexFrom_units _ (units_lt c) acc r

theorem lexFrom_string (cs : List Char) (acc : List Nat) (r : List Char) :
    lexFrom (.str acc) (cs.flatMap escapeChar ++ '"' :: r) =
      .str ⟨combine (acc.reverse ++ cs.flatMap units)⟩ :: lexFrom .idle r := by
  induction cs generalizing acc with
  | nil => simp [lexFrom, lexStep]
  | cons c cs ih =>
    rw [List.flatMap_cons, List.append_assoc, lexFrom_escapeChar, ih]
    simp

theorem combine_cons_of_not_high {n : Nat} {r : List Nat} (h : isHigh n = false) :
    combine (n :: r) = n :: combine r := by
  cases r with
  | nil => rfl
  | cons m r => simp [combine, h]

/-- No character is a surrogate, so its units give its code point back. -/
theorem combine_units_append (c : Char) (r : List Nat) :
    combine (units c ++ r) = c.toNat :: combine r := by
  have hv := c.valid
  have he : c.toNat = c.val.toNat := rfl
  rw [UInt32.isValidChar, Nat.isValidChar] at hv
  by_cases hc : c.toNat < 0x10000
  · have hh : isHigh c.toNat = false := by
      unfold isHigh
      simp only [Bool.and_eq_false_iff, decide_eq_false_iff_not]
      omega
    rw [units, if_pos hc, List.singleton_append, combine_cons_of_not_high hh]
  · have hh : isHigh (0xd800 + (c.toNat - 0x10000) / 0x400) = true := by
      unfold isHigh
      simp only [Bool.and_eq_true, decide_eq_true_eq]
      omega
    have hl : isLow (0xdc00 + (c.toNat - 0x10000) % 0x400) = true := by
      unfold isLow
      simp only [Bool.and_eq_true, decide_eq_true_eq]
      omega
    have hval : 0x10000 + (0xd800 + (c.toNat - 0x10000) / 0x400 - 0xd800) * 0x400 +
        (0xdc00 + (c.toNat - 0x10000) % 0x400 - 0xdc00) = c.toNat := by omega
    rw [units, if_neg hc, List.cons_append, List.cons_append, List.nil_append, combine, hh, hl,
      Bool.and_self, if_pos rfl, hval]

theorem combine_units (cs : List Char) : combine (cs.flatMap units) = cs.map Char.toNat := by
  induction cs with
  | nil => rfl
  | cons c cs ih => rw [List.flatMap_cons, List.map_cons, combine_units_append, ih]

theorem lexFrom_dumpsStr (s : String) (r : List Char) :
    lexFrom .idle (dumpsStr s ++ r) = .str (PyStr.ofString s) :: lexFrom .idle r := by
  have h := lexFrom_string s.toList [] r
  rw [List.reverse_nil, List.nil_append, combine_units] at h
  rw [dumpsStr, List.cons_append, List.append_assoc]
  simpa [lexFrom, lexStep, idleStep, isWs, PyStr.ofString] using h

/-! ## An object read back -/

/-- The tokens of the members of an object of strings. -/
def memberTokens : List (String × String) → List Token
  | [] => []
  | [(k, v)] => [.str (.ofString k), .colon, .str (.ofString v)]
  | (k, v) :: m :: rest =>
    .str (.ofString k) :: .colon :: .str (.ofString v) :: .comma :: memberTokens (m :: rest)

theorem lexFrom_dumpsMembers (d : List (String × String)) (r : List Char) :
    lexFrom .idle (dumpsMembers d ++ r) = memberTokens d ++ lexFrom .idle r := by
  have hcolon : ∀ t, lexFrom .idle (':' :: ' ' :: t) = .colon :: lexFrom .idle t := fun t => rfl
  have hcomma : ∀ t, lexFrom .idle (',' :: ' ' :: t) = .comma :: lexFrom .idle t := fun t => rfl
  induction d using dumpsMembers.induct with
  | case1 => rfl
  | case2 k v =>
    simp only [dumpsMembers, memberTokens, List.append_assoc, List.cons_append,
      lexFrom_dumpsStr, hcolon]
    rfl
  | case3 k v m rest ih =>
    simp only [dumpsMembers, memberTokens, List.append_assoc, List.cons_append,
      lexFrom_dumpsStr, hcolon, hcomma, ih]

theorem setMember_of_notMem {d : List (PyStr × Json)} {k : PyStr} {v : Json}
    (h : k ∉ d.map Prod.fst) : setMember d k v = d ++ [(k, v)] := by
  unfold setMember
  rw [if_neg]
  simp only [List.any_eq_true, decide_eq_true_eq]
  rintro ⟨m, hm, rfl⟩
  exact h (List.mem_map_of_mem hm)

theorem lookup_setMember (d : List (PyStr × Json)) (k : PyStr) (v : Json) :
    (setMember d k v).lookup k = some v := by
  unfold setMember
  split
  · rename_i hany
    induction d with
    | nil => cases hany
    | cons m d ih =>
      by_cases hm : m.1 = k
      · simp [hm]
      · have hrest : d.any (·.1 = k) = true := by simpa [hm] using hany
        have hne : (k == m.1) = false := by simpa using fun h : k = m.1 => hm h.symm
        rw [List.map_cons, if_neg hm, List.lookup_cons, hne]
        exact ih hrest
  · rename_i hany
    have hnone : d.lookup k = none := by
      rw [List.lookup_eq_none_iff]
      intro m hm
      simp only [bne_iff_ne, ne_eq]
      rintro rfl
      exact hany (List.any_eq_true.mpr ⟨m, hm, by simp⟩)
    simp [List.lookup_append, hnone]
/-- Pairs with distinct keys are a dict already. -/
theorem dictOf_of_nodup {pairs : List (PyStr × Json)} (h : (pairs.map Prod.fst).Nodup) :
    dictOf pairs = pairs := by
  unfold dictOf
  induction pairs using List.reverseRecOn with
  | nil => rfl
  | append_singleton pairs m ih =>
    rw [List.map_append, List.nodup_append] at h
    rw [List.foldl_append, ih h.1]
    simp only [List.foldl_cons, List.foldl_nil]
    apply setMember_of_notMem
    intro hm
    exact h.2.2 _ hm m.1 (by simp) rfl

theorem parseFrom_members (d : List (String × String)) (hd : d ≠ [])
    (acc : List (PyStr × Json)) (ts : List Token) :
    parseFrom (.key acc []) (memberTokens d ++ .rbrace :: ts) =
      parseFrom (.after (.obj (dictOf (acc.reverse ++ ofStrings d))) []) ts := by
  induction d using dumpsMembers.induct generalizing acc with
  | case1 => exact absurd rfl hd
  | case2 k v =>
    simp [memberTokens, parseFrom, parseStep, beginValue, ofStrings]
  | case3 k v m rest ih =>
    have := ih (by simp) ((PyStr.ofString k, .str (PyStr.ofString v)) :: acc)
    simpa [memberTokens, parseFrom, parseStep, beginValue, ofStrings] using this

/-- `json.loads` gives back every dict of strings that `json.dumps` wrote. -/
theorem loads_dumps (d : List (String × String)) (h : (d.map Prod.fst).Nodup) :
    loads (dumps d) = some (.obj (ofStrings d)) := by
  have hnodup : ((ofStrings d).map Prod.fst).Nodup := by
    have : (ofStrings d).map Prod.fst = (d.map Prod.fst).map PyStr.ofString := by
      simp [ofStrings, Function.comp_def]
    rw [this]
    exact h.map PyStr.ofString_injective
  have hlex : lexFrom .idle ('{' :: (dumpsMembers d ++ ['}'])) =
      .lbrace :: (memberTokens d ++ [.rbrace]) := by
    have hopen : lexFrom .idle ('{' :: (dumpsMembers d ++ ['}'])) =
        .lbrace :: lexFrom .idle (dumpsMembers d ++ ['}']) := rfl
    rw [hopen, lexFrom_dumpsMembers]
    rfl
  unfold loads dumps
  rw [String.toList_ofList, hlex]
  rcases d with _ | ⟨⟨k, v⟩, rest⟩
  · rfl
  · have hfirst : ∀ ts, parseFrom (.firstKey []) (memberTokens ((k, v) :: rest) ++ ts) =
        parseFrom (.key [] []) (memberTokens ((k, v) :: rest) ++ ts) := by
      intro ts
      rcases rest with _ | ⟨m, rest⟩ <;> rfl
    have hstep : parseFrom (.value []) (.lbrace :: (memberTokens ((k, v) :: rest) ++ [.rbrace])) =
        parseFrom (.firstKey []) (memberTokens ((k, v) :: rest) ++ [.rbrace]) := rfl
    rw [hstep, hfirst, parseFrom_members _ (by simp), List.reverse_nil, List.nil_append,
      dictOf_of_nodup hnodup]
    rfl

theorem getMember_ofStrings (d : List (String × String)) (k : String) :
    getMember (ofStrings d) k = (d.lookup k).elim .null fun v => .str (.ofString v) := by
  unfold getMember ofStrings
  induction d with
  | nil => rfl
  | cons m d ih =>
    rw [List.map_cons, List.lookup_cons, List.lookup_cons]
    by_cases hk : k = m.1
    · simp [hk]
    · have hk' : (PyStr.ofString k == PyStr.ofString m.1) = false := by
        simpa [PyStr.ofString_inj] using hk
      have hkb : (k == m.1) = false := by simpa using hk
      rw [hk', hkb]
      exact ih

end json
