-- The text format that Prometheus clients expose: one sample a line, its labels
-- between braces with escaped values, then a blank and a number in Go style.
import Mathlib.Data.List.Basic
import AristoteDispatcher.Lib.PyFloat

open pyfloat

namespace exposition

structure Label where
  name : List Char
  value : List Char
  deriving DecidableEq, Repr

/-- A character of a label name. -/
def isNameChar (c : Char) : Bool := c.isAlphanum || c = '_'

def escapeChar (c : Char) : List Char :=
  if c = '\\' then ['\\', '\\']
  else if c = '\n' then ['\\', 'n']
  else if c = '"' then ['\\', '"']
  else [c]

/-- The value of a label as it stands between its quotes. -/
def escape (value : List Char) : List Char := value.flatMap escapeChar

/-- `name="value"`. -/
def Label.text (l : Label) : List Char := l.name ++ '=' :: '"' :: (escape l.value ++ ['"'])

/-- The labels with commas between them. -/
def labelsText (labels : List Label) : List Char := [','].intercalate (labels.map Label.text)

/-- The line of one sample, without its line feed. -/
def sampleLine (name : List Char) (labels : List Label) (value : List Char) : List Char :=
  name ++ '{' :: (labelsText labels ++ '}' :: ' ' :: value)

/-- The text of a list of lines. -/
def exposed (lines : List (List Char)) : List Char := lines.flatMap fun line => line ++ ['\n']

/-! ## Numbers in Go style -/

/-- `v` stands without an exponent. -/
def InPlainRange (v : ℚ) : Prop := v = 0 ∨ 1 / 10000 ≤ v ∧ v < 1000000

/-- The text is `v` in Go style: `digits.digits` in the plain range, else a mantissa of one
digit before its point, and an exponent. -/
inductive Prints : ℚ → List Char → Prop
  | plain {ip fp : List Char} (hne : ip ≠ []) (hfe : fp ≠ [])
      (hip : ∀ c ∈ ip, c.isDigit = true) (hfp : ∀ c ∈ fp, c.isDigit = true)
      (hv : InPlainRange (decimalVal ip fp)) : Prints (decimalVal ip fp) (ip ++ '.' :: fp)
  | exponent {d : Char} {fp ex : List Char} {minus : Bool} (hd : d.isDigit = true)
      (hfp : ∀ c ∈ fp, c.isDigit = true) (hex : ∀ c ∈ ex, c.isDigit = true)
      (hv : ¬InPlainRange (decimalVal [d] fp *
        10 ^ (if minus then -(digitsVal ex : ℤ) else (digitsVal ex : ℤ)))) :
      Prints (decimalVal [d] fp * 10 ^ (if minus then -(digitsVal ex : ℤ) else (digitsVal ex : ℤ)))
        (d :: (if fp = [] then [] else '.' :: fp) ++ 'e' :: (if minus then '-' else '+') :: ex)

theorem isDecimal_of_isDigit {c : Char} (h : c.isDigit = true) : isDecimal c = true := by
  apply isDecimal_of_ascii
  simp only [Char.isDigit, Bool.and_eq_true, decide_eq_true_eq, UInt32.le_iff_toNat_le,
    ge_iff_le] at h
  exact h

/-- A character of a number. -/
def isNumberChar (c : Char) : Bool := c.isDigit || ['.', 'e', '+', '-'].contains c

theorem isNumberChar_of_isDigit {c : Char} (h : c.isDigit = true) : isNumberChar c = true := by
  unfold isNumberChar
  rw [h, Bool.true_or]

theorem Prints.isNumberChar {v : ℚ} {t : List Char} (h : Prints v t) :
    ∀ c ∈ t, isNumberChar c = true := by
  cases h with
  | plain hne hfe hip hfp hv =>
    intro c hc
    rcases List.mem_append.mp hc with hc | hc
    · exact isNumberChar_of_isDigit (hip c hc)
    · rcases List.mem_cons.mp hc with rfl | hc
      · rfl
      · exact isNumberChar_of_isDigit (hfp c hc)
  | exponent hd hfp hex hv =>
    intro c hc
    rcases List.mem_append.mp hc with hc | hc
    · rcases List.mem_cons.mp hc with rfl | hc
      · exact isNumberChar_of_isDigit hd
      · split at hc
        · cases hc
        · rcases List.mem_cons.mp hc with rfl | hc
          · rfl
          · exact isNumberChar_of_isDigit (hfp c hc)
    · rcases List.mem_cons.mp hc with rfl | hc
      · rfl
      · rcases List.mem_cons.mp hc with rfl | hc
        · split <;> rfl
        · exact isNumberChar_of_isDigit (hex c hc)

theorem Prints.no_newline_or_quote {v : ℚ} {t : List Char} (h : Prints v t) :
    '\n' ∉ t ∧ '"' ∉ t :=
  ⟨fun hm => absurd (h.isNumberChar _ hm) (by decide),
    fun hm => absurd (h.isNumberChar _ hm) (by decide)⟩

/-- In the plain range the text is `digits.digits` and writes the number. -/
theorem Prints.of_plain {v : ℚ} {t : List Char} (h : Prints v t) (hv : InPlainRange v) :
    ∃ ip fp, t = ip ++ '.' :: fp ∧ ip ≠ [] ∧ fp ≠ [] ∧ (∀ c ∈ ip, isDecimal c = true) ∧
      (∀ c ∈ fp, isDecimal c = true) ∧ decimalVal ip fp = v := by
  cases h with
  | plain hne hfe hip hfp _ =>
    exact ⟨_, _, rfl, hne, hfe, fun c hc => isDecimal_of_isDigit (hip c hc),
      fun c hc => isDecimal_of_isDigit (hfp c hc), rfl⟩
  | exponent _ _ _ hout => exact absurd hv hout

/-- Outside it, the text starts with a mantissa of one digit before its point and goes on
with an exponent. -/
theorem Prints.of_exponent {v : ℚ} {t : List Char} (h : Prints v t) (hv : ¬InPlainRange v) :
    ∃ d fp r, t = d :: ((if fp = [] then [] else '.' :: fp) ++ 'e' :: r) ∧ d.isDigit = true ∧
      (∀ c ∈ fp, isDecimal c = true) ∧ ' ' ∉ r := by
  cases h with
  | plain _ _ _ _ hp => exact absurd hp hv
  | @exponent d fp ex minus hd hfp hex _ =>
    refine ⟨d, fp, (if minus then '-' else '+') :: ex, rfl, hd,
      fun c hc => isDecimal_of_isDigit (hfp c hc), ?_⟩
    intro hm
    rcases List.mem_cons.mp hm with he | hm
    · split at he
      · exact absurd he (by decide)
      · exact absurd he (by decide)
    · exact absurd (hex _ hm) (by decide)

/-! ## Escaped values -/

theorem escapeChar_of_ne {c : Char} (h1 : c ≠ '\\') (h2 : c ≠ '\n') (h3 : c ≠ '"') :
    escapeChar c = [c] := by
  unfold escapeChar
  rw [if_neg h1, if_neg h2, if_neg h3]

/-- An escaped character is itself and no quote, or a backslash and one more character. -/
theorem escapeChar_cases (c : Char) :
    (escapeChar c = [c] ∧ c ≠ '"' ∧ c ≠ '\n') ∨ ∃ d, escapeChar c = ['\\', d] ∧ d ≠ '\n' := by
  by_cases h1 : c = '\\'
  · exact .inr ⟨'\\', by rw [h1]; rfl, by decide⟩
  by_cases h2 : c = '\n'
  · exact .inr ⟨'n', by rw [h2]; rfl, by decide⟩
  by_cases h3 : c = '"'
  · exact .inr ⟨'"', by rw [h3]; rfl, by decide⟩
  · exact .inl ⟨escapeChar_of_ne h1 h2 h3, h3, h2⟩

theorem escape_cons (c : Char) (v : List Char) : escape (c :: v) = escapeChar c ++ escape v :=
  List.flatMap_cons

theorem escape_ne_quote (v t : List Char) : escape v ≠ '"' :: t := by
  intro h
  rcases v with _ | ⟨c, v⟩
  · cases h
  · rw [escape_cons] at h
    rcases escapeChar_cases c with ⟨hc, hq, _⟩ | ⟨d, hc, _⟩
    · rw [hc] at h
      exact hq (List.cons.inj h).1
    · rw [hc] at h
      cases (List.cons.inj h).1

/-- A quote of an escaped value stands after a backslash. -/
theorem backslash_before_quote {v a t : List Char} {c : Char}
    (h : escape v = a ++ c :: '"' :: t) : c = '\\' := by
  induction v generalizing a with
  | nil => simp [escape] at h
  | cons x v ih =>
    rw [escape_cons] at h
    rcases escapeChar_cases x with ⟨hx, _⟩ | ⟨d, hx, _⟩
    · rw [hx] at h
      rcases a with _ | ⟨a₁, a⟩
      · exact absurd (List.cons.inj h).2 (escape_ne_quote v t)
      · exact ih (List.cons.inj h).2
    · rw [hx] at h
      rcases a with _ | ⟨a₁, _ | ⟨a₂, a⟩⟩
      · exact (List.cons.inj h).1.symm
      · exact absurd (List.cons.inj (List.cons.inj h).2).2 (escape_ne_quote v t)
      · exact ih (List.cons.inj (List.cons.inj h).2).2

theorem newline_notMem_escape (v : List Char) : '\n' ∉ escape v := by
  induction v with
  | nil => simp [escape]
  | cons c v ih =>
    rw [escape_cons, List.mem_append, not_or]
    refine ⟨?_, ih⟩
    rcases escapeChar_cases c with ⟨hc, _, hn⟩ | ⟨d, hc, hd⟩
    · rw [hc, List.mem_singleton]
      exact Ne.symm hn
    · rw [hc]
      simp [Ne.symm hd]

/-- A value of characters that need no escape stands as it is. -/
theorem escape_eq_self {p : Char → Bool} (h1 : p '\\' = false) (h2 : p '\n' = false)
    (h3 : p '"' = false) {v : List Char} (h : ∀ c ∈ v, p c = true) : escape v = v := by
  induction v with
  | nil => rfl
  | cons c v ih =>
    have hc := h c List.mem_cons_self
    have hne : ∀ d, p d = false → c ≠ d := by
      intro d hd hcd
      rw [hcd, hd] at hc
      cases hc
    rw [escape_cons, escapeChar_of_ne (hne _ h1) (hne _ h2) (hne _ h3),
      ih fun d hd => h d (List.mem_cons_of_mem _ hd)]
    rfl

/-- The first character that `p` refuses is no quote. -/
theorem escape_span {p : Char → Bool} (h1 : p '\\' = false) {v : List Char}
    (h : ¬∀ c ∈ v, p c = true) :
    ∃ xs c t, escape v = xs ++ c :: t ∧ (∀ x ∈ xs, p x = true) ∧ p c = false ∧ c ≠ '"' := by
  induction v with
  | nil => simp at h
  | cons c v ih =>
    rw [escape_cons]
    rcases escapeChar_cases c with ⟨hc, hq, _⟩ | ⟨d, hc, _⟩
    · rw [hc]
      by_cases hp : p c = true
      · have hv : ¬∀ d ∈ v, p d = true := by
          intro hv
          apply h
          intro d hd
          rcases List.mem_cons.mp hd with rfl | hd
          · exact hp
          · exact hv d hd
        obtain ⟨xs, d, t, he, hxs, hd, hdq⟩ := ih hv
        refine ⟨c :: xs, d, t, by rw [he]; rfl, ?_, hd, hdq⟩
        intro x hx
        rcases List.mem_cons.mp hx with rfl | hx
        · exact hp
        · exact hxs x hx
      · exact ⟨[], c, escape v, rfl, by simp, by simpa using hp, hq⟩
    · rw [hc]
      exact ⟨[], '\\', d :: escape v, rfl, by simp, h1, by decide⟩

/-! ## Lines -/

/-- The text of the labels starts with the first one and a comma or the brace. -/
theorem labelsText_cons (l : Label) (labels : List Label) (tail : List Char) :
    (labels = [] ∧ labelsText (l :: labels) ++ '}' :: tail =
      l.text ++ '}' :: tail) ∨
    (labels ≠ [] ∧ labelsText (l :: labels) ++ '}' :: tail =
      l.text ++ ',' :: (labelsText labels ++ '}' :: tail)) := by
  rcases labels with _ | ⟨l', ls⟩
  · exact .inl ⟨rfl, by simp [labelsText]⟩
  · refine .inr ⟨List.cons_ne_nil _ _, ?_⟩
    unfold labelsText
    rw [List.map_cons, List.map_cons, List.intercalate_cons_cons]
    simp

theorem newline_notMem_text {l : Label} (h : '\n' ∉ l.name) : '\n' ∉ l.text := by
  unfold Label.text
  simp [h, newline_notMem_escape]

theorem newline_notMem_labelsText {labels : List Label} (h : ∀ l ∈ labels, '\n' ∉ l.name) :
    '\n' ∉ labelsText labels := by
  induction labels with
  | nil => simp [labelsText]
  | cons l ls ih =>
    have hl := newline_notMem_text (h l List.mem_cons_self)
    have ih' := ih fun l' hl' => h l' (List.mem_cons_of_mem _ hl')
    unfold labelsText at ih' ⊢
    by_cases hls : ls = []
    · rw [hls]
      simpa using hl
    · rw [List.map_cons, List.intercalate_cons_of_ne_nil (by simpa using hls)]
      simp [hl, ih']

theorem exposed_eq_intercalate (lines : List (List Char)) :
    exposed lines = ['\n'].intercalate (lines ++ [[]]) := by
  induction lines with
  | nil => rfl
  | cons line lines ih =>
    unfold exposed at ih ⊢
    rw [List.flatMap_cons, ih, List.cons_append, List.intercalate_cons_of_ne_nil (by simp)]

theorem splitOn_exposed {lines : List (List Char)} (h : ∀ line ∈ lines, '\n' ∉ line) :
    (exposed lines).splitOn '\n' = lines ++ [[]] := by
  rw [exposed_eq_intercalate, List.splitOn_intercalate]
  · intro line hl
    rcases List.mem_append.mp hl with hl | hl
    · exact h line hl
    · rw [List.mem_singleton.mp hl]
      exact List.not_mem_nil
  · simp

end exposition
