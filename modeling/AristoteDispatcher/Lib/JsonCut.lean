-- What stands behind a place inside a string of a JSON text is no JSON text: what
-- was quoted is now unquoted, and the other way round, up to an end inside a
-- string. So it is too when places inside the strings are cut out.
import AristoteDispatcher.Lib.Json
import AristoteDispatcher.Lib.PyText

open pytext

namespace json

/-! ## What the parser can use -/

/-- The parser has a use for the token. -/
def Token.Reads : Token → Prop
  | .bad => False
  | .atom text => atom? text ≠ none
  | _ => True

/-- The tokens that a text has from a mode on can all be used. -/
def Reads (m : Mode) (cs : List Char) : Prop := ∀ t ∈ lexFrom m cs, t.Reads

theorem reads_of_beginValue {stack : List Frame} {s : State} {t : Token}
    (h : beginValue stack t = some s) : t.Reads := by
  cases t with
  | bad => cases h
  | atom text =>
    intro hnone
    simp [beginValue, hnone] at h
  | _ => trivial

/-- An atom begins a value, and any other state has no use for one. -/
theorem reads_of_parseStep {s s' : State} {t : Token} (h : parseStep s t = some s') :
    t.Reads := by
  cases t with
  | bad =>
    cases s with
    | after v stack => rcases stack with _ | ⟨_ | _, _⟩ <;> cases h
    | _ => cases h
  | atom text =>
    cases s with
    | value stack => exact reads_of_beginValue h
    | firstItem stack => exact reads_of_beginValue h
    | after v stack => rcases stack with _ | ⟨_ | _, _⟩ <;> cases h
    | _ => cases h
  | _ => trivial

theorem parseFrom_cons {s : State} {t : Token} {ts : List Token} :
    parseFrom s (t :: ts) = (parseStep s t).bind fun s' => parseFrom s' ts := by
  cases s with
  | after v stack => cases stack <;> rfl
  | _ => rfl

theorem reads_of_parseFrom {s : State} {ts : List Token} {v : Json}
    (h : parseFrom s ts = some v) : ∀ t ∈ ts, t.Reads := by
  induction ts generalizing s with
  | nil => exact fun t ht => (by cases ht)
  | cons t ts ih =>
    rw [parseFrom_cons] at h
    obtain ⟨s', hstep, hrest⟩ := Option.bind_eq_some_iff.mp h
    intro u hu
    rcases List.mem_cons.mp hu with rfl | hu
    · exact reads_of_parseStep hstep
    · exact ih hrest u hu

theorem reads_of_loads {text : String} {v : Json} (h : loads text = some v) :
    Reads .idle text.toList :=
  reads_of_parseFrom h

theorem loads_eq_none {text : String} (h : ¬ Reads .idle text.toList) : loads text = none := by
  cases hloads : loads text with
  | none => rfl
  | some v => exact absurd (reads_of_loads hloads) h

/-! ## Atoms -/

/-- The character is in no number and in no name of the language. -/
structure Alien (c : Char) : Prop where
  not_digit : isAsciiDigit c = false
  not_mark : c ∉ ['e', 'E', '+', '-', '.']
  not_name : c ∉ "nulltruefalseNaN-Infinity".toList

/-- A letter that is in no number and in no name of the language. -/
def Foreign (c : Char) : Prop := c = 'd' ∨ c = 'D'

theorem Foreign.alien {c : Char} (h : Foreign c) : Alien c := by
  rcases h with rfl | rfl <;> exact ⟨by decide, by decide, by decide⟩

theorem alien_of_not_atomChar {c : Char} (h : isAtomChar c = false) : Alien c := by
  have hne : ∀ d : Char, isAtomChar d = true → c ≠ d := by
    rintro d hd rfl
    rw [h] at hd
    cases hd
  have hnot : ∀ text : List Char, text.all isAtomChar = true → c ∉ text :=
    fun text hall hc => hne c (List.all_eq_true.mp hall c hc) rfl
  refine ⟨?_, hnot _ (by decide), hnot _ (by decide)⟩
  unfold isAtomChar at h
  simp only [Bool.or_eq_false_iff] at h
  exact h.1.1.1.1.1

theorem mem_dropWhile_of_not {p : Char → Bool} {c : Char} {cs : List Char} (hc : c ∈ cs)
    (hp : p c = false) : c ∈ cs.dropWhile p := by
  rw [← List.takeWhile_append_dropWhile (p := p) (l := cs), List.mem_append] at hc
  rcases hc with hc | hc
  · have htrue := List.all_eq_true.mp List.all_takeWhile c hc
    rw [hp] at htrue
    cases htrue
  · exact hc

theorem exponent?_eq_none {text : List Char} {c : Char} (hc : c ∈ text) (h : Alien c) :
    exponent? text = none := by
  have hnone : ∀ digits : List Char, c ∈ digits → ¬ (digits ≠ [] ∧ digits.all isAsciiDigit) := by
    rintro digits hmem ⟨_, hall⟩
    have htrue := List.all_eq_true.mp hall c hmem
    rw [h.not_digit] at htrue
    cases htrue
  unfold exponent?
  split
  · cases hc
  · rename_i e r
    by_cases he : e = 'e' ∨ e = 'E'
    · rw [if_pos he]
      have hr : c ∈ r := by
        rcases List.mem_cons.mp hc with rfl | hr
        · rcases he with rfl | rfl <;> exact absurd (by decide) h.not_mark
        · exact hr
      refine if_neg ?_
      split
      · rcases List.mem_cons.mp hr with rfl | hr
        · exact absurd (by decide) h.not_mark
        · exact hnone _ hr
      · rcases List.mem_cons.mp hr with rfl | hr
        · exact absurd (by decide) h.not_mark
        · exact hnone _ hr
      · exact hnone _ hr
    · exact if_neg he

theorem number?_eq_none {negative : Bool} {text : List Char} {c : Char} (hc : c ∈ text)
    (h : Alien c) : number? negative text = none := by
  have hdrop := mem_dropWhile_of_not hc h.not_digit
  unfold number?
  simp only
  split
  · rfl
  · split
    · rename_i heq
      rw [heq] at hdrop
      cases hdrop
    · rename_i r heq
      rw [heq] at hdrop
      have hr : c ∈ r := by
        rcases List.mem_cons.mp hdrop with rfl | hr
        · exact absurd (by decide) h.not_mark
        · exact hr
      split
      · rfl
      · rw [exponent?_eq_none (mem_dropWhile_of_not hr h.not_digit) h]
        rfl
    · rw [exponent?_eq_none hdrop h]
      rfl

theorem atom?_eq_none {text : List Char} {c : Char} (hc : c ∈ text) (h : Alien c) :
    atom? text = none := by
  have hname : ∀ name : List Char, name ⊆ "nulltruefalseNaN-Infinity".toList → text ≠ name := by
    rintro name hsub rfl
    exact h.not_name (hsub hc)
  unfold atom?
  rw [if_neg (hname _ (by decide)), if_neg (hname _ (by decide)), if_neg (hname _ (by decide)),
    if_neg (hname _ (by decide)), if_neg (hname _ (by decide)), if_neg (hname _ (by decide))]
  split
  · rename_i u
    have hu : c ∈ u := by
      rcases List.mem_cons.mp hc with rfl | hu
      · exact absurd (by decide) h.not_mark
      · exact hu
    exact number?_eq_none hu h
  · exact number?_eq_none hc h

/-! ## From one character to the next -/

theorem Reads.tail {m : Mode} {c : Char} {cs : List Char} (h : Reads m (c :: cs)) :
    Reads (lexStep m c).2 cs :=
  fun t ht => h t (List.mem_append_right _ ht)

theorem Reads.not_bad {m : Mode} {c : Char} {cs : List Char} (h : Reads m (c :: cs)) :
    .bad ∉ (lexStep m c).1 :=
  fun hbad => h .bad (List.mem_append_left _ hbad)

/-- Outside a string. -/
inductive Outside : Mode → Prop
  | idle : Outside .idle
  | atom (text : List Char) : Outside (.atom text)

/-- Inside a string. -/
inductive Inside : Mode → Prop
  | str (codes : List Nat) : Inside (.str codes)
  | escape (codes : List Nat) : Inside (.escape codes)
  | hex (codes : List Nat) (left value : Nat) : Inside (.hex codes left value)

theorem Outside.ne_failed {m : Mode} (h : Outside m) : m ≠ .failed := by
  cases h <;> simp

/-- Between two tokens a character leads out of strings, or it is a quote. -/
theorem idleStep_cases {c : Char} (h : .bad ∉ (idleStep c).1) :
    Outside (idleStep c).2 ∨ c = '"' ∧ (idleStep c).2 = .str [] := by
  unfold idleStep at h ⊢
  split_ifs at h ⊢ with _ _ _ _ _ _ _ hquote
  all_goals first
    | exact .inl .idle
    | exact .inl (.atom _)
    | exact .inr ⟨hquote, rfl⟩
    | exact absurd (List.mem_singleton_self _) h

theorem idleStep_outside {c : Char} (hquote : c ≠ '"') (h : .bad ∉ (idleStep c).1) :
    Outside (idleStep c).2 :=
  (idleStep_cases h).resolve_right fun hstring => hquote hstring.1

theorem outside_step {m : Mode} {c : Char} {cs : List Char} (hm : Outside m) (hquote : c ≠ '"')
    (h : Reads m (c :: cs)) : Outside (lexStep m c).2 := by
  have hbad := h.not_bad
  cases hm with
  | idle => exact idleStep_outside hquote hbad
  | atom text =>
    simp only [lexStep] at hbad ⊢
    by_cases hatom : isAtomChar c = true
    · rw [if_pos hatom]
      exact .atom _
    · rw [if_neg hatom] at hbad ⊢
      exact idleStep_outside hquote fun hmem => hbad (List.mem_cons_of_mem _ hmem)

theorem quote_outside {m : Mode} (hm : Outside m) : (lexStep m '"').2 = .str [] := by
  cases hm <;> rfl

/-- No backslash stands outside a string. -/
theorem backslash_outside {m : Mode} {cs : List Char} (hm : Outside m) :
    ¬ Reads m ('\\' :: cs) := by
  intro h
  refine h.not_bad ?_
  cases hm with
  | idle => exact List.mem_singleton_self _
  | atom text => exact List.mem_cons_of_mem _ (List.mem_singleton_self _)

/-- A character that is no quote and no backslash leaves a string open. -/
theorem string_step {codes : List Nat} {c : Char} {cs : List Char} (hquote : c ≠ '"')
    (hbackslash : c ≠ '\\') (h : Reads (.str codes) (c :: cs)) :
    ∃ codes', Reads (.str codes') cs := by
  have hbad := h.not_bad
  have htail := h.tail
  simp only [lexStep] at hbad htail
  rw [if_neg hquote, if_neg hbackslash] at hbad htail
  split at hbad
  · exact absurd (List.mem_singleton_self _) hbad
  · rename_i hcontrol
    rw [if_neg hcontrol] at htail
    exact ⟨_, htail⟩

theorem not_reads_open (codes : List Nat) : ¬ Reads (.str codes) [] :=
  fun h => h .bad (List.mem_singleton_self _)

/-- With a character that the lexer cannot take, it says so. -/
theorem not_failed_step {m : Mode} {c : Char} {cs : List Char} (hm : m ≠ .failed)
    (h : Reads m (c :: cs)) : (lexStep m c).2 ≠ .failed := by
  have hbad := h.not_bad
  have hidle : .bad ∉ (idleStep c).1 → (idleStep c).2 ≠ .failed := by
    intro hbad
    rcases idleStep_cases hbad with hout | ⟨_, hstring⟩
    · exact hout.ne_failed
    · rw [hstring]
      simp
  cases m with
  | idle => exact hidle hbad
  | atom text =>
    simp only [lexStep] at hbad ⊢
    split_ifs at hbad ⊢
    · simp
    · exact hidle fun hmem => hbad (List.mem_cons_of_mem _ hmem)
  | str codes =>
    simp only [lexStep] at hbad ⊢
    split_ifs at hbad ⊢
    · simp
    · simp
    · exact absurd (List.mem_singleton_self _) hbad
    · simp
  | escape codes =>
    simp only [lexStep] at hbad ⊢
    split_ifs at hbad ⊢
    · simp
    · cases hvalue : escapeValue? c with
      | none =>
        rw [hvalue] at hbad
        exact absurd (List.mem_singleton_self _) hbad
      | some n => simp
  | hex codes left value =>
    simp only [lexStep] at hbad ⊢
    cases hdigit : hexValue? c with
    | none =>
      rw [hdigit] at hbad
      exact absurd (List.mem_singleton_self _) hbad
    | some d =>
      simp only
      split_ifs <;> simp
  | failed => exact absurd rfl hm

/-! ## Behind a place inside a string -/

/-- The text only stands inside strings, and leaves its string open. -/
structure Quoted (old : List Char) : Prop where
  outside : ∀ {m : Mode} {cs : List Char}, Outside m → ¬ Reads m (old ++ cs)
  inside : ∀ {m : Mode} {cs : List Char}, Inside m → Reads m (old ++ cs) →
    ∃ codes, Reads (.str codes) cs

theorem mode_cases (m : Mode) : Outside m ∨ Inside m ∨ m = .failed := by
  cases m with
  | idle => exact .inl .idle
  | atom text => exact .inl (.atom text)
  | str codes => exact .inr (.inl (.str codes))
  | escape codes => exact .inr (.inl (.escape codes))
  | hex codes left value => exact .inr (.inl (.hex codes left value))
  | failed => exact .inr (.inr rfl)

variable {sep old : List Char}

/-- Where such a text stands, a string is open. -/
theorem Quoted.behind (hsep : Quoted sep) {m : Mode} {before last : List Char}
    (hm : m ≠ .failed) (h : Reads m (before ++ (sep ++ last))) :
    ∃ codes, Reads (.str codes) last := by
  induction before generalizing m with
  | nil =>
    rcases mode_cases m with hout | hin | hfailed
    · exact absurd h (hsep.outside hout)
    · exact hsep.inside hin h
    · exact absurd hfailed hm
  | cons c before ih => exact ih (not_failed_step hm h) h.tail

/-- A text cannot be read both from inside a string and from outside of it, nor with places
cut out in one of the two. The quotes open strings in the one and close them in the other. -/
theorem not_reads_of_cut (hold : Quoted old) {cs cs' : List Char} (hcut : Cut old cs cs') :
    (∀ codes m, Outside m → Reads (.str codes) cs → ¬ Reads m cs') ∧
      ∀ codes m, Outside m → Reads m cs → ¬ Reads (.str codes) cs' := by
  induction hcut with
  | nil =>
    exact ⟨fun codes m _ h => absurd h (not_reads_open codes),
      fun codes m _ _ => not_reads_open codes⟩
  | @keep cs cs' c hcut ih =>
    -- the same character, once in a string and once outside
    have hstep : ∀ {codes : List Nat} {m : Mode} {xs ys : List Char}, Outside m →
        Reads (.str codes) (c :: xs) → Reads m (c :: ys) →
        (∃ codes', Reads (.str codes') ys ∧ Reads .idle xs) ∨
          ∃ codes' m', Outside m' ∧ Reads (.str codes') xs ∧ Reads m' ys := by
      intro codes m xs ys hm hstr hout
      by_cases hquote : c = '"'
      · subst hquote
        have hys := hout.tail
        rw [quote_outside hm] at hys
        exact .inl ⟨[], hys, hstr.tail⟩
      · by_cases hbackslash : c = '\\'
        · subst hbackslash
          exact absurd hout (backslash_outside hm)
        · obtain ⟨codes', hxs⟩ := string_step hquote hbackslash hstr
          exact .inr ⟨codes', _, outside_step hm hquote hout, hxs, hout.tail⟩
    constructor
    · intro codes m hm hstr hout
      rcases hstep hm hstr hout with ⟨codes', hys, hxs⟩ | ⟨codes', m', hm', hxs, hys⟩
      · exact ih.2 codes' .idle .idle hxs hys
      · exact ih.1 codes' m' hm' hxs hys
    · intro codes m hm hout hstr
      rcases hstep hm hstr hout with ⟨codes', hys, hxs⟩ | ⟨codes', m', hm', hxs, hys⟩
      · exact ih.1 codes' .idle .idle hys hxs
      · exact ih.2 codes' m' hm' hys hxs
  | drop hcut ih =>
    constructor
    · intro codes m hm hstr
      obtain ⟨codes', hrest⟩ := hold.inside (.str codes) hstr
      exact ih.1 codes' m hm hrest
    · intro codes m hm hout
      exact absurd hout (hold.outside hm)

/-- What stands behind a place inside a string of a JSON text is no JSON text. -/
theorem loads_behind (hsep : Quoted sep) (hold : Quoted old) {text : String} {v : Json}
    (htext : loads text = some v) {before last last' : List Char}
    (hplace : text.toList = before ++ (sep ++ last)) (hcut : Cut old last last') :
    loads (String.ofList last') = none := by
  have hreads := reads_of_loads htext
  rw [hplace] at hreads
  obtain ⟨codes, hlast⟩ := hsep.behind (by simp) hreads
  refine loads_eq_none ?_
  rw [String.toList_ofList]
  exact (not_reads_of_cut hold hcut).1 codes .idle .idle hlast

/-! ## Texts without quotes -/

/-- Without a quote and a backslash a string stays open. -/
theorem not_reads_of_plain {cs : List Char} (h : ∀ c ∈ cs, c ≠ '"' ∧ c ≠ '\\')
    (codes : List Nat) : ¬ Reads (.str codes) cs := by
  induction cs generalizing codes with
  | nil => exact not_reads_open codes
  | cons c cs ih =>
    intro hreads
    obtain ⟨hquote, hbackslash⟩ := h c List.mem_cons_self
    obtain ⟨codes', hrest⟩ := string_step hquote hbackslash hreads
    exact ih (fun d hd => h d (List.mem_cons_of_mem _ hd)) codes' hrest

theorem ne_of_isspace {c : Char} (h : isspace c = true) : c ≠ '"' ∧ c ≠ '\\' := by
  constructor <;> rintro rfl <;> revert h <;> decide

/-- Whitespace leads to no string. -/
theorem outside_of_isspace {m : Mode} {spaces cs : List Char}
    (hspaces : ∀ c ∈ spaces, isspace c = true) (hm : Outside m) (h : Reads m (spaces ++ cs)) :
    ∃ m', Outside m' ∧ Reads m' cs := by
  induction spaces generalizing m with
  | nil => exact ⟨m, hm, h⟩
  | cons c spaces ih =>
    have hquote := (ne_of_isspace (hspaces c List.mem_cons_self)).1
    exact ih (fun d hd => hspaces d (List.mem_cons_of_mem _ hd)) (outside_step hm hquote h) h.tail

end json
