-- A JSON text with a word cut out of its strings reads alike: the same value apart
-- from strings, as long as the word is in no key.
import AristoteDispatcher.Lib.JsonCut
import Mathlib.Data.List.Forall2

open pytext

namespace json

/-! ## Values that are alike -/

mutual
/-- The same value, apart from strings that are no keys. -/
inductive Alike : Json → Json → Prop
  | same (v : Json) : Alike v v
  | str (s s' : PyStr) : Alike (.str s) (.str s')
  | arr {items items' : List Json} (h : List.Forall₂ Alike items items') :
    Alike (.arr items) (.arr items')
  | obj {members members' : List (PyStr × Json)} (h : List.Forall₂ AlikeMember members members') :
    Alike (.obj members) (.obj members')

inductive AlikeMember : PyStr × Json → PyStr × Json → Prop
  | mk {v v' : Json} (key : PyStr) (h : Alike v v') : AlikeMember (key, v) (key, v')
end

/-- The same keys, with values that are alike. -/
abbrev AlikeMembers : List (PyStr × Json) → List (PyStr × Json) → Prop :=
  List.Forall₂ AlikeMember

theorem AlikeMember.key_eq {m m' : PyStr × Json} (h : AlikeMember m m') : m'.1 = m.1 := by
  cases h
  rfl

theorem AlikeMembers.refl (members : List (PyStr × Json)) : AlikeMembers members members := by
  induction members with
  | nil => exact .nil
  | cons m members ih => exact .cons ⟨m.1, .same m.2⟩ ih

theorem Alike.members {members : List (PyStr × Json)} {v : Json} (h : Alike (.obj members) v) :
    ∃ members', v = .obj members' ∧ AlikeMembers members members' := by
  cases h with
  | same => exact ⟨members, rfl, .refl members⟩
  | obj h => exact ⟨_, rfl, h⟩

theorem Alike.int {i : Int} {v : Json} (h : Alike (.int i) v) : v = .int i := by
  cases h
  rfl

theorem AlikeMembers.lookup {members members' : List (PyStr × Json)}
    (h : AlikeMembers members members') {key : PyStr} {v : Json}
    (hv : members.lookup key = some v) : ∃ v', members'.lookup key = some v' ∧ Alike v v' := by
  induction h with
  | nil => cases hv
  | cons hm hrest ih =>
    cases hm with
    | mk k hvalue =>
      rw [List.lookup_cons] at hv ⊢
      cases hkey : key == k with
      | true =>
        rw [hkey] at hv
        cases hv
        exact ⟨_, rfl, hvalue⟩
      | false =>
        rw [hkey] at hv
        exact ih hv

theorem AlikeMembers.any_key {members members' : List (PyStr × Json)}
    (h : AlikeMembers members members') (key : PyStr) :
    members'.any (·.1 = key) = members.any (·.1 = key) := by
  induction h with
  | nil => rfl
  | cons hm _ ih => rw [List.any_cons, List.any_cons, hm.key_eq, ih]

theorem AlikeMembers.setMember {members members' : List (PyStr × Json)}
    (h : AlikeMembers members members') (key : PyStr) {v v' : Json} (hv : Alike v v') :
    AlikeMembers (setMember members key v) (setMember members' key v') := by
  unfold json.setMember
  rw [h.any_key key]
  split
  · refine List.forall₂_map_left_iff.mpr (List.forall₂_map_right_iff.mpr ?_)
    refine h.imp fun m m' hm => ?_
    rw [hm.key_eq]
    split
    · exact .mk key hv
    · exact hm
  · exact List.rel_append h (.cons (.mk key hv) .nil)

theorem AlikeMembers.dictOf {pairs pairs' : List (PyStr × Json)} (h : AlikeMembers pairs pairs') :
    AlikeMembers (dictOf pairs) (dictOf pairs') := by
  have hfold : ∀ {d d' : List (PyStr × Json)}, AlikeMembers d d' →
      AlikeMembers (pairs.foldl (fun d m => json.setMember d m.1 m.2) d)
        (pairs'.foldl (fun d m => json.setMember d m.1 m.2) d') := by
    induction h with
    | nil => exact id
    | cons hm _ ih =>
      intro d d' hd
      cases hm with
      | mk key hv => exact ih (hd.setMember key hv)
  exact hfold .nil

/-! ## Tokens that are alike -/

/-- The same tokens, apart from strings that no colon follows. -/
inductive AlikeTokens : List Token → List Token → Prop
  | nil : AlikeTokens [] []
  | same {ts ts' : List Token} (t : Token) (h : AlikeTokens ts ts') :
    AlikeTokens (t :: ts) (t :: ts')
  | str {ts ts' : List Token} (s s' : PyStr) (hkey : ts.head? ≠ some .colon)
    (h : AlikeTokens ts ts') : AlikeTokens (.str s :: ts) (.str s' :: ts')

inductive AlikeFrame : Frame → Frame → Prop
  | arr {items items' : List Json} (h : List.Forall₂ Alike items items') :
    AlikeFrame (.arr items) (.arr items')
  | obj {members members' : List (PyStr × Json)} (key : PyStr) (h : AlikeMembers members members') :
    AlikeFrame (.obj members key) (.obj members' key)

abbrev AlikeStack : List Frame → List Frame → Prop := List.Forall₂ AlikeFrame

inductive AlikeState : State → State → Prop
  | value {stack stack'} (h : AlikeStack stack stack') : AlikeState (.value stack) (.value stack')
  | firstItem {stack stack'} (h : AlikeStack stack stack') :
    AlikeState (.firstItem stack) (.firstItem stack')
  | firstKey {stack stack'} (h : AlikeStack stack stack') :
    AlikeState (.firstKey stack) (.firstKey stack')
  | key {members members' stack stack'} (hm : AlikeMembers members members')
    (h : AlikeStack stack stack') : AlikeState (.key members stack) (.key members' stack')
  | colon {members members' stack stack'} (hm : AlikeMembers members members') (key : PyStr)
    (h : AlikeStack stack stack') :
    AlikeState (.colon members key stack) (.colon members' key stack')
  | after {v v' stack stack'} (hv : Alike v v') (h : AlikeStack stack stack') :
    AlikeState (.after v stack) (.after v' stack')

variable {s s' s₁ : State}

theorem beginValue_alike {stack stack' : List Frame} {t : Token} (h : AlikeStack stack stack')
    (hstep : beginValue stack t = some s₁) :
    ∃ s₂, beginValue stack' t = some s₂ ∧ AlikeState s₁ s₂ := by
  cases t with
  | lbrace =>
    cases hstep
    exact ⟨_, rfl, .firstKey h⟩
  | lbracket =>
    cases hstep
    exact ⟨_, rfl, .firstItem h⟩
  | str s =>
    cases hstep
    exact ⟨_, rfl, .after (.same _) h⟩
  | atom text =>
    obtain ⟨v, hv, rfl⟩ := Option.map_eq_some_iff.mp hstep
    exact ⟨_, by rw [beginValue, hv]; rfl, .after (.same v) h⟩
  | _ => cases hstep

theorem parseStep_firstItem {stack : List Frame} {t : Token} (h : t ≠ .rbracket) :
    parseStep (.firstItem stack) t = beginValue (.arr [] :: stack) t := by
  cases t with
  | rbracket => exact absurd rfl h
  | _ => rfl

/-- One token leads from states that are alike to such states. -/
theorem parseStep_alike {t : Token} (h : AlikeState s s') (hstep : parseStep s t = some s₁) :
    ∃ s₂, parseStep s' t = some s₂ ∧ AlikeState s₁ s₂ := by
  cases h with
  | value h => exact beginValue_alike h hstep
  | firstItem h =>
    by_cases hclose : t = .rbracket
    · subst hclose
      cases hstep
      exact ⟨_, rfl, .after (.same _) h⟩
    · rw [parseStep_firstItem hclose] at hstep ⊢
      exact beginValue_alike (.cons (.arr .nil) h) hstep
  | firstKey h =>
    cases t with
    | rbrace =>
      cases hstep
      exact ⟨_, rfl, .after (.same _) h⟩
    | str k =>
      cases hstep
      exact ⟨_, rfl, .colon .nil k h⟩
    | _ => cases hstep
  | key hm h =>
    cases t with
    | str k =>
      cases hstep
      exact ⟨_, rfl, .colon hm k h⟩
    | _ => cases hstep
  | colon hm key h =>
    cases t with
    | colon =>
      cases hstep
      exact ⟨_, rfl, .value (.cons (.obj key hm) h)⟩
    | _ => cases hstep
  | after hv h =>
    cases h with
    | nil => cases t <;> cases hstep
    | cons hframe h =>
      cases hframe with
      | arr hitems =>
        cases t with
        | comma =>
          cases hstep
          exact ⟨_, rfl, .value (.cons (.arr (.cons hv hitems)) h)⟩
        | rbracket =>
          cases hstep
          exact ⟨_, rfl, .after (.arr (List.rel_reverse (.cons hv hitems))) h⟩
        | _ => cases hstep
      | obj key hm =>
        cases t with
        | comma =>
          cases hstep
          exact ⟨_, rfl, .key (.cons (.mk key hv) hm) h⟩
        | rbrace =>
          cases hstep
          have hpairs : AlikeMembers _ _ := List.rel_reverse (.cons (.mk key hv) hm)
          exact ⟨_, rfl, .after (.obj hpairs.dictOf) h⟩
        | _ => cases hstep

/-- Where a string is no key, any other one leads on as well. -/
theorem parseStep_string {k : PyStr} (k' : PyStr) (h : AlikeState s s')
    (hstep : parseStep s (.str k) = some s₁) :
    (∃ s₂, parseStep s' (.str k') = some s₂ ∧ AlikeState s₁ s₂) ∨
      ∃ members stack, s₁ = .colon members k stack := by
  cases h with
  | value h =>
    cases hstep
    exact .inl ⟨_, rfl, .after (.str k k') h⟩
  | firstItem h =>
    cases hstep
    exact .inl ⟨_, rfl, .after (.str k k') (.cons (.arr .nil) h)⟩
  | firstKey h =>
    cases hstep
    exact .inr ⟨_, _, rfl⟩
  | key hm h =>
    cases hstep
    exact .inr ⟨_, _, rfl⟩
  | colon hm key h => cases hstep
  | after hv h =>
    rcases h with _ | ⟨_ | _, _⟩ <;> cases hstep

/-- Behind a key there is a colon. -/
theorem head_of_parseFrom {members : List (PyStr × Json)} {key : PyStr} {stack : List Frame}
    {ts : List Token} {v : Json} (h : parseFrom (.colon members key stack) ts = some v) :
    ts.head? = some .colon := by
  cases ts with
  | nil => cases h
  | cons t ts =>
    cases t with
    | colon => rfl
    | _ => cases h

/-- Tokens that are alike read to values that are alike. -/
theorem parseFrom_alike {ts ts' : List Token} (hts : AlikeTokens ts ts') (hs : AlikeState s s')
    {v : Json} (h : parseFrom s ts = some v) : ∃ v', parseFrom s' ts' = some v' ∧ Alike v v' := by
  induction hts generalizing s s' with
  | nil =>
    cases hs with
    | after hv hstack =>
      cases hstack with
      | nil =>
        cases h
        exact ⟨_, rfl, hv⟩
      | cons _ _ => cases h
    | _ => cases h
  | same t _ ih =>
    rw [parseFrom_cons] at h ⊢
    obtain ⟨s₁, hstep, hrest⟩ := Option.bind_eq_some_iff.mp h
    obtain ⟨s₂, hstep', hs'⟩ := parseStep_alike hs hstep
    rw [hstep', Option.bind_some]
    exact ih hs' hrest
  | str k k' hkey _ ih =>
    rw [parseFrom_cons] at h ⊢
    obtain ⟨s₁, hstep, hrest⟩ := Option.bind_eq_some_iff.mp h
    rcases parseStep_string k' hs hstep with ⟨s₂, hstep', hs'⟩ | ⟨members, stack, rfl⟩
    · rw [hstep', Option.bind_some]
      exact ih hs' hrest
    · exact absurd (head_of_parseFrom hrest) hkey

/-! ## The word in the strings -/

variable {old cs cs' : List Char}

/-- The word only stands inside strings, and as itself. -/
structure Word (old : List Char) : Prop where
  plain : ∀ c ∈ old, c ≠ '"' ∧ c ≠ '\\' ∧ 32 ≤ c.toNat
  inside : ∀ {m : Mode} {cs : List Char}, m ≠ .failed → Reads m (old ++ cs) →
    ∃ codes, m = .str codes

theorem lexFrom_plain (h : ∀ c ∈ old, c ≠ '"' ∧ c ≠ '\\' ∧ 32 ≤ c.toNat) (codes : List Nat)
    (cs : List Char) : ∃ codes', lexFrom (.str codes) (old ++ cs) = lexFrom (.str codes') cs := by
  induction old generalizing codes with
  | nil => exact ⟨codes, rfl⟩
  | cons c old ih =>
    obtain ⟨hquote, hbackslash, hcontrol⟩ := h c List.mem_cons_self
    obtain ⟨codes', hrest⟩ := ih (fun d hd => h d (List.mem_cons_of_mem _ hd)) (c.toNat :: codes)
    refine ⟨codes', ?_⟩
    simp only [List.cons_append, lexFrom, lexStep]
    rw [if_neg hquote, if_neg hbackslash, if_neg (by omega)]
    exact hrest

theorem Word.quoted (h : Word old) : Quoted old where
  outside := by
    intro m cs hm hreads
    obtain ⟨codes, rfl⟩ := h.inside (by cases hm <;> simp) hreads
    cases hm
  inside := by
    intro m cs hm hreads
    obtain ⟨codes, rfl⟩ := h.inside (by cases hm <;> simp) hreads
    obtain ⟨codes', hrest⟩ := lexFrom_plain h.plain codes cs
    rw [Reads, hrest] at hreads
    exact ⟨codes', hreads⟩

/-- The string that is open ends as a key. -/
def InKey (m : Mode) (cs : List Char) : Prop :=
  ∃ s ts, lexFrom m cs = .str s :: .colon :: ts

/-- The word stands in no key of the text. -/
def KeyFree (old cs : List Char) : Prop :=
  ∀ before after, cs = before ++ (old ++ after) → ∀ codes, ¬ InKey (.str codes) after

theorem KeyFree.tail {c : Char} (h : KeyFree old (c :: cs)) : KeyFree old cs :=
  fun before after hcs => h (c :: before) after (by rw [hcs, List.cons_append])

theorem KeyFree.behind (h : KeyFree old (old ++ cs)) : KeyFree old cs :=
  fun before after hcs => h (old ++ before) after (by rw [hcs, List.append_assoc])

/-- The lexer stands at the same place of two texts that may differ in a string that is no
key. -/
inductive Twin (cs : List Char) : Mode → Mode → Prop
  | same (m : Mode) : Twin cs m m
  | str (codes codes' : List Nat) (h : ¬ InKey (.str codes) cs) :
    Twin cs (.str codes) (.str codes')
  | escape (codes codes' : List Nat) (h : ¬ InKey (.escape codes) cs) :
    Twin cs (.escape codes) (.escape codes')
  | hex (codes codes' : List Nat) (left value : Nat) (h : ¬ InKey (.hex codes left value) cs) :
    Twin cs (.hex codes left value) (.hex codes' left value)

theorem AlikeTokens.append {ts ts' : List Token} (us : List Token) (h : AlikeTokens ts ts') :
    AlikeTokens (us ++ ts) (us ++ ts') := by
  induction us with
  | nil => exact h
  | cons u us ih => exact .same u ih

theorem AlikeTokens.refl (ts : List Token) : AlikeTokens ts ts := by
  induction ts with
  | nil => exact .nil
  | cons t ts ih => exact .same t ih

/-- The two lexers take the same character. -/
theorem lexFrom_twin {m m' : Mode} {c : Char} (h : Twin (c :: cs) m m')
    (hreads : Reads m (c :: cs))
    (hrest : Twin cs (lexStep m c).2 (lexStep m' c).2 →
      AlikeTokens (lexFrom (lexStep m c).2 cs) (lexFrom (lexStep m' c).2 cs')) :
    AlikeTokens (lexFrom m (c :: cs)) (lexFrom m' (c :: cs')) := by
  have hbad := hreads.not_bad
  cases h with
  | same m => exact (hrest (.same _)).append _
  | str codes codes' h =>
    simp only [lexFrom, lexStep, InKey] at hbad hrest h ⊢
    by_cases hquote : c = '"'
    · rw [if_pos hquote] at hrest h ⊢
      rw [if_pos hquote] at hrest ⊢
      refine .str _ _ (fun hhead => h ?_) (hrest (.same _))
      obtain ⟨ts, hts⟩ := List.head?_eq_some_iff.mp hhead
      exact ⟨_, ts, congrArg _ hts⟩
    · by_cases hbackslash : c = '\\'
      · rw [if_neg hquote, if_pos hbackslash] at hrest h ⊢
        rw [if_neg hquote, if_pos hbackslash] at hrest ⊢
        exact hrest (.escape _ _ h)
      · have hcontrol : ¬ c.toNat < 32 := fun hlt => by simp [hquote, hbackslash, hlt] at hbad
        rw [if_neg hquote, if_neg hbackslash, if_neg hcontrol] at hrest h ⊢
        rw [if_neg hquote, if_neg hbackslash, if_neg hcontrol] at hrest ⊢
        exact hrest (.str _ _ h)
  | escape codes codes' h =>
    simp only [lexFrom, lexStep, InKey] at hbad hrest h ⊢
    by_cases hu : c = 'u'
    · rw [if_pos hu] at hrest h ⊢
      rw [if_pos hu] at hrest ⊢
      exact hrest (.hex _ _ 4 0 h)
    · rw [if_neg hu] at hbad hrest h ⊢
      rw [if_neg hu] at hrest ⊢
      cases hvalue : escapeValue? c with
      | none => simp [hvalue] at hbad
      | some n =>
        simp only [hvalue] at hrest h ⊢
        exact hrest (.str _ _ h)
  | hex codes codes' left value h =>
    simp only [lexFrom, lexStep, InKey] at hbad hrest h ⊢
    cases hdigit : hexValue? c with
    | none => simp [hdigit] at hbad
    | some d =>
      simp only [hdigit] at hrest h ⊢
      by_cases hlast : left = 1
      · rw [if_pos hlast] at hrest h ⊢
        rw [if_pos hlast] at hrest ⊢
        exact hrest (.str _ _ h)
      · rw [if_neg hlast] at hrest h ⊢
        rw [if_neg hlast] at hrest ⊢
        exact hrest (.hex _ _ _ _ h)

/-- Cutting the word out leaves the tokens alike. -/
theorem lexFrom_alike (hword : Word old) (hcut : Cut old cs cs') {m m' : Mode} (hm : m ≠ .failed)
    (htwin : Twin cs m m') (hreads : Reads m cs) (hfree : KeyFree old cs) :
    AlikeTokens (lexFrom m cs) (lexFrom m' cs') := by
  induction hcut generalizing m m' with
  | nil =>
    have hend : .bad ∉ lexEnd m := fun hbad => hreads .bad hbad
    cases htwin with
    | same => exact .refl _
    | _ => exact absurd (List.mem_singleton_self _) hend
  | keep c hcut ih =>
    exact lexFrom_twin htwin hreads fun hnext =>
      ih (not_failed_step hm hreads) hnext hreads.tail hfree.tail
  | @drop cs cs' hcut ih =>
    obtain ⟨codes, rfl⟩ := hword.inside hm hreads
    obtain ⟨behind, hbehind⟩ := lexFrom_plain hword.plain codes cs
    have hstring : ∃ codes', m' = .str codes' := by
      cases htwin <;> exact ⟨_, rfl⟩
    obtain ⟨codes', rfl⟩ := hstring
    rw [Reads, hbehind] at hreads
    rw [hbehind]
    exact ih (by simp) (.str behind codes' (hfree [] cs rfl behind)) hreads hfree.behind

/-- A JSON text reads alike without the word, when the word is in no key. -/
theorem loads_alike (hword : Word old) {text : String} {v : Json} (h : loads text = some v)
    (hfree : KeyFree old text.toList) (hcut : Cut old text.toList cs') :
    ∃ v', loads (String.ofList cs') = some v' ∧ Alike v v' := by
  have htokens := lexFrom_alike hword hcut (by simp) (.same .idle) (reads_of_loads h) hfree
  rw [loads, String.toList_ofList]
  exact parseFrom_alike htokens (.value .nil) h

end json
