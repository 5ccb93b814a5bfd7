-- What the bucket pattern takes from an exposed line, told by its labels: the
-- bound from the first label that looks like one, and the count from the first
-- ` digits.digits` after that label.
import AristoteDispatcher.Histogram
import AristoteDispatcher.Lib.Exposition

open pydict pyfloat regex exposition
open aristote_dispatcher.settings

namespace aristote_dispatcher.histogram

/-- The two groups that the parser reads from a line. -/
def readBucket (line : List Char) : Option (List Char × List Char) :=
  (search bucket_pattern line).map fun m => (group1 m, group2 m)

/-- The first ` digits.digits` of a text, without its blank. -/
def decimalIn (text : List Char) : Option (List Char) :=
  (search count_pattern text).map fun m => (m.drop 1).flatten

/-- The name ends in `le` and the value has only characters that the pattern takes for a
bound. -/
def LooksLikeBound (l : Label) : Prop :=
  ['l', 'e'] <:+ l.name.map Char.toLower ∧ l.value ≠ [] ∧ ∀ c ∈ l.value, isBucketChar c = true

-- over the list: the characters are finitely many, and no search over them all is meant
instance : DecidablePred LooksLikeBound := fun l =>
  decidable_of_iff (['l', 'e'] <:+ l.name.map Char.toLower ∧ l.value ≠ [] ∧
    l.value.all isBucketChar = true) (by rw [LooksLikeBound, List.all_eq_true])

/-- A label name as Prometheus allows it. -/
def WellNamed (labels : List Label) : Prop := ∀ l ∈ labels, ∀ c ∈ l.name, isNameChar c = true

/-- The count that the pattern finds after a label, with the labels that follow it. -/
def decimalAfter (labels : List Label) (number : List Char) : Option (List Char) :=
  (labels.findSome? fun l => decimalIn (escape l.value)).or (decimalIn (' ' :: number))

/-- The bound and the count that the pattern takes from the labels and the number of a
line. -/
def reading : List Label → List Char → Option (List Char × List Char)
  | [], _ => none
  | l :: labels, number =>
    if LooksLikeBound l then (decimalAfter labels number).map fun t => (l.value, t)
    else reading labels number

/-! ## Where a match can start -/

theorem isAlpha_iff {c : Char} : c.isAlpha = true ↔
    65 ≤ c.val.toNat ∧ c.val.toNat ≤ 90 ∨ 97 ≤ c.val.toNat ∧ c.val.toNat ≤ 122 := by
  have hupper : c.isUpper = true ↔ 65 ≤ c.val.toNat ∧ c.val.toNat ≤ 90 := by
    change decide ('A'.val ≤ c.val ∧ c.val ≤ 'Z'.val) = true ↔ _
    rw [decide_eq_true_eq, UInt32.le_iff_toNat_le, UInt32.le_iff_toNat_le]
    rfl
  have hlower : c.isLower = true ↔ 97 ≤ c.val.toNat ∧ c.val.toNat ≤ 122 := by
    change (decide ('a'.val ≤ c.val) && decide (c.val ≤ 'z'.val)) = true ↔ _
    rw [Bool.and_eq_true, decide_eq_true_eq, decide_eq_true_eq, UInt32.le_iff_toNat_le,
      UInt32.le_iff_toNat_le]
    rfl
  change (c.isUpper || c.isLower) = true ↔ _
  rw [Bool.or_eq_true, hupper, hlower]

/-- A character other than a letter is its only case. -/
theorem toLower_eq {c x : Char} (hc : c.isAlpha = false) : x.toLower = c ↔ x = c := by
  have hnot : ¬(c.isAlpha = true) := by simp [hc]
  rw [isAlpha_iff] at hnot
  unfold Char.toLower
  split
  · rename_i hx
    simp only [ge_iff_le, UInt32.le_iff_toNat_le] at hx
    have h1 : 65 ≤ x.val.toNat := hx.1
    have h2 : x.val.toNat ≤ 90 := hx.2
    constructor
    · intro h
      exfalso
      have hval : c.val.toNat = x.val.toNat + 32 := by
        rw [← h]
        change (x.val + 32).toNat = _
        rw [UInt32.toNat_add]
        exact Nat.mod_eq_of_lt (by change x.val.toNat + 32 < 2 ^ 32; omega)
      omega
    · rintro rfl
      omega
  · rfl

/-- A match starts at `le="` and a character of a bound. -/
theorem matchHere_bucket_none {t : List Char}
    (h : ∀ a b c u, a.toLower = 'l' → b.toLower = 'e' → t = a :: b :: '=' :: '"' :: c :: u →
      isBucketChar c = false) : matchHere bucket_pattern t = none := by
  rcases t with _ | ⟨a, t⟩
  · rfl
  unfold bucket_pattern
  by_cases ha : a.toLower = 'l'
  swap
  · exact matchHere_one_of_not (by simpa using ha)
  rw [letter, matchHere_one_of (by simpa using ha), Option.map_eq_none_iff]
  rcases t with _ | ⟨b, t⟩
  · rfl
  by_cases hb : b.toLower = 'e'
  swap
  · exact matchHere_one_of_not (by simpa using hb)
  rw [letter, matchHere_one_of (by simpa using hb), Option.map_eq_none_iff]
  rcases t with _ | ⟨c, t⟩
  · rfl
  by_cases hc : c.toLower = '='
  swap
  · exact matchHere_one_of_not (by simpa using hc)
  rw [letter, matchHere_one_of (by simpa using hc), Option.map_eq_none_iff]
  rcases t with _ | ⟨d, t⟩
  · rfl
  by_cases hd : d.toLower = '"'
  swap
  · exact matchHere_one_of_not (by simpa using hd)
  rw [letter, matchHere_one_of (by simpa using hd), Option.map_eq_none_iff]
  rcases t with _ | ⟨e, t⟩
  · rfl
  rw [toLower_eq (by decide)] at hc hd
  exact matchHere_plus_of_not (h a b e t ha hb (by rw [hc, hd]))

/-- From `le="`, a bound and its quote, the match goes on to the first count. -/
theorem matchHere_bucket_bound {a b : Char} {v r : List Char} (ha : a.toLower = 'l')
    (hb : b.toLower = 'e') (hne : v ≠ []) (hv : ∀ c ∈ v, isBucketChar c = true)
    (hr : '\n' ∉ r) :
    (matchHere bucket_pattern (a :: b :: '=' :: '"' :: (v ++ '"' :: r))).map
      (fun m => (group1 m, group2 m)) = (decimalIn r).map fun t => (v, t) := by
  unfold bucket_pattern letter
  rw [matchHere_one_of (by simpa using ha), matchHere_one_of (by simpa using hb),
    matchHere_one_of (by decide), matchHere_one_of (by decide),
    matchHere_plus_one hne hv (by decide) ?_, if_pos (by decide)]
  · have hlazy : (matchHere (.lazy (fun c => decide (c ≠ '\n')) :: count_pattern) r).map List.tail =
        search count_pattern r := by
      apply lazily_search
      intro c hc
      rw [decide_eq_true_eq]
      rintro rfl
      exact hr hc
    unfold decimalIn
    rw [← hlazy]
    rcases matchHere (.lazy (fun c => decide (c ≠ '\n')) :: count_pattern) r with _ | m
    · rfl
    · simp [group1, group2, ← List.drop_one, List.drop_drop]
  · intro x hx
    rw [decide_eq_false_iff_not, toLower_eq (by decide)]
    rintro rfl
    revert hx
    decide

/-- From `le="` and a value with another character, there is no match. -/
theorem matchHere_bucket_other {a b c : Char} {xs t : List Char}
    (hxs : ∀ x ∈ xs, isBucketChar x = true) (hc : isBucketChar c = false) (hq : c ≠ '"') :
    matchHere bucket_pattern (a :: b :: '=' :: '"' :: (xs ++ c :: t)) = none := by
  by_cases hne : xs = []
  · subst hne
    apply matchHere_bucket_none
    intro a' b' c' u _ _ he
    cases he
    exact hc
  by_cases ha : a.toLower = 'l'
  swap
  · exact matchHere_one_of_not (by simpa using ha)
  by_cases hb : b.toLower = 'e'
  swap
  · unfold bucket_pattern letter
    rw [matchHere_one_of (by simpa using ha), Option.map_eq_none_iff]
    exact matchHere_one_of_not (by simpa using hb)
  unfold bucket_pattern letter
  rw [matchHere_one_of (by simpa using ha), matchHere_one_of (by simpa using hb),
    matchHere_one_of (by decide), matchHere_one_of (by decide),
    matchHere_plus_one hne hxs hc ?_, if_neg]
  · rfl
  · rw [decide_eq_true_eq, toLower_eq (by decide)]
    exact hq
  · intro x hx
    rw [decide_eq_false_iff_not, toLower_eq (by decide)]
    rintro rfl
    revert hx
    decide

/-! ## The search over the labels of a line -/

theorem no_bucket_without_quote {t : List Char} (h : '"' ∉ t) : search bucket_pattern t = none := by
  have hs : search bucket_pattern (t ++ []) = search bucket_pattern [] := by
    apply search_skip
    intro s hs _
    apply matchHere_bucket_none
    intro a b c u _ _ he
    rw [List.append_nil] at he
    exfalso
    apply h
    apply hs.subset
    simp [he]
  rw [List.append_nil] at hs
  rw [hs]
  rfl

/-- No match starts in a text without an equals sign that an opening brace ends. -/
theorem skip_name {n r : List Char} (hn : '=' ∉ n) :
    search bucket_pattern (n ++ '{' :: r) = search bucket_pattern ('{' :: r) := by
  apply search_skip
  intro s hs hne
  apply matchHere_bucket_none
  intro a b c u _ hb he
  exfalso
  have hmem : ∀ x ∈ s, x ≠ '=' := by
    rintro x hx rfl
    exact hn (hs.subset hx)
  rcases s with _ | ⟨x, _ | ⟨y, _ | ⟨z, s⟩⟩⟩
  · exact hne rfl
  · simp only [List.cons_append, List.nil_append, List.cons.injEq] at he
    rw [← he.2.1] at hb
    revert hb
    decide
  · simp only [List.cons_append, List.nil_append, List.cons.injEq] at he
    exact absurd he.2.2.1 (by decide)
  · simp only [List.cons_append, List.cons.injEq] at he
    exact hmem z (by simp) he.2.2.1

/-- No match starts in a value or at its closing quote. -/
theorem skip_value (v : List Char) {sep : Char} {r : List Char} (hsep : isBucketChar sep = false) :
    search bucket_pattern (escape v ++ '"' :: sep :: r) = search bucket_pattern (sep :: r) := by
  have happ : escape v ++ '"' :: sep :: r = (escape v ++ ['"']) ++ sep :: r := by simp
  rw [happ]
  apply search_skip
  intro s hs hne
  apply matchHere_bucket_none
  intro a b c u ha hb he
  obtain ⟨s', rfl, hs'⟩ := (List.suffix_concat_iff.mp hs).resolve_left hne
  rw [List.append_assoc] at he
  rcases s' with _ | ⟨x, _ | ⟨y, _ | ⟨z, _ | ⟨w, s'⟩⟩⟩⟩
  · simp only [List.cons_append, List.nil_append, List.cons.injEq] at he
    rw [← he.1] at ha
    exact absurd ha (by decide)
  · simp only [List.cons_append, List.nil_append, List.cons.injEq] at he
    rw [← he.2.1] at hb
    exact absurd hb (by decide)
  · simp only [List.cons_append, List.nil_append, List.cons.injEq] at he
    exact absurd he.2.2.1 (by decide)
  · simp only [List.cons_append, List.nil_append, List.cons.injEq] at he
    rw [← he.2.2.2.2.1]
    exact hsep
  · -- a quote within the value stands after a backslash, not after an equals sign
    simp only [List.cons_append, List.cons.injEq] at he
    obtain ⟨p, hp⟩ := hs'
    have hq : escape v = (p ++ [x, y]) ++ z :: '"' :: s' := by
      rw [← hp, ← he.2.2.2.1]
      simp
    have := backslash_before_quote hq
    rw [he.2.2.1] at this
    exact absurd this (by decide)

theorem ne_of_isNameChar {c : Char} (h : isNameChar c = true) : c ≠ '=' ∧ c ≠ ' ' ∧ c ≠ '\n' := by
  refine ⟨?_, ?_, ?_⟩
  · rintro rfl
    exact absurd h (by decide)
  · rintro rfl
    exact absurd h (by decide)
  · rintro rfl
    exact absurd h (by decide)

/-- A match that starts in a name starts at its last two characters. -/
theorem skip_label_name {n r : List Char} (hn : ∀ c ∈ n, isNameChar c = true)
    (h : ∀ x y, [x, y] <:+ n → x.toLower = 'l' → y.toLower = 'e' →
      matchHere bucket_pattern (x :: y :: '=' :: '"' :: r) = none) :
    search bucket_pattern (n ++ '=' :: '"' :: r) = search bucket_pattern r := by
  have hskip : search bucket_pattern (n ++ '=' :: '"' :: r) =
      search bucket_pattern ('=' :: '"' :: r) := by
    apply search_skip
    intro s hs hne
    have hmem : ∀ c ∈ s, c ≠ '=' := fun c hc => (ne_of_isNameChar (hn c (hs.subset hc))).1
    by_contra hsome
    apply hsome
    apply matchHere_bucket_none
    intro a b c u ha hb he
    exfalso
    rcases s with _ | ⟨x, _ | ⟨y, _ | ⟨z, s⟩⟩⟩
    · exact hne rfl
    · simp only [List.cons_append, List.nil_append, List.cons.injEq] at he
      rw [← he.2.1] at hb
      exact absurd hb (by decide)
    · simp only [List.cons_append, List.nil_append, List.cons.injEq] at he
      rw [← he.1] at ha
      rw [← he.2.1] at hb
      exact hsome (h x y hs ha hb)
    · simp only [List.cons_append, List.cons.injEq] at he
      exact hmem z (by simp) he.2.2.1
  rw [hskip, search_cons_of_none, search_cons_of_none]
  · apply matchHere_bucket_none
    intro a b c u ha _ he
    cases he
    exact absurd ha (by decide)
  · apply matchHere_bucket_none
    intro a b c u ha _ he
    cases he
    exact absurd ha (by decide)

/-- A text without blanks holds no start of a count. -/
theorem skip_count {xs r : List Char} (h : ∀ c ∈ xs, c ≠ ' ') :
    search count_pattern (xs ++ r) = search count_pattern r := by
  apply search_skip
  intro s hs hne
  rcases s with _ | ⟨x, s⟩
  · exact absurd rfl hne
  · apply matchHere_one_of_not
    rw [decide_eq_false_iff_not, toLower_eq (by decide)]
    exact h x (hs.subset List.mem_cons_self)

theorem decimalIn_skip {xs r : List Char} (h : ∀ c ∈ xs, c ≠ ' ') :
    decimalIn (xs ++ r) = decimalIn r := by
  unfold decimalIn
  rw [skip_count h]

/-- Where there is no count there is no bucket. -/
theorem readBucket_none {t : List Char} (h : decimalIn t = none) : readBucket t = none := by
  unfold decimalIn at h
  rw [Option.map_eq_none_iff] at h
  unfold readBucket
  rw [Option.map_eq_none_iff]
  exact search_append_none (bucket_pattern.take 7) h

theorem exists_le_of_suffix {name : List Char} (h : ['l', 'e'] <:+ name.map Char.toLower) :
    ∃ n x y, name = n ++ [x, y] ∧ x.toLower = 'l' ∧ y.toLower = 'e' := by
  obtain ⟨p, hp⟩ := h
  obtain ⟨n, m, rfl, _, hm⟩ := List.map_eq_append_iff.mp hp.symm
  obtain ⟨x, m', rfl, hx, hm'⟩ := List.map_eq_cons_iff.mp hm
  obtain ⟨y, rfl, hy⟩ := List.map_eq_singleton_iff.mp hm'
  exact ⟨n, x, y, rfl, hx, hy⟩

/-- No match starts before the last two characters of a name. -/
theorem matchHere_before_le {s r : List Char} {x y : Char} (hs : s ≠ [])
    (h : ∀ c ∈ s ++ [x, y], c ≠ '=') : matchHere bucket_pattern (s ++ ([x, y] ++ r)) = none := by
  apply matchHere_bucket_none
  intro a b c u _ _ he
  exfalso
  rcases s with _ | ⟨p, _ | ⟨q, _ | ⟨z, s⟩⟩⟩
  · exact hs rfl
  · simp only [List.cons_append, List.nil_append, List.cons.injEq] at he
    exact h y (by simp) he.2.2.1
  · simp only [List.cons_append, List.nil_append, List.cons.injEq] at he
    exact h x (by simp) he.2.2.1
  · simp only [List.cons_append, List.cons.injEq] at he
    exact h z (by simp) he.2.2.1

/-- One label: it is the bound, or the search goes on behind it. -/
theorem readBucket_label {l : Label} (hn : ∀ c ∈ l.name, isNameChar c = true) {sep : Char}
    {r : List Char} (hsep : sep = ',' ∨ sep = '}') (hr : '\n' ∉ r) :
    readBucket (l.text ++ sep :: r) =
      if LooksLikeBound l then (decimalIn (sep :: r)).map fun t => (l.value, t)
      else readBucket (sep :: r) := by
  have hbucket : isBucketChar sep = false := by
    rcases hsep with rfl | rfl
    · decide
    · decide
  have htext : l.text ++ sep :: r =
      l.name ++ '=' :: '"' :: (escape l.value ++ '"' :: sep :: r) := by
    simp [Label.text]
  rw [htext]
  split
  · rename_i hl
    obtain ⟨hle, hne, hv⟩ := hl
    have hescape : escape l.value = l.value :=
      escape_eq_self (by decide) (by decide) (by decide) hv
    rw [hescape]
    obtain ⟨n, x, y, hname, hx, hy⟩ := exists_le_of_suffix hle
    have hmem : ∀ c ∈ n ++ [x, y], c ≠ '=' ∧ c ≠ ' ' := by
      intro c hc
      rw [← hname] at hc
      obtain ⟨h1, h2, _⟩ := ne_of_isNameChar (hn c hc)
      exact ⟨h1, h2⟩
    have hstart : search bucket_pattern (l.name ++ '=' :: '"' :: (l.value ++ '"' :: sep :: r)) =
        search bucket_pattern (x :: y :: '=' :: '"' :: (l.value ++ '"' :: sep :: r)) := by
      rw [hname, List.append_assoc]
      apply search_skip
      intro s hs hs'
      exact matchHere_before_le hs' fun c hc => (hmem c (by
        rcases List.mem_append.mp hc with hc | hc
        · exact List.mem_append_left _ (hs.subset hc)
        · exact List.mem_append_right _ hc)).1
    have hgroups := matchHere_bucket_bound hx hy hne hv (r := sep :: r) (by
      rcases hsep with rfl | rfl
      · simp [hr]
      · simp [hr])
    cases ht : decimalIn (sep :: r) with
    | none =>
      apply readBucket_none
      have happ : l.name ++ '=' :: '"' :: (l.value ++ '"' :: sep :: r) =
          (l.name ++ '=' :: '"' :: (l.value ++ ['"'])) ++ sep :: r := by simp
      rw [happ, decimalIn_skip, ht]
      intro c hc
      simp only [List.mem_append, List.mem_cons, List.not_mem_nil, or_false] at hc
      rcases hc with hc | rfl | rfl | hc | rfl
      · exact (ne_of_isNameChar (hn c hc)).2.1
      · decide
      · decide
      · rintro rfl
        exact absurd (hv _ hc) (by decide)
      · decide
    | some t =>
      rw [ht, Option.map_some, Option.map_eq_some_iff] at hgroups
      obtain ⟨m, hm, hg⟩ := hgroups
      unfold readBucket
      rw [hstart, search_of_match hm, Option.map_some, hg]
      rfl
  · rename_i hl
    unfold readBucket
    rw [skip_label_name hn, skip_value l.value hbucket]
    intro x y hxy hx hy
    have hle : ['l', 'e'] <:+ l.name.map Char.toLower := by
      have := hxy.map Char.toLower
      rwa [List.map_cons, List.map_cons, List.map_nil, hx, hy] at this
    by_cases hv : ∀ c ∈ l.value, isBucketChar c = true
    · -- only the empty value is left
      have hnil : l.value = [] := by
        by_contra hne
        exact hl ⟨hle, hne, hv⟩
      rw [hnil]
      apply matchHere_bucket_none
      intro a b c u _ _ he
      cases he
      decide
    · obtain ⟨xs, c, t, he, hxs, hc, hq⟩ := escape_span (by decide) hv
      rw [he, List.append_assoc]
      exact matchHere_bucket_other hxs hc hq

theorem rejects_quote : Rejects '"' count_pattern := by
  intro i hi
  simp only [count_pattern, letter, List.mem_cons, List.not_mem_nil, or_false] at hi
  rcases hi with rfl | rfl | rfl | rfl
  · exact .inl ⟨_, rfl, by decide⟩
  · exact .inr ⟨_, rfl, by decide⟩
  · exact .inl ⟨_, rfl, by decide⟩
  · exact .inr ⟨_, rfl, by decide⟩

/-- A count stands within the value of a label or behind the label. -/
theorem decimalIn_label {l : Label} (hn : ∀ c ∈ l.name, isNameChar c = true) (sep : Char)
    (r : List Char) :
    decimalIn (l.text ++ sep :: r) = (decimalIn (escape l.value)).or (decimalIn (sep :: r)) := by
  have htext : l.text ++ sep :: r =
      (l.name ++ ['=', '"']) ++ (escape l.value ++ '"' :: sep :: r) := by
    simp [Label.text]
  rw [htext, decimalIn_skip]
  · unfold decimalIn
    rw [search_barrier rejects_quote (by simp [count_pattern]), Option.map_or]
  · intro c hc
    rcases List.mem_append.mp hc with hc | hc
    · exact (ne_of_isNameChar (hn c hc)).2.1
    · rcases List.mem_pair.mp hc with rfl | rfl
      · decide
      · decide

theorem decimalIn_cons {c : Char} (hc : c ≠ ' ') (r : List Char) :
    decimalIn (c :: r) = decimalIn r := by
  rw [← List.singleton_append]
  exact decimalIn_skip (by simpa using hc)

theorem readBucket_cons {c : Char} (hc : c.toLower ≠ 'l') (r : List Char) :
    readBucket (c :: r) = readBucket r := by
  unfold readBucket
  rw [search_cons_of_none]
  apply matchHere_bucket_none
  intro a b d u ha _ he
  cases he
  exact absurd ha hc

/-- The first count behind some labels. -/
theorem decimalIn_labels {labels : List Label} (hn : WellNamed labels) (number : List Char) :
    decimalIn (labelsText labels ++ '}' :: ' ' :: number) = decimalAfter labels number := by
  induction labels with
  | nil => exact decimalIn_cons (by decide) _
  | cons l labels ih =>
    have hl := hn l List.mem_cons_self
    have ih' := ih fun l' hl' => hn l' (List.mem_cons_of_mem _ hl')
    have hafter : decimalAfter (l :: labels) number =
        (decimalIn (escape l.value)).or (decimalAfter labels number) := by
      unfold decimalAfter
      rw [List.findSome?_cons]
      cases decimalIn (escape l.value) <;> rfl
    rw [hafter, ← ih']
    rcases labelsText_cons l labels (' ' :: number) with ⟨rfl, htext⟩ | ⟨_, htext⟩
    · rw [htext, decimalIn_label hl]
      rfl
    · rw [htext, decimalIn_label hl, decimalIn_cons (by decide)]

theorem newline_notMem_rest {labels : List Label} (hn : WellNamed labels) {number : List Char}
    (hnumber : '\n' ∉ number) : '\n' ∉ labelsText labels ++ '}' :: ' ' :: number := by
  have hlabels : '\n' ∉ labelsText labels := by
    apply newline_notMem_labelsText
    intro l hl hm
    exact (ne_of_isNameChar (hn l hl _ hm)).2.2 rfl
  simp [hlabels, hnumber]

/-- What the pattern takes from the labels of a line. -/
theorem readBucket_labels {labels : List Label} (hn : WellNamed labels) {number : List Char}
    (hnewline : '\n' ∉ number) (hquote : '"' ∉ number) :
    readBucket (labelsText labels ++ '}' :: ' ' :: number) = reading labels number := by
  induction labels with
  | nil =>
    unfold readBucket
    rw [no_bucket_without_quote]
    · rfl
    · simp [labelsText, hquote]
  | cons l labels ih =>
    have hl := hn l List.mem_cons_self
    have hn' : WellNamed labels := fun l' hl' => hn l' (List.mem_cons_of_mem _ hl')
    have ih' := ih hn'
    have hrest := newline_notMem_rest hn' hnewline
    rw [reading, ← ih', ← decimalIn_labels hn' number]
    rcases labelsText_cons l labels (' ' :: number) with ⟨rfl, htext⟩ | ⟨_, htext⟩
    · rw [htext, readBucket_label hl (.inr rfl) (by simp [hnewline])]
      rfl
    · rw [htext, readBucket_label hl (.inl rfl) hrest, decimalIn_cons (by decide),
        readBucket_cons (by decide)]

/-- What the pattern takes from a line. -/
theorem readBucket_sampleLine {name : List Char} (hname : '=' ∉ name) {labels : List Label}
    (hn : WellNamed labels) {number : List Char} (hnewline : '\n' ∉ number)
    (hquote : '"' ∉ number) :
    readBucket (sampleLine name labels number) = reading labels number := by
  rw [← readBucket_labels hn hnewline hquote]
  unfold sampleLine
  unfold readBucket
  rw [skip_name hname]
  exact readBucket_cons (by decide) _

/-- The reading is that of the first label that looks like a bound. -/
theorem reading_eq_some {labels : List Label} {number b t : List Char} :
    reading labels number = some (b, t) ↔
      ∃ before l after, labels = before ++ l :: after ∧ (∀ l' ∈ before, ¬LooksLikeBound l') ∧
        LooksLikeBound l ∧ b = l.value ∧ decimalAfter after number = some t := by
  induction labels with
  | nil => simp [reading]
  | cons l labels ih =>
    rw [reading]
    split
    · rename_i hl
      constructor
      · intro h
        obtain ⟨t', ht, he⟩ := Option.map_eq_some_iff.mp h
        cases he
        exact ⟨[], l, labels, rfl, by simp, hl, rfl, ht⟩
      · rintro ⟨before, l', after, he, hbefore, hl', rfl, ht⟩
        rcases before with _ | ⟨m, before⟩
        · cases he
          rw [ht]
          rfl
        · cases he
          exact absurd hl (hbefore l List.mem_cons_self)
    · rename_i hl
      rw [ih]
      constructor
      · rintro ⟨before, l', after, rfl, hbefore, hl', hb, ht⟩
        refine ⟨l :: before, l', after, rfl, ?_, hl', hb, ht⟩
        intro m hm
        rcases List.mem_cons.mp hm with rfl | hm
        · exact hl
        · exact hbefore m hm
      · rintro ⟨before, l', after, he, hbefore, hl', hb, ht⟩
        rcases before with _ | ⟨m, before⟩
        · cases he
          exact absurd hl' hl
        · cases he
          exact ⟨before, l', after, rfl, fun m hm => hbefore m (List.mem_cons_of_mem _ hm), hl', hb,
            ht⟩

end aristote_dispatcher.histogram
