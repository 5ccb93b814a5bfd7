-- A backtracking matcher for patterns with no alternative and no nesting, as
-- Python's `re` runs them: each item takes its text, a greedy item tries its
-- longest text first and a lazy one its shortest.
import Mathlib.Data.List.Basic

namespace regex

/-- One item of a pattern. `plus` is a greedy `+`, `lazy` a `*?`. -/
inductive Item
  | one (p : Char → Bool)
  | plus (p : Char → Bool)
  | lazy (p : Char → Bool)

/-- What each item of a pattern took, in order. A group of the pattern is the
join of the texts of its items. -/
abbrev Match := List (List Char)

/-- The first item takes `c` too. -/
def Match.grow (c : Char) : Match → Match
  | [] => []
  | t :: m => (c :: t) :: m

/-- A greedy `p+` before the rest `k` of the pattern. -/
def greedy (k : List Char → Option Match) (p : Char → Bool) : List Char → Option Match
  | [] => none
  | c :: cs =>
    if p c then ((greedy k p cs).map (Match.grow c)).or ((k cs).map ([c] :: ·)) else none

/-- A lazy `p*?` before the rest `k` of the pattern. -/
def lazily (k : List Char → Option Match) (p : Char → Bool) : List Char → Option Match
  | [] => (k []).map ([] :: ·)
  | c :: cs =>
    ((k (c :: cs)).map ([] :: ·)).or
      (if p c then (lazily k p cs).map (Match.grow c) else none)

/-- The match of a pattern at the start of the text. -/
def matchHere : List Item → List Char → Option Match
  | [], _ => some []
  | .one _ :: _, [] => none
  | .one p :: is, c :: cs => if p c then (matchHere is cs).map ([c] :: ·) else none
  | .plus p :: is, cs => greedy (matchHere is) p cs
  | .lazy p :: is, cs => lazily (matchHere is) p cs

/-- `re.search`: the match at the leftmost place that has one. -/
def search (is : List Item) : List Char → Option Match
  | [] => matchHere is []
  | c :: cs => (matchHere is (c :: cs)).or (search is cs)

/-- The matches of `^prefix.*$` with `re.MULTILINE`: the lines with that prefix. `^` holds
at the start and after each line feed, `.` takes all but a line feed. -/
def findallLines (pre : List Char) (text : List Char) : List (List Char) :=
  (text.splitOn '\n').filter fun l => pre.isPrefixOf l

variable {is : List Item} {p q : Char → Bool} {k : List Char → Option Match}

theorem search_cons_of_none {c : Char} {cs : List Char} (h : matchHere is (c :: cs) = none) :
    search is (c :: cs) = search is cs := by
  simp [search, h]

theorem search_of_match {cs : List Char} {m : Match} (h : matchHere is cs = some m) :
    search is cs = some m := by
  cases cs with
  | nil => exact h
  | cons c cs => simp [search, h]

theorem matchHere_one_of_not {c : Char} {cs : List Char} (h : p c = false) :
    matchHere (.one p :: is) (c :: cs) = none := by
  simp [matchHere, h]

theorem matchHere_one_of {c : Char} {cs : List Char} (h : p c = true) :
    matchHere (.one p :: is) (c :: cs) = (matchHere is cs).map ([c] :: ·) := by
  simp [matchHere, h]

/-! ## A greedy item before a character that it does not take -/

theorem matchHere_plus_of_not {c : Char} {cs : List Char} (h : p c = false) :
    matchHere (.plus p :: is) (c :: cs) = none := by
  simp [matchHere, greedy, h]

/-- `p+q` where no character is of both: the greedy item takes its whole row, and the
next character decides. -/
theorem matchHere_plus_one {xs : List Char} {c : Char} {r : List Char} (hne : xs ≠ [])
    (hxs : ∀ x ∈ xs, p x = true) (hc : p c = false) (hpq : ∀ x, p x = true → q x = false) :
    matchHere (.plus p :: .one q :: is) (xs ++ c :: r) =
      if q c then (matchHere is r).map fun m => xs :: [c] :: m else none := by
  induction xs with
  | nil => exact absurd rfl hne
  | cons x xs ih =>
    have hx := hxs x List.mem_cons_self
    rcases xs with _ | ⟨y, ys⟩
    · simp only [List.cons_append, List.nil_append, matchHere, greedy, hx, hc, if_true,
        Bool.false_eq_true, if_false, Option.map_none, Option.none_or]
      split
      · simp [Function.comp_def]
      · rfl
    · have ih' := ih (by simp) fun z hz => hxs z (List.mem_cons_of_mem _ hz)
      have hy := hpq y (hxs y (by simp))
      have hk : matchHere (.one q :: is) ((y :: ys) ++ c :: r) = none :=
        matchHere_one_of_not hy
      simp only [matchHere] at ih' hk ⊢
      rw [List.cons_append, greedy, if_pos hx, ih', hk]
      split
      · rcases matchHere is r with _ | m <;> simp [Match.grow]
      · rfl

/-- `p+` at the end of a pattern takes the whole row. -/
theorem matchHere_plus_last {xs r : List Char} (hne : xs ≠ []) (hxs : ∀ x ∈ xs, p x = true)
    (hr : ∀ c cs, r = c :: cs → p c = false) :
    matchHere [.plus p] (xs ++ r) = some [xs] := by
  induction xs with
  | nil => exact absurd rfl hne
  | cons x xs ih =>
    have hx := hxs x List.mem_cons_self
    rcases xs with _ | ⟨y, ys⟩
    · have hg : greedy (matchHere []) p r = none := by
        rcases r with _ | ⟨c, cs⟩
        · rfl
        · simp [greedy, hr c cs rfl]
      change greedy (matchHere []) p (x :: r) = some [[x]]
      rw [greedy, if_pos hx, hg]
      rfl
    · have ih' := ih (by simp) fun z hz => hxs z (List.mem_cons_of_mem _ hz)
      simp only [matchHere] at ih' ⊢
      rw [List.cons_append, greedy, if_pos hx, ih']
      rfl

/-! ## A lazy item is a search -/

theorem lazily_search {r : List Char} (hr : ∀ c ∈ r, p c = true) :
    (matchHere (.lazy p :: is) r).map List.tail = search is r := by
  induction r with
  | nil => simp [matchHere, lazily, search, Function.comp_def]
  | cons c cs ih =>
    have hc := hr c List.mem_cons_self
    have ih' := ih fun d hd => hr d (List.mem_cons_of_mem _ hd)
    have hgrow : ∀ o : Option Match, (o.map (Match.grow c)).map List.tail = o.map List.tail := by
      intro o
      rcases o with _ | m
      · rfl
      · cases m <;> rfl
    simp only [matchHere, search] at ih' ⊢
    rw [lazily, if_pos hc]
    rcases h : matchHere is (c :: cs) with _ | m
    · simp only [Option.map_none, Option.none_or, hgrow]
      exact ih'
    · simp

/-! ## A character that no item takes splits the search -/

/-- Every item takes one character or more, and none takes `c`. -/
def Rejects (c : Char) (is : List Item) : Prop :=
  ∀ i ∈ is, (∃ p, i = .one p ∧ p c = false) ∨ ∃ p, i = .plus p ∧ p c = false

theorem greedy_barrier {k' : List Char → Option Match} {c : Char} {ys : List Char}
    (hc : p c = false) (hk : ∀ xs, k (xs ++ c :: ys) = k' xs) (xs : List Char) :
    greedy k p (xs ++ c :: ys) = greedy k' p xs := by
  induction xs with
  | nil => simp [greedy, hc]
  | cons x xs ih => simp [greedy, ih, hk]

theorem matchHere_barrier {c : Char} (hr : Rejects c is) (xs ys : List Char) :
    matchHere is (xs ++ c :: ys) = matchHere is xs := by
  induction is generalizing xs with
  | nil => simp [matchHere]
  | cons i is ih =>
    have ih' := ih fun j hj => hr j (List.mem_cons_of_mem _ hj)
    rcases hr i List.mem_cons_self with ⟨p, rfl, hp⟩ | ⟨p, rfl, hp⟩
    · rcases xs with _ | ⟨x, xs⟩
      · simp [matchHere, hp]
      · simp [matchHere, ih']
    · simp only [matchHere]
      exact greedy_barrier hp ih' xs

theorem matchHere_nil {c : Char} (hr : Rejects c is) (hne : is ≠ []) : matchHere is [] = none := by
  obtain ⟨i, is', rfl⟩ := List.exists_cons_of_ne_nil hne
  rcases hr i List.mem_cons_self with ⟨p, rfl, _⟩ | ⟨p, rfl, _⟩
  · rfl
  · rfl

theorem search_barrier {c : Char} (hr : Rejects c is) (hne : is ≠ []) (xs ys : List Char) :
    search is (xs ++ c :: ys) = (search is xs).or (search is ys) := by
  induction xs with
  | nil =>
    have h := matchHere_barrier hr [] ys
    rw [matchHere_nil hr hne, List.nil_append] at h
    simp [search, h, matchHere_nil hr hne]
  | cons x xs ih =>
    have h := matchHere_barrier hr (x :: xs) ys
    simp only [List.cons_append] at h ⊢
    rw [search, search, h, ih, Option.or_assoc]

/-! ## A match holds a match of the end of its pattern -/

theorem search_tail_none {c : Char} {cs : List Char} (h : search is (c :: cs) = none) :
    matchHere is (c :: cs) = none ∧ search is cs = none := by
  rw [search, Option.or_eq_none_iff] at h
  exact h

theorem matchHere_none_of_search_none {cs : List Char} (h : search is cs = none) :
    matchHere is cs = none := by
  rcases cs with _ | ⟨c, cs⟩
  · exact h
  · exact (search_tail_none h).1

theorem greedy_none {cs : List Char} (hk : ∀ cs', search is cs' = none → k cs' = none)
    (h : search is cs = none) : greedy k p cs = none := by
  induction cs with
  | nil => rfl
  | cons c cs ih =>
    have ht := (search_tail_none h).2
    rw [greedy, ih ht, hk cs ht]
    split <;> rfl

theorem lazily_none {cs : List Char} (hk : ∀ cs', search is cs' = none → k cs' = none)
    (h : search is cs = none) : lazily k p cs = none := by
  induction cs with
  | nil => rw [lazily, hk [] h]; rfl
  | cons c cs ih =>
    rw [lazily, hk _ h, ih (search_tail_none h).2]
    split <;> rfl

theorem matchHere_append_none (pre : List Item) {cs : List Char} (h : search is cs = none) :
    matchHere (pre ++ is) cs = none := by
  induction pre generalizing cs with
  | nil => exact matchHere_none_of_search_none h
  | cons i pre ih =>
    cases i with
    | one p =>
      rcases cs with _ | ⟨c, cs⟩
      · rfl
      · rw [List.cons_append, matchHere, ih (search_tail_none h).2]
        split <;> rfl
    | plus p => exact greedy_none (fun cs' h' => ih h') h
    | lazy p => exact lazily_none (fun cs' h' => ih h') h

/-- Where the end of a pattern has no match, the pattern has none. -/
theorem search_append_none (pre : List Item) {cs : List Char} (h : search is cs = none) :
    search (pre ++ is) cs = none := by
  induction cs with
  | nil => exact matchHere_append_none pre h
  | cons c cs ih =>
    rw [search, matchHere_append_none pre h, ih (search_tail_none h).2]
    rfl

/-- A text at whose characters no match starts is skipped. -/
theorem search_skip {xs r : List Char}
    (h : ∀ s, s <:+ xs → s ≠ [] → matchHere is (s ++ r) = none) :
    search is (xs ++ r) = search is r := by
  induction xs with
  | nil => rfl
  | cons x xs ih =>
    rw [List.cons_append, search_cons_of_none]
    · exact ih fun s hs => h s (hs.trans (List.suffix_cons x xs))
    · exact h (x :: xs) List.suffix_rfl (List.cons_ne_nil x xs)

/-! ## What a match took -/

/-- The text that an item took. -/
def Item.Took : Item → List Char → Prop
  | .one p, t => ∃ c, t = [c] ∧ p c = true
  | .plus p, t => t ≠ [] ∧ ∀ c ∈ t, p c = true
  | .lazy p, t => ∀ c ∈ t, p c = true

/-- A greedy item takes one character or more that it allows. -/
theorem greedy_took {P : Match → Prop} (hk : ∀ cs m, k cs = some m → P m) {cs : List Char}
    {m : Match} (h : greedy k p cs = some m) :
    ∃ t m', m = t :: m' ∧ Item.Took (.plus p) t ∧ P m' := by
  induction cs generalizing m with
  | nil => cases h
  | cons c cs ih =>
    unfold greedy at h
    obtain ⟨hc, h⟩ := Option.ite_none_right_eq_some.mp h
    rcases Option.or_eq_some_iff.mp h with hmore | ⟨_, hend⟩
    · obtain ⟨m₁, hm₁, rfl⟩ := Option.map_eq_some_iff.mp hmore
      obtain ⟨t, m', rfl, ⟨_, hall⟩, hrest⟩ := ih hm₁
      refine ⟨c :: t, m', rfl, ⟨List.cons_ne_nil _ _, ?_⟩, hrest⟩
      simpa [hc] using hall
    · obtain ⟨m', hm', rfl⟩ := Option.map_eq_some_iff.mp hend
      exact ⟨[c], m', rfl, ⟨by simp, by simpa using hc⟩, hk cs m' hm'⟩

theorem lazily_took {P : Match → Prop} (hk : ∀ cs m, k cs = some m → P m) {cs : List Char}
    {m : Match} (h : lazily k p cs = some m) :
    ∃ t m', m = t :: m' ∧ Item.Took (.lazy p) t ∧ P m' := by
  induction cs generalizing m with
  | nil =>
    obtain ⟨m', hm', rfl⟩ := Option.map_eq_some_iff.mp h
    exact ⟨[], m', rfl, by simp [Item.Took], hk [] m' hm'⟩
  | cons c cs ih =>
    unfold lazily at h
    rcases Option.or_eq_some_iff.mp h with hend | ⟨_, hmore⟩
    · obtain ⟨m', hm', rfl⟩ := Option.map_eq_some_iff.mp hend
      exact ⟨[], m', rfl, by simp [Item.Took], hk _ m' hm'⟩
    · obtain ⟨hc, hmore⟩ := Option.ite_none_right_eq_some.mp hmore
      obtain ⟨m₁, hm₁, rfl⟩ := Option.map_eq_some_iff.mp hmore
      obtain ⟨t, m', rfl, hall, hrest⟩ := ih hm₁
      exact ⟨c :: t, m', rfl, by simpa [Item.Took, hc] using hall, hrest⟩

/-- Each item of a match took a text that it allows. -/
theorem matchHere_took {cs : List Char} {m : Match} (h : matchHere is cs = some m) :
    List.Forall₂ Item.Took is m := by
  induction is generalizing cs m with
  | nil =>
    cases cs <;> cases h <;> exact .nil
  | cons i is ih =>
    cases i with
    | one p =>
      cases cs with
      | nil => cases h
      | cons c cs =>
        unfold matchHere at h
        obtain ⟨hc, h⟩ := Option.ite_none_right_eq_some.mp h
        obtain ⟨m', hm', rfl⟩ := Option.map_eq_some_iff.mp h
        exact .cons ⟨c, rfl, hc⟩ (ih hm')
    | plus p =>
      rw [matchHere] at h
      obtain ⟨t, m', rfl, ht, hm'⟩ := greedy_took (fun _ _ hm => ih hm) h
      exact .cons ht hm'
    | lazy p =>
      rw [matchHere] at h
      obtain ⟨t, m', rfl, ht, hm'⟩ := lazily_took (fun _ _ hm => ih hm) h
      exact .cons ht hm'

theorem search_took {cs : List Char} {m : Match} (h : search is cs = some m) :
    List.Forall₂ Item.Took is m := by
  induction cs with
  | nil => exact matchHere_took h
  | cons c cs ih =>
    unfold search at h
    rcases Option.or_eq_some_iff.mp h with hhere | ⟨_, hlater⟩
    · exact matchHere_took hhere
    · exact ih hlater

end regex
