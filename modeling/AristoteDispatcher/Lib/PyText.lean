-- Methods of Python's `str`: `split` with and without a separator, `strip` and
-- `replace`. Of a separator that does not overlap itself, the pieces around one of
-- its places are those of the texts on both sides. Nothing here names this
-- repository.
import Mathlib.Data.List.Basic
import Mathlib.Data.List.Infix

namespace pytext

/-- `c.isspace()`, as `split` and `strip` take it. -/
def isspace (c : Char) : Bool :=
  let n := c.toNat
  (9 ≤ n && n ≤ 13) || (28 ≤ n && n ≤ 32) || n = 0x85 || n = 0xa0 || n = 0x1680 ||
    (0x2000 ≤ n && n ≤ 0x200a) || n = 0x2028 || n = 0x2029 || n = 0x202f || n = 0x205f ||
    n = 0x3000

/-- `text.split()`: the pieces between runs of whitespace. -/
def split (text : String) : List String :=
  ((text.toList.splitOnP isspace).filter (· ≠ [])).map String.ofList

example : split " Bearer\t abc\n" = ["Bearer", "abc"] := by decide

/-- `text.strip()`. -/
def strip (text : List Char) : List Char :=
  ((text.dropWhile isspace).reverse.dropWhile isspace).reverse

/-- `text.split(sep)` from a place on, for a separator that is not empty: so many characters
still belong to a separator, and the piece so far is reversed. -/
def splitFrom (sep : List Char) : Nat → List Char → List Char → List (List Char)
  | _, piece, [] => [piece.reverse]
  | n + 1, piece, _ :: cs => splitFrom sep n piece cs
  | 0, piece, c :: cs =>
    if sep.isPrefixOf (c :: cs) then piece.reverse :: splitFrom sep (sep.length - 1) [] cs
    else splitFrom sep 0 (c :: piece) cs

def splitOn (sep text : List Char) : List (List Char) := splitFrom sep 0 [] text

/-- `text.replace(old, new)` from a place on, in the same way. -/
def replaceFrom (old new : List Char) : Nat → List Char → List Char
  | _, [] => []
  | n + 1, _ :: cs => replaceFrom old new n cs
  | 0, c :: cs =>
    if old.isPrefixOf (c :: cs) then new ++ replaceFrom old new (old.length - 1) cs
    else c :: replaceFrom old new 0 cs

def replace (old new text : List Char) : List Char := replaceFrom old new 0 text

/-! ## The pieces -/

variable {sep old : List Char}

/-- The characters of the separator are passed over. -/
theorem splitFrom_skip (xs piece cs : List Char) :
    splitFrom sep xs.length piece (xs ++ cs) = splitFrom sep 0 piece cs := by
  induction xs with
  | nil => rfl
  | cons x xs ih => exact ih

theorem splitFrom_sep (hsep : sep ≠ []) (piece cs : List Char) :
    splitFrom sep 0 piece (sep ++ cs) = piece.reverse :: splitOn sep cs := by
  cases sep with
  | nil => exact absurd rfl hsep
  | cons s ss =>
    have hprefix : (s :: ss).isPrefixOf (s :: (ss ++ cs)) = true :=
      List.isPrefixOf_iff_prefix.mpr (List.prefix_append (s :: ss) cs)
    rw [List.cons_append, splitFrom, if_pos hprefix]
    exact congrArg _ (splitFrom_skip ss [] cs)

theorem splitFrom_cons {c : Char} {cs : List Char} (h : ¬ sep <+: c :: cs) (piece : List Char) :
    splitFrom sep 0 piece (c :: cs) = splitFrom sep 0 (c :: piece) cs := by
  rw [splitFrom, if_neg (by rwa [List.isPrefixOf_iff_prefix])]

/-- Where a text stands at a separator, or at a character. -/
theorem splits_cases (hsep : sep ≠ []) (cs : List Char) :
    cs = [] ∨ (∃ rest, cs = sep ++ rest ∧ rest.length < cs.length) ∨
      ∃ c rest, cs = c :: rest ∧ ¬ sep <+: c :: rest := by
  cases cs with
  | nil => exact .inl rfl
  | cons c cs =>
    by_cases h : sep <+: c :: cs
    · obtain ⟨rest, hrest⟩ := h
      refine .inr (.inl ⟨rest, hrest.symm, ?_⟩)
      have hlength := congrArg List.length hrest
      have hpos := List.length_pos_of_ne_nil hsep
      rw [List.length_append] at hlength
      omega
    · exact .inr (.inr ⟨c, cs, rfl, h⟩)

/-- The last piece is the whole text, or what stands behind some separator. -/
theorem splitFrom_last (hsep : sep ≠ []) (piece cs : List Char) :
    (¬ sep <:+: cs ∧ splitFrom sep 0 piece cs = [piece.reverse ++ cs]) ∨
      ∃ before last, cs = before ++ (sep ++ last) ∧
        (splitFrom sep 0 piece cs).getLast? = some last := by
  induction hn : cs.length using Nat.strong_induction_on generalizing piece cs with
  | _ n ih =>
    subst hn
    rcases splits_cases hsep cs with rfl | ⟨rest, rfl, hlt⟩ | ⟨c, rest, rfl, hnot⟩
    · exact .inl ⟨by simpa using hsep, by simp [splitFrom]⟩
    · right
      rw [splitFrom_sep hsep]
      rcases ih _ hlt [] rest rfl with ⟨_, hwhole⟩ | ⟨before, last, rfl, hlast⟩
      · exact ⟨[], rest, rfl, by simp [splitOn, hwhole]⟩
      · refine ⟨sep ++ before, last, by simp, ?_⟩
        rw [List.getLast?_cons, splitOn, hlast]
        rfl
    · rw [splitFrom_cons hnot]
      rcases ih _ (Nat.lt_succ_self _) (c :: piece) rest rfl with
        ⟨hno, hwhole⟩ | ⟨before, last, rfl, hlast⟩
      · refine .inl ⟨?_, by simp [hwhole]⟩
        rw [List.infix_cons_iff]
        exact not_or.mpr ⟨hnot, hno⟩
      · exact .inr ⟨c :: before, last, rfl, hlast⟩

theorem splitOn_last (hsep : sep ≠ []) (text : List Char) :
    (¬ sep <:+: text ∧ splitOn sep text = [text]) ∨
      ∃ before last, text = before ++ (sep ++ last) ∧ (splitOn sep text).getLast? = some last :=
  splitFrom_last hsep [] text

theorem occurs_of_place {text before last : List Char} (h : text = before ++ (sep ++ last)) :
    sep <:+: text :=
  ⟨before, last, by rw [h, List.append_assoc]⟩

/-- No end of the separator is a beginning of it. -/
def Unbordered (sep : List Char) : Prop :=
  ∀ part, part ≠ [] → part <+: sep → part <:+ sep → part = sep

/-- A separator that begins before another one ends before it. -/
theorem prefix_of_unbordered (hun : Unbordered sep) {before cs : List Char} (hne : before ≠ [])
    (h : sep <+: before ++ (sep ++ cs)) : sep <+: before := by
  rcases List.prefix_or_prefix_of_prefix h (List.prefix_append before (sep ++ cs)) with h' | h'
  · exact h'
  · obtain ⟨part, hpart⟩ := h'
    by_cases hnil : part = []
    · rw [← hpart, hnil, List.append_nil]
    · -- the rest of the first separator would begin the second one
      obtain ⟨rest, hrest⟩ := h
      have htail : part ++ rest = sep ++ cs := by
        rw [← hpart, List.append_assoc, List.append_cancel_left_eq] at hrest
        rw [hrest, hpart]
      have hle : part.length ≤ sep.length := by
        rw [← hpart, List.length_append]
        omega
      have hprefix : part <+: sep :=
        List.prefix_of_prefix_length_le ⟨rest, htail⟩ (List.prefix_append sep cs) hle
      have heq := hun part hnil hprefix ⟨before, hpart⟩
      have hlength := congrArg List.length hpart
      rw [List.length_append, heq] at hlength
      exact absurd (List.length_eq_zero_iff.mp (by omega)) hne

theorem splitFrom_append (hsep : sep ≠ []) (hun : Unbordered sep)
    (piece before cs : List Char) :
    splitFrom sep 0 piece (before ++ (sep ++ cs)) =
      splitFrom sep 0 piece before ++ splitOn sep cs := by
  induction hn : before.length using Nat.strong_induction_on generalizing piece before with
  | _ n ih =>
    subst hn
    rcases splits_cases hsep before with rfl | ⟨rest, rfl, hlt⟩ | ⟨c, rest, rfl, hnot⟩
    · rw [List.nil_append, splitFrom_sep hsep]
      rfl
    · rw [List.append_assoc, splitFrom_sep hsep, splitFrom_sep hsep, splitOn, ih _ hlt [] rest rfl]
      rfl
    · have hnot' : ¬ sep <+: c :: (rest ++ (sep ++ cs)) := fun h =>
        hnot (prefix_of_unbordered hun (List.cons_ne_nil c rest) h)
      rw [List.cons_append, splitFrom_cons hnot', splitFrom_cons hnot]
      exact ih _ (Nat.lt_succ_self _) (c :: piece) rest rfl

/-- A separator in the text divides its pieces. -/
theorem splitOn_append (hsep : sep ≠ []) (hun : Unbordered sep) (before cs : List Char) :
    splitOn sep (before ++ (sep ++ cs)) = splitOn sep before ++ splitOn sep cs :=
  splitFrom_append hsep hun [] before cs

/-! ## A text with some places cut out -/

/-- The second text is the first one without some of its places that hold the given text. -/
inductive Cut (old : List Char) : List Char → List Char → Prop
  | nil : Cut old [] []
  | keep {cs cs' : List Char} (c : Char) (h : Cut old cs cs') : Cut old (c :: cs) (c :: cs')
  | drop {cs cs' : List Char} (h : Cut old cs cs') : Cut old (old ++ cs) cs'

theorem Cut.refl (cs : List Char) : Cut old cs cs := by
  induction cs with
  | nil => exact .nil
  | cons c cs ih => exact .keep c ih

theorem replaceFrom_skip (new xs cs : List Char) :
    replaceFrom old new xs.length (xs ++ cs) = replaceFrom old new 0 cs := by
  induction xs with
  | nil => rfl
  | cons x xs ih => exact ih

theorem replace_old (hold : old ≠ []) (new cs : List Char) :
    replace old new (old ++ cs) = new ++ replace old new cs := by
  cases old with
  | nil => exact absurd rfl hold
  | cons o os =>
    have hprefix : (o :: os).isPrefixOf (o :: (os ++ cs)) = true :=
      List.isPrefixOf_iff_prefix.mpr (List.prefix_append (o :: os) cs)
    rw [replace, List.cons_append, replaceFrom, if_pos hprefix]
    exact congrArg _ (replaceFrom_skip new os cs)

theorem replace_cons {c : Char} {cs : List Char} (h : ¬ old <+: c :: cs) (new : List Char) :
    replace old new (c :: cs) = c :: replace old new cs := by
  rw [replace, replaceFrom, if_neg (by rwa [List.isPrefixOf_iff_prefix])]
  rfl

/-- `text.replace(old, "")` cuts places out. -/
theorem cut_replace (hold : old ≠ []) (cs : List Char) : Cut old cs (replace old [] cs) := by
  induction hn : cs.length using Nat.strong_induction_on generalizing cs with
  | _ n ih =>
    subst hn
    rcases splits_cases hold cs with rfl | ⟨rest, rfl, hlt⟩ | ⟨c, rest, rfl, hnot⟩
    · exact .nil
    · rw [replace_old hold]
      exact .drop (ih _ hlt rest rfl)
    · rw [replace_cons hnot]
      exact .keep c (ih _ (Nat.lt_succ_self _) rest rfl)

/-! ## `strip` -/

/-- Around what `strip` leaves there is whitespace only. -/
theorem exists_of_strip (text : List Char) :
    ∃ left right, (∀ c ∈ left, isspace c = true) ∧ (∀ c ∈ right, isspace c = true) ∧
      text = left ++ (strip text ++ right) := by
  have hends : ∀ cs : List Char, ∃ left, (∀ c ∈ left, isspace c = true) ∧
      cs = left ++ cs.dropWhile isspace := fun cs =>
    ⟨cs.takeWhile isspace, fun c hc => List.all_eq_true.mp List.all_takeWhile c hc,
      (List.takeWhile_append_dropWhile).symm⟩
  obtain ⟨left, hleft, htext⟩ := hends text
  obtain ⟨right, hright, hrest⟩ := hends (text.dropWhile isspace).reverse
  refine ⟨left, right.reverse, hleft, fun c hc => hright c (List.mem_reverse.mp hc), ?_⟩
  have hreverse := congrArg List.reverse hrest
  rw [List.reverse_reverse, List.reverse_append] at hreverse
  rw [strip, ← hreverse]
  exact htext

end pytext
