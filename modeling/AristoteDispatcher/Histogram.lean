-- Latency histograms (consumer/strategy/histogram.py): the difference of two,
-- and the parse of the text that a server exposes.
import AristoteDispatcher.Lib.PyDict
import AristoteDispatcher.Lib.Regex
import AristoteDispatcher.Settings

open pydict pyfloat regex
open aristote_dispatcher.settings

namespace aristote_dispatcher.histogram

/-- A latency threshold: a number or `inf`. -/
abbrev Bound := WithTop ℚ

/-- A latency threshold to a count. -/
abbrev Histogram := Dict Bound ℚ

/-- `self - other`, over the keys of both. -/
def Histogram.sub (self other : Histogram) : Histogram :=
  Dict.ofKeys (self.keys ++ other.keys) fun key => self.get key 0 - other.get key 0

/-- A character of the pattern, in any case. `l` and `e` have no other case outside ASCII. -/
def letter (c : Char) : Item := .one fun x => x.toLower = c

/-- `[\d+.inf]` in any case. The dotted capital I and the dotless i are cases of `i`. -/
def isBucketChar (c : Char) : Bool :=
  isDecimal c || ['+', '.', 'i', 'n', 'f', 'I', 'N', 'F', 'İ', 'ı'].contains c

/-- ` (\d+\.\d+)`: the end of the bucket pattern. -/
def count_pattern : List Item := [letter ' ', .plus isDecimal, letter '.', .plus isDecimal]

/-- `le="([\d+.inf]+)".*? (\d+\.\d+)`. -/
def bucket_pattern : List Item :=
  letter 'l' :: letter 'e' :: letter '=' :: letter '"' :: .plus isBucketChar :: letter '"' ::
    .lazy (fun c => c ≠ '\n') :: count_pattern

/-- `match.group(1)`. -/
def group1 (m : Match) : List Char := m.getD 4 []

/-- `match.group(2)`. -/
def group2 (m : Match) : List Char := (m.drop 8).flatten

/-- `float(match.group(1))`. -/
def boundOf (m : Match) : Except Exn Bound :=
  match float (group1 m) with
  | some b => .ok b
  | none => .error .ValueError

/-- `float(match.group(2))`. Its text is never `inf`. -/
def countOf (m : Match) : Except Exn ℚ :=
  match float (group2 m) with
  | some (some q) => .ok q
  | _ => .error .ValueError

/-- One turn of the loop over the lines before the last one. -/
def addLine (histogram : Histogram) (line : List Char) : Except Exn Histogram :=
  match search bucket_pattern line with
  | some m => do
    let count ← countOf m
    let bound ← boundOf m
    .ok (histogram.insert bound count)
  | none => .ok histogram

/-- The last bucket, of key `inf` whatever its text. -/
def addLastLine (histogram : Histogram) (line : List Char) : Except Exn Histogram :=
  match search bucket_pattern line with
  | some m => do
    let count ← countOf m
    .ok (histogram.insert ⊤ count)
  | none => .ok histogram

/-- `Histogram.parse(content, "^pattern.*$")`. -/
def Histogram.parse (content : String) (pattern : List Char) : Except Exn Histogram :=
  match findallLines pattern content.toList with
  | [] => .ok ∅
  | line :: lines => do
    let histogram ← (line :: lines).dropLast.foldlM addLine ∅
    addLastLine histogram ((line :: lines).getLast (List.cons_ne_nil _ _))

theorem Histogram.lookup_sub (h g : Histogram) (k : Bound) :
    (h.sub g).lookup k =
      if k ∈ h ∨ k ∈ g then some (h.get k 0 - g.get k 0) else none := by
  unfold Histogram.sub
  rw [Dict.lookup_ofKeys]
  simp only [List.mem_append, AList.mem_keys]

theorem Histogram.mem_sub {h g : Histogram} {k : Bound} : k ∈ h.sub g ↔ k ∈ h ∨ k ∈ g := by
  unfold Histogram.sub
  rw [Dict.mem_ofKeys]
  simp only [List.mem_append, AList.mem_keys]

/-- The difference reads only the lookups of its two sides. -/
theorem Histogram.lookup_sub_congr {h g h' g' : Histogram}
    (hh : ∀ k, h.lookup k = h'.lookup k) (hg : ∀ k, g.lookup k = g'.lookup k) (k : Bound) :
    (h.sub g).lookup k = (h'.sub g').lookup k := by
  have hm : ∀ {a b : Histogram}, (∀ k, a.lookup k = b.lookup k) → (k ∈ a ↔ k ∈ b) := by
    intro a b hab
    rw [← AList.lookup_isSome, ← AList.lookup_isSome, hab]
  rw [Histogram.lookup_sub, Histogram.lookup_sub]
  simp only [Dict.get, hm hh, hm hg, hh, hg]

/-! ## What a parsed histogram holds -/

theorem boundOf_nonneg {m : Match} {b : Bound} (h : boundOf m = .ok b) : 0 ≤ b := by
  unfold boundOf at h
  split at h
  · rename_i x hx
    cases h
    exact float_nonneg hx
  · cases h

theorem countOf_nonneg {m : Match} {c : ℚ} (h : countOf m = .ok c) : 0 ≤ c := by
  unfold countOf at h
  split at h
  · rename_i q hq
    cases h
    exact WithTop.coe_le_coe.mp (float_nonneg hq)
  · cases h

section ParseInduction

variable {P : Histogram → Prop} (hinsert : ∀ h b c, P h → 0 ≤ b → 0 ≤ c → P (h.insert b c))

include hinsert

theorem addLine_induction {h h' : Histogram} {line : List Char} (hh : P h)
    (he : addLine h line = .ok h') : P h' := by
  unfold addLine at he
  split at he
  · rename_i m _
    cases hc : countOf m with
    | error e => simp [hc, bind, Except.bind] at he
    | ok c =>
      cases hb : boundOf m with
      | error e => simp [hc, hb, bind, Except.bind] at he
      | ok b =>
        simp only [hc, hb, bind, Except.bind, Except.ok.injEq] at he
        subst he
        exact hinsert h b c hh (boundOf_nonneg hb) (countOf_nonneg hc)
  · cases he
    exact hh

theorem foldlM_addLine_induction {lines : List (List Char)} {h h' : Histogram}
    (hh : P h) (he : lines.foldlM addLine h = .ok h') : P h' := by
  induction lines generalizing h with
  | nil => cases he; exact hh
  | cons line lines ih =>
    rw [List.foldlM_cons] at he
    cases hl : addLine h line with
    | error e => simp [hl, bind, Except.bind] at he
    | ok g =>
      simp only [hl, bind, Except.bind] at he
      exact ih (addLine_induction hinsert hh hl) he

/-- The pattern takes no minus, so a parse only ever inserts a bound and a count that are at
least zero. -/
theorem parse_induction (hempty : P ∅) {content : String} {pattern : List Char} {h : Histogram}
    (he : Histogram.parse content pattern = .ok h) : P h := by
  unfold Histogram.parse at he
  split at he
  · cases he
    exact hempty
  · rename_i line lines _
    cases hl : (line :: lines).dropLast.foldlM addLine ∅ with
    | error e => simp [hl, bind, Except.bind] at he
    | ok g =>
      have hg := foldlM_addLine_induction hinsert hempty hl
      simp only [hl, bind, Except.bind] at he
      unfold addLastLine at he
      split at he
      · rename_i m _
        cases hc : countOf m with
        | error e => simp [hc, bind, Except.bind] at he
        | ok c =>
          simp only [hc, bind, Except.bind, Except.ok.injEq] at he
          subst he
          exact hinsert g ⊤ c hg le_top (countOf_nonneg hc)
      · cases he
        exact hg

end ParseInduction

/-- No bound of the histogram is below zero. -/
def BoundsNonneg (h : Histogram) : Prop := ∀ b ∈ h, (0 : Bound) ≤ b

theorem parse_boundsNonneg {content : String} {pattern : List Char} {h : Histogram}
    (he : Histogram.parse content pattern = .ok h) : BoundsNonneg h := by
  refine parse_induction ?_ (fun b hb => absurd hb (AList.notMem_empty b)) he
  intro h b c hh hb _ k hk
  rw [AList.mem_insert] at hk
  rcases hk with rfl | hk
  · exact hb
  · exact hh k hk

theorem boundsNonneg_update {h g : Histogram} (hh : BoundsNonneg h) (hg : BoundsNonneg g) :
    BoundsNonneg (h.update g) := by
  intro b hb
  rcases Dict.mem_update.mp hb with hb | hb
  · exact hg b hb
  · exact hh b hb

theorem boundsNonneg_sub {h g : Histogram} (hh : BoundsNonneg h) (hg : BoundsNonneg g) :
    BoundsNonneg (h.sub g) := by
  intro b hb
  rcases Histogram.mem_sub.mp hb with hb | hb
  · exact hh b hb
  · exact hg b hb

end aristote_dispatcher.histogram
