-- When the parse undoes the exposition of a histogram: exactly when each of its
-- lines is legible, which is a condition on the labels and on the magnitude of
-- the numbers.
import AristoteDispatcher.HistogramText
import AristoteDispatcher.MetricsTracker

open pydict pyfloat regex exposition
open aristote_dispatcher.settings aristote_dispatcher.metrics_tracker

namespace aristote_dispatcher.histogram

/-- A histogram as a server exposes it, with the labels that stand before and after `le`. -/
structure Series where
  before : List Label
  after : List Label
  buckets : List (ℚ × ℕ)
  /-- The count of the bucket `+Inf`. -/
  total : ℕ
  wellNamed : WellNamed (before ++ after)
  bounds_pos : ∀ b ∈ buckets, 0 < b.1
  bounds_increasing : (buckets.map (·.1)).Pairwise (· < ·)
  counts_nondecreasing : (buckets.map (·.2) ++ [total]).Pairwise (· ≤ ·)

namespace Series

def labels (s : Series) (le : List Char) : List Label :=
  s.before ++ ⟨['l', 'e'], le⟩ :: s.after

def line (s : Series) (go : ℚ → List Char) (le : List Char) (count : ℕ) : List Char :=
  sampleLine time_to_first_token_pattern (s.labels le) (go count)

/-- The lines of the series. `go` prints its numbers. -/
def lines (s : Series) (go : ℚ → List Char) : List (List Char) :=
  s.buckets.map (fun b => s.line go (go b.1) b.2) ++ [s.line go "+Inf".toList s.total]

/-- The map from bounds to counts. -/
def map (s : Series) : List (Bound × ℚ) :=
  s.buckets.map (fun b => ((b.1 : Bound), (b.2 : ℚ))) ++ [(⊤, (s.total : ℚ))]

/-- The numbers of the series stand in Go style. -/
structure PrintedBy (s : Series) (go : ℚ → List Char) : Prop where
  bounds : ∀ b ∈ s.buckets, Prints b.1 (go b.1)
  counts : ∀ b ∈ s.buckets, Prints b.2 (go b.2)
  total : Prints s.total (go s.total)

/-- A text whose lines are those of the series among lines of other metrics. -/
structure ExposedIn (s : Series) (go : ℚ → List Char) (text : List (List Char)) : Prop where
  own : (text.filter fun line => time_to_first_token_pattern.isPrefixOf line) = s.lines go
  newline : ∀ line ∈ text, '\n' ∉ line

end Series

/-- The count that the pattern finds behind a label is the right one: a value of a later
label has it as its first ` digits.digits`, or none has any and the count stands without an
exponent. -/
def CountFollows (after : List Label) (count : ℕ) : Prop :=
  match after.findSome? fun l => decimalIn (escape l.value) with
  | some t => float t = some ((count : ℚ) : Bound)
  | none => count < 1000000

/-- The first label that looks like a bound holds the right one, and the right count
follows. -/
def Legible (labels : List Label) (isBound : List Char → Prop) (count : ℕ) : Prop :=
  ∃ before l after, labels = before ++ l :: after ∧ (∀ l' ∈ before, ¬LooksLikeBound l') ∧
    LooksLikeBound l ∧ isBound l.value ∧ CountFollows after count

/-- Every line of the series is legible. The bound of the last line is not read. -/
def Series.AllLegible (s : Series) (go : ℚ → List Char) : Prop :=
  (∀ b ∈ s.buckets, Legible (s.labels (go b.1)) (fun v => float v = some ((b.1 : ℚ) : Bound)) b.2) ∧
    Legible (s.labels "+Inf".toList) (fun _ => True) s.total

/-! ## Numbers -/

theorem point_of_not_isDecimal (x : Char) (hx : isDecimal x = true) :
    decide (x.toLower = '.') = false := by
  rw [decide_eq_false_iff_not, toLower_eq (by decide)]
  rintro rfl
  rw [not_isDecimal_point] at hx
  cases hx

theorem decimalIn_decimal {ip fp r : List Char} (hne : ip ≠ []) (hfe : fp ≠ [])
    (hip : ∀ c ∈ ip, isDecimal c = true) (hfp : ∀ c ∈ fp, isDecimal c = true)
    (hr : ∀ c cs, r = c :: cs → isDecimal c = false) :
    decimalIn (' ' :: (ip ++ '.' :: (fp ++ r))) = some (ip ++ '.' :: fp) := by
  have hm : matchHere count_pattern (' ' :: (ip ++ '.' :: (fp ++ r))) =
      some [[' '], ip, ['.'], fp] := by
    unfold count_pattern letter
    rw [matchHere_one_of (by decide),
      matchHere_plus_one hne hip not_isDecimal_point point_of_not_isDecimal,
      if_pos (by decide), matchHere_plus_last hfe hfp hr]
    rfl
  unfold decimalIn
  rw [search_of_match hm]
  simp

/-- A digit and an exponent hold no ` digits.digits`. -/
theorem decimalIn_no_point {d : Char} {r : List Char} (hd : isDecimal d = true) (hd' : d ≠ ' ')
    (hr : ∀ c ∈ r, c ≠ ' ') : decimalIn (' ' :: d :: 'e' :: r) = none := by
  have hm : matchHere count_pattern (' ' :: d :: 'e' :: r) = none := by
    have hsplit : d :: 'e' :: r = [d] ++ 'e' :: r := rfl
    unfold count_pattern letter
    rw [matchHere_one_of (by decide), Option.map_eq_none_iff, hsplit,
      matchHere_plus_one (by simp) (by simpa using hd) (by decide) point_of_not_isDecimal]
    rfl
  have hskip : search count_pattern ((d :: 'e' :: r) ++ []) = search count_pattern [] := by
    apply skip_count
    intro c hc
    rcases List.mem_cons.mp hc with rfl | hc
    · exact hd'
    rcases List.mem_cons.mp hc with rfl | hc
    · decide
    · exact hr c hc
  rw [List.append_nil] at hskip
  unfold decimalIn
  rw [search_cons_of_none hm, hskip]
  rfl

theorem inPlainRange_natCast (n : ℕ) : InPlainRange (n : ℚ) ↔ n < 1000000 := by
  unfold InPlainRange
  constructor
  · rintro (h | ⟨_, h⟩)
    · rw [Nat.cast_eq_zero] at h
      omega
    · exact_mod_cast h
  · intro h
    rcases Nat.eq_zero_or_pos n with rfl | hpos
    · exact .inl rfl
    · refine .inr ⟨?_, by exact_mod_cast h⟩
      have h1 : (1 : ℚ) ≤ n := by exact_mod_cast hpos
      linarith

/-- A count in the plain range is read as it stands. -/
theorem decimalIn_plain {count : ℕ} {t : List Char} (h : Prints count t) (hc : count < 1000000) :
    ∃ u, decimalIn (' ' :: t) = some u ∧ float u = some ((count : ℚ) : Bound) := by
  obtain ⟨ip, fp, rfl, hne, hfe, hip, hfp, hv⟩ :=
    h.of_plain ((inPlainRange_natCast count).mpr hc)
  have hd := decimalIn_decimal (r := []) hne hfe hip hfp (by simp)
  rw [List.append_nil] at hd
  exact ⟨_, hd, by rw [float_decimal hne hip hfp, hv]⟩

/-- A count with an exponent is not read, or read as its mantissa, which is below ten. -/
theorem decimalIn_exponent {count : ℕ} {t u : List Char} (h : Prints count t)
    (hc : ¬count < 1000000) (hu : decimalIn (' ' :: t) = some u) :
    float u ≠ some ((count : ℚ) : Bound) := by
  have hout : ¬InPlainRange (count : ℚ) := fun hp => hc ((inPlainRange_natCast count).mp hp)
  obtain ⟨d, fp, r, rfl, hd, hfp, hr⟩ := h.of_exponent hout
  have hdd := isDecimal_of_isDigit hd
  by_cases hf : fp = []
  · exfalso
    have hspace : d ≠ ' ' := by
      rintro rfl
      exact absurd hd (by decide)
    rw [if_pos hf, List.nil_append, decimalIn_no_point hdd hspace] at hu
    · cases hu
    · rintro c hcr rfl
      exact hr hcr
  · have hread := decimalIn_decimal (r := 'e' :: r) (List.cons_ne_nil d []) hf
      (by simpa using hdd) hfp (by
        intro c cs he
        cases he
        decide)
    have htext : [d] ++ '.' :: (fp ++ 'e' :: r) =
        d :: ((if fp = [] then [] else '.' :: fp) ++ 'e' :: r) := by
      rw [if_neg hf]
      rfl
    rw [htext, hu] at hread
    cases hread
    rw [float_decimal (List.cons_ne_nil d []) (by simpa using hdd) hfp]
    intro he
    have heq : decimalVal [d] fp = (count : ℚ) := WithTop.coe_injective (Option.some.inj he)
    have hlt := decimalVal_singleton_lt d fp
    have hge : (1000000 : ℚ) ≤ count := by exact_mod_cast Nat.le_of_not_lt hc
    linarith

/-! ## Legible lines -/

theorem countFollows_iff {after : List Label} {count : ℕ} {t : List Char} (h : Prints count t) :
    (∃ u, decimalAfter after t = some u ∧ float u = some ((count : ℚ) : Bound)) ↔
      CountFollows after count := by
  unfold decimalAfter CountFollows
  cases after.findSome? fun l => decimalIn (escape l.value) with
  | some u => simp
  | none =>
    simp only [Option.none_or]
    constructor
    · rintro ⟨u, hu, hf⟩
      by_contra hc
      exact decimalIn_exponent h hc hu hf
    · exact decimalIn_plain h

theorem no_equals_in_name : '=' ∉ time_to_first_token_pattern := by decide

/-- A line is legible exactly when the parser reads the right bound and the right count. -/
theorem legible_iff {labels : List Label} (hn : WellNamed labels) {isBound : List Char → Prop}
    {count : ℕ} {t : List Char} (h : Prints count t) :
    (∃ v u, readBucket (sampleLine time_to_first_token_pattern labels t) = some (v, u) ∧
      isBound v ∧ float u = some ((count : ℚ) : Bound)) ↔ Legible labels isBound count := by
  rw [readBucket_sampleLine no_equals_in_name hn h.no_newline_or_quote.1 h.no_newline_or_quote.2]
  constructor
  · rintro ⟨v, u, hr, hv, hu⟩
    obtain ⟨before, l, after, rfl, hbefore, hl, rfl, hd⟩ := reading_eq_some.mp hr
    exact ⟨before, l, after, rfl, hbefore, hl, hv, (countFollows_iff h).mp ⟨u, hd, hu⟩⟩
  · rintro ⟨before, l, after, rfl, hbefore, hl, hv, hc⟩
    obtain ⟨u, hd, hu⟩ := (countFollows_iff h).mpr hc
    exact ⟨l.value, u, reading_eq_some.mpr ⟨before, l, after, rfl, hbefore, hl, rfl, hd⟩, hv, hu⟩

theorem wellNamed_labels (s : Series) (le : List Char) : WellNamed (s.labels le) := by
  intro l hl
  unfold Series.labels at hl
  rcases List.mem_append.mp hl with hl | hl
  · exact s.wellNamed l (List.mem_append_left _ hl)
  · rcases List.mem_cons.mp hl with rfl | hl
    · intro c hc
      rcases List.mem_pair.mp hc with rfl | rfl
      · decide
      · decide
    · exact s.wellNamed l (List.mem_append_right _ hl)

/-- The bound that is read is that of the line, or one that all lines of the series share. -/
theorem bound_read {s : Series} {le number v t : List Char}
    (h : reading (s.labels le) number = some (v, t)) :
    v = le ∧ LooksLikeBound ⟨['l', 'e'], le⟩ ∨
      ((s.before ++ s.after).find? fun l => LooksLikeBound l).map (·.value) = some v := by
  obtain ⟨before, l, after, he, hbefore, hl, rfl, _⟩ := reading_eq_some.mp h
  have hfind : (s.labels le).find? (fun l => LooksLikeBound l) = some l := by
    rw [he, List.find?_append, List.find?_eq_none.mpr (by simpa using hbefore)]
    simp [hl]
  unfold Series.labels at hfind
  rw [List.find?_append, List.find?_cons] at hfind
  rw [List.find?_append]
  cases hb : s.before.find? (fun l => LooksLikeBound l) with
  | some l' =>
    rw [hb] at hfind
    cases hfind
    exact .inr rfl
  | none =>
    rw [hb] at hfind
    by_cases hle : LooksLikeBound ⟨['l', 'e'], le⟩
    · simp only [hle, decide_true, Option.none_or, Option.some.injEq] at hfind
      rw [← hfind]
      exact .inl ⟨rfl, hle⟩
    · simp only [hle, decide_false, Option.none_or] at hfind
      rw [hfind]
      exact .inr rfl

/-- A printed bound that looks like one stands without an exponent, and reads as itself. -/
theorem float_of_looksLikeBound {b : ℚ} {t : List Char} (h : Prints b t)
    (hl : LooksLikeBound ⟨['l', 'e'], t⟩) : float t = some (b : Bound) := by
  by_cases hp : InPlainRange b
  · obtain ⟨ip, fp, rfl, hne, _, hip, hfp, hv⟩ := h.of_plain hp
    rw [float_decimal hne hip hfp, hv]
  · obtain ⟨d, fp, r, rfl, _⟩ := h.of_exponent hp
    exact absurd (hl.2.2 'e' (by simp)) (by decide)

/-! ## The loop over the lines -/

/-- What one line gives the histogram. -/
def entryOf (line : List Char) : Except Exn (Option (Bound × ℚ)) :=
  match readBucket line with
  | none => .ok none
  | some (v, t) =>
    match float t, float v with
    | some (some count), some bound => .ok (some (bound, count))
    | _, _ => .error .ValueError

/-- An entry goes into the histogram. -/
def addEntry (histogram : Histogram) : Option (Bound × ℚ) → Histogram
  | some (bound, count) => histogram.insert bound count
  | none => histogram

theorem addLine_eq (histogram : Histogram) (line : List Char) :
    addLine histogram line = (entryOf line).map (addEntry histogram) := by
  unfold addLine entryOf readBucket countOf boundOf
  cases search bucket_pattern line with
  | none => rfl
  | some m =>
    simp only [Option.map_some]
    rcases float (group2 m) with _ | _ | count
    · rfl
    · rfl
    · rcases float (group1 m) with _ | bound
      · rfl
      · rfl

theorem foldlM_addLine {lines : List (List Char)} {h g : Histogram} :
    lines.foldlM addLine h = .ok g ↔
      ∃ entries : List (Option (Bound × ℚ)),
        lines.map entryOf = entries.map .ok ∧ g = entries.foldl addEntry h := by
  induction lines generalizing h with
  | nil =>
    constructor
    · intro he
      cases he
      exact ⟨[], rfl, rfl⟩
    · rintro ⟨entries, he, rfl⟩
      have : entries = [] := List.map_eq_nil_iff.mp he.symm
      rw [this]
      rfl
  | cons line lines ih =>
    rw [List.foldlM_cons, addLine_eq]
    cases hl : entryOf line with
    | error e =>
      constructor
      · intro he
        cases he
      · rintro ⟨entries, he, _⟩
        rw [List.map_cons, hl] at he
        obtain ⟨x, xs, _, hx, _⟩ := List.map_eq_cons_iff.mp he.symm
        cases hx
    | ok entry =>
      simp only [Except.map, bind, Except.bind]
      rw [ih]
      constructor
      · rintro ⟨entries, he, rfl⟩
        exact ⟨entry :: entries, by rw [List.map_cons, List.map_cons, hl, he], rfl⟩
      · rintro ⟨entries, he, rfl⟩
        rw [List.map_cons, hl] at he
        obtain ⟨x, xs, rfl, hx, hxs⟩ := List.map_eq_cons_iff.mp he.symm
        cases hx
        exact ⟨xs, hxs.symm, rfl⟩

/-- A key of the histogram came from a line. -/
theorem mem_foldl_addEntry {entries : List (Option (Bound × ℚ))} {h : Histogram} {b : Bound} :
    b ∈ entries.foldl addEntry h ↔ b ∈ h ∨ ∃ c, some (b, c) ∈ entries := by
  induction entries generalizing h with
  | nil => simp
  | cons entry entries ih =>
    rw [List.foldl_cons, ih]
    rcases entry with _ | ⟨b', c'⟩
    · simp [addEntry]
    · simp only [addEntry, AList.mem_insert, List.mem_cons, Option.some.injEq, Prod.mk.injEq]
      constructor
      · rintro ((rfl | hb) | ⟨c, hc⟩)
        · exact .inr ⟨c', .inl ⟨rfl, rfl⟩⟩
        · exact .inl hb
        · exact .inr ⟨c, .inr hc⟩
      · rintro (hb | ⟨c, ⟨rfl, rfl⟩ | hc⟩)
        · exact .inl (.inr hb)
        · exact .inl (.inl rfl)
        · exact .inr ⟨c, hc⟩

theorem lookup_foldl_of_notMem {entries : List (Option (Bound × ℚ))} {h : Histogram} {b : Bound}
    (hb : ∀ c, some (b, c) ∉ entries) :
    (entries.foldl addEntry h).lookup b = h.lookup b := by
  induction entries generalizing h with
  | nil => rfl
  | cons entry entries ih =>
    rw [List.foldl_cons, ih fun c hc => hb c (List.mem_cons_of_mem _ hc)]
    rcases entry with _ | ⟨b', c'⟩
    · rfl
    · have hne : b ≠ b' := by
        rintro rfl
        exact hb c' List.mem_cons_self
      exact AList.lookup_insert_ne hne

/-- With distinct keys, every entry stays. -/
theorem lookup_foldl_of_mem {entries : List (Bound × ℚ)} (hnd : (entries.map (·.1)).Nodup)
    {h : Histogram} {b : Bound} {c : ℚ} (hm : (b, c) ∈ entries) :
    ((entries.map some).foldl addEntry h).lookup b = some c := by
  induction entries generalizing h with
  | nil => cases hm
  | cons entry entries ih =>
    rw [List.map_cons, List.nodup_cons] at hnd
    rw [List.map_cons, List.foldl_cons]
    rcases List.mem_cons.mp hm with rfl | hm
    · rw [lookup_foldl_of_notMem]
      · exact AList.lookup_insert _
      · intro c' hc'
        obtain ⟨e, he, heq⟩ := List.mem_map.mp hc'
        cases heq
        exact hnd.1 (List.mem_map_of_mem (f := (·.1)) he)
    · exact ih hnd.2 hm

/-- The parse of a text: its lines before the last, and the last. -/
theorem parse_exposed {s : Series} {go : ℚ → List Char} {text : List (List Char)}
    (he : s.ExposedIn go text) :
    Histogram.parse (String.ofList (exposed text)) time_to_first_token_pattern =
      ((s.buckets.map fun b => s.line go (go b.1) b.2).foldlM addLine ∅ >>= fun histogram =>
        addLastLine histogram (s.line go "+Inf".toList s.total)) := by
  have hlines : findallLines time_to_first_token_pattern
      (String.ofList (exposed text)).toList = s.lines go := by
    have hempty : ([[]] : List (List Char)).filter
        (fun line => time_to_first_token_pattern.isPrefixOf line) = [] := by decide
    unfold findallLines
    rw [String.toList_ofList, splitOn_exposed he.newline, List.filter_append, he.own, hempty,
      List.append_nil]
  unfold Histogram.parse
  rw [hlines]
  unfold Series.lines
  split
  · rename_i hnil
    simp at hnil
  · rename_i line lines hcons
    have hlast : (line :: lines).getLast (List.cons_ne_nil _ _) =
        s.line go "+Inf".toList s.total := by
      simp only [← hcons, List.getLast_append_singleton]
    rw [hlast, ← hcons, List.dropLast_concat]

theorem addLastLine_eq (histogram : Histogram) (line : List Char) :
    addLastLine histogram line =
      match readBucket line with
      | none => .ok histogram
      | some (_, t) =>
        match float t with
        | some (some count) => .ok (histogram.insert ⊤ count)
        | _ => .error .ValueError := by
  unfold addLastLine readBucket countOf
  cases search bucket_pattern line with
  | none => rfl
  | some m =>
    simp only [Option.map_some]
    rcases float (group2 m) with _ | _ | count
    · rfl
    · rfl
    · rfl

/-! ## The law -/

/-- Where each line gives its own key or one that all share, and every key is given, each
line gives its own. -/
theorem own_key {bs : List (ℚ × ℕ)} {r : ℚ × ℕ → Option (Bound × ℚ)} {shared : Option Bound}
    (hinj : ∀ b ∈ bs, ∀ b' ∈ bs, b.1 = b'.1 → b = b')
    (hr : ∀ b ∈ bs, ∀ k c, r b = some (k, c) → k = (b.1 : Bound) ∨ shared = some k)
    (hall : ∀ b ∈ bs, ∃ b' ∈ bs, ∃ c, r b' = some ((b.1 : Bound), c)) :
    ∀ b ∈ bs, ∃ c, r b = some ((b.1 : Bound), c) := by
  intro b hb
  obtain ⟨b', hb', c, hc⟩ := hall b hb
  suffices hbb : b = b' by
    rw [hbb] at hc ⊢
    exact ⟨c, hc⟩
  rcases hr b' hb' _ c hc with hk | hk
  · exact hinj b hb b' hb' (WithTop.coe_injective hk)
  -- the key of `b'` is given too: by itself or as the shared one
  obtain ⟨b'', hb'', c'', hc''⟩ := hall b' hb'
  rcases hr b'' hb'' _ c'' hc'' with hk' | hk'
  · have hbb : b' = b'' := hinj b' hb' b'' hb'' (WithTop.coe_injective hk')
    rw [← hbb, hc] at hc''
    exact hinj b hb b' hb' (WithTop.coe_injective (Prod.mk.inj (Option.some.inj hc'')).1)
  · rw [hk] at hk'
    exact hinj b hb b' hb' (WithTop.coe_injective (Option.some.inj hk'))

/-- The keys of the series differ, whatever goes with them. -/
theorem bounds_nodup (s : Series) (f : ℚ × ℕ → ℚ) :
    ((s.buckets.map fun b => ((b.1 : Bound), f b)).map (·.1)).Nodup := by
  have hb : (s.buckets.map (·.1)).Nodup := s.bounds_increasing.imp fun h => ne_of_lt h
  have hcoe : Function.Injective ((↑) : ℚ → Bound) := WithTop.coe_injective
  have hnd := hb.map hcoe
  rw [List.map_map] at hnd ⊢
  exact hnd

theorem bounds_inj (s : Series) : ∀ b ∈ s.buckets, ∀ b' ∈ s.buckets, b.1 = b'.1 → b = b' := by
  have hnd : (s.buckets.map (·.1)).Nodup := s.bounds_increasing.imp fun h => ne_of_lt h
  intro b hb b' hb' h
  exact List.inj_on_of_nodup_map hnd hb hb' h

/-- What the line of a bucket gives. -/
def Series.entry (s : Series) (go : ℚ → List Char) (b : ℚ × ℕ) : Option (Bound × ℚ) :=
  match entryOf (s.line go (go b.1) b.2) with
  | .ok entry => entry
  | .error _ => none

theorem entryOf_eq_some {line : List Char} {b : Bound} {c : ℚ} :
    entryOf line = .ok (some (b, c)) ↔
      ∃ v t, readBucket line = some (v, t) ∧ float v = some b ∧ float t = some (c : Bound) := by
  unfold entryOf
  cases readBucket line with
  | none => simp
  | some e =>
    obtain ⟨v, t⟩ := e
    simp only [Option.some.injEq, Prod.mk.injEq]
    constructor
    · intro h
      split at h
      · rename_i ht hv
        cases h
        exact ⟨v, t, ⟨rfl, rfl⟩, hv, ht⟩
      · cases h
    · rintro ⟨v', t', ⟨rfl, rfl⟩, hv, ht⟩
      rw [hv, ht]

theorem entry_eq_some {s : Series} {go : ℚ → List Char} {b : ℚ × ℕ} {k : Bound} {c : ℚ} :
    s.entry go b = some (k, c) ↔ entryOf (s.line go (go b.1) b.2) = .ok (some (k, c)) := by
  unfold Series.entry
  cases entryOf (s.line go (go b.1) b.2) with
  | ok entry => simp
  | error e => simp

/-- A line gives its own bound or the one that all lines of the series share. -/
theorem entry_key {s : Series} {go : ℚ → List Char} (hp : s.PrintedBy go) {b : ℚ × ℕ}
    (hb : b ∈ s.buckets) {k : Bound} {c : ℚ} (h : s.entry go b = some (k, c)) :
    k = (b.1 : Bound) ∨
      (((s.before ++ s.after).find? fun l => LooksLikeBound l).bind fun l => float l.value) =
        some k := by
  obtain ⟨v, t, hr, hv, _⟩ := entryOf_eq_some.mp (entry_eq_some.mp h)
  have hcount := (hp.counts b hb).no_newline_or_quote
  unfold Series.line at hr
  rw [readBucket_sampleLine no_equals_in_name (wellNamed_labels s _) hcount.1 hcount.2] at hr
  rcases bound_read hr with ⟨rfl, hl⟩ | hfind
  · rw [float_of_looksLikeBound (hp.bounds b hb) hl] at hv
    exact .inl (Option.some.inj hv).symm
  · obtain ⟨l, hl, rfl⟩ := Option.map_eq_some_iff.mp hfind
    rw [hl]
    exact .inr hv

/-- A line gives its own bound and its own count exactly when it is legible. -/
theorem entry_eq_own {s : Series} {go : ℚ → List Char} (hp : s.PrintedBy go) {b : ℚ × ℕ}
    (hb : b ∈ s.buckets) :
    s.entry go b = some ((b.1 : Bound), (b.2 : ℚ)) ↔
      Legible (s.labels (go b.1)) (fun v => float v = some ((b.1 : ℚ) : Bound)) b.2 := by
  rw [entry_eq_some, entryOf_eq_some, ← legible_iff (wellNamed_labels s _) (hp.counts b hb)]
  rfl

theorem entries_eq {α : Type*} {bs : List α} {f : α → Except Exn (Option (Bound × ℚ))}
    {entries : List (Option (Bound × ℚ))} (h : bs.map f = entries.map .ok) :
    entries = bs.map fun b => match f b with
      | .ok entry => entry
      | .error _ => none := by
  have h' := congrArg (List.map fun x : Except Exn (Option (Bound × ℚ)) => match x with
    | .ok entry => entry
    | .error _ => none) h
  rw [List.map_map, List.map_map] at h'
  rw [← List.map_id entries]
  exact h'.symm

theorem lookup_addLastLine {h g : Histogram} {line : List Char} (hl : addLastLine g line = .ok h)
    (b : ℚ) : h.lookup (b : Bound) = g.lookup (b : Bound) := by
  rw [addLastLine_eq] at hl
  split at hl
  · cases hl
    rfl
  · split at hl
    · cases hl
      exact AList.lookup_insert_ne (WithTop.coe_ne_top)
    · cases hl

theorem mem_map_coe {s : Series} {b : ℚ} {c : ℚ} :
    ((b : Bound), c) ∈ s.map ↔ ∃ n, (b, n) ∈ s.buckets ∧ c = (n : ℚ) := by
  unfold Series.map
  rw [List.mem_append, List.mem_map, List.mem_singleton]
  constructor
  · rintro (⟨⟨b', n⟩, hb, he⟩ | he)
    · obtain ⟨h1, h2⟩ := Prod.mk.inj he
      rw [← WithTop.coe_injective h1]
      exact ⟨n, hb, h2.symm⟩
    · exact absurd (Prod.mk.inj he).1 WithTop.coe_ne_top
  · rintro ⟨n, hb, rfl⟩
    exact .inl ⟨(b, n), hb, rfl⟩

theorem mem_map_top {s : Series} {c : ℚ} : ((⊤ : Bound), c) ∈ s.map ↔ c = (s.total : ℚ) := by
  unfold Series.map
  rw [List.mem_append, List.mem_map, List.mem_singleton]
  constructor
  · rintro (⟨b, _, he⟩ | he)
    · exact absurd (Prod.mk.inj he).1 WithTop.coe_ne_top
    · exact (Prod.mk.inj he).2
  · rintro rfl
    exact .inr rfl

theorem allLegible_of_parse {s : Series} {go : ℚ → List Char} {text : List (List Char)}
    (hp : s.PrintedBy go) (he : s.ExposedIn go text) {h : Histogram}
    (hparse : Histogram.parse (String.ofList (exposed text)) time_to_first_token_pattern = .ok h)
    (hmap : ∀ b c, h.lookup b = some c ↔ (b, c) ∈ s.map) : s.AllLegible go := by
  rw [parse_exposed he] at hparse
  cases hg : (s.buckets.map fun b => s.line go (go b.1) b.2).foldlM addLine ∅ with
  | error e => rw [hg] at hparse; cases hparse
  | ok g =>
    rw [hg] at hparse
    change addLastLine g (s.line go "+Inf".toList s.total) = .ok h at hparse
    obtain ⟨entries, hentries, hgfold⟩ := foldlM_addLine.mp hg
    rw [List.map_map] at hentries
    have hes : entries = s.buckets.map (s.entry go) := entries_eq hentries
    rw [hes] at hgfold
    -- every bound of the series is a key, and only lines before the last give finite keys
    have hown : ∀ b ∈ s.buckets, ∃ c, s.entry go b = some ((b.1 : Bound), c) := by
      refine own_key (bounds_inj s) (fun b hb k c hk => entry_key hp hb hk) ?_
      intro b hb
      have hl := (hmap (b.1 : Bound) (b.2 : ℚ)).mpr (mem_map_coe.mpr ⟨b.2, hb, rfl⟩)
      rw [lookup_addLastLine hparse, hgfold] at hl
      rcases mem_foldl_addEntry.mp (Dict.mem_of_lookup hl) with hm | ⟨c, hm⟩
      · exact absurd hm (AList.notMem_empty _)
      · obtain ⟨b', hb', hc⟩ := List.mem_map.mp hm
        exact ⟨b', hb', c, hc⟩
    have hfold : s.buckets.map (s.entry go) =
        (s.buckets.map fun b => ((b.1 : Bound), ((s.entry go b).map (·.2)).getD 0)).map some := by
      rw [List.map_map]
      apply List.map_congr_left
      intro b hb
      obtain ⟨c, hc⟩ := hown b hb
      simp [hc]
    have hnd := bounds_nodup s fun b => ((s.entry go b).map (·.2)).getD 0
    constructor
    · intro b hb
      rw [← entry_eq_own hp hb]
      obtain ⟨c, hc⟩ := hown b hb
      have hl := (hmap (b.1 : Bound) (b.2 : ℚ)).mpr (mem_map_coe.mpr ⟨b.2, hb, rfl⟩)
      have hmem : ((b.1 : Bound), c) ∈ s.buckets.map fun b =>
          ((b.1 : Bound), ((s.entry go b).map (·.2)).getD 0) :=
        List.mem_map.mpr ⟨b, hb, by simp [hc]⟩
      rw [lookup_addLastLine hparse, hgfold, hfold, lookup_foldl_of_mem hnd hmem] at hl
      rw [hc, Option.some.inj hl]
    · rw [← legible_iff (wellNamed_labels s _) hp.total]
      have hl := (hmap ⊤ (s.total : ℚ)).mpr (mem_map_top.mpr rfl)
      rw [addLastLine_eq] at hparse
      unfold Series.line at hparse
      cases hr : readBucket (sampleLine time_to_first_token_pattern (s.labels "+Inf".toList)
          (go s.total)) with
      | none =>
        exfalso
        rw [hr] at hparse
        cases hparse
        rw [hgfold] at hl
        rcases mem_foldl_addEntry.mp (Dict.mem_of_lookup hl) with hm | ⟨c, hm⟩
        · exact absurd hm (AList.notMem_empty _)
        · obtain ⟨b, hb, hc⟩ := List.mem_map.mp hm
          obtain ⟨c', hc'⟩ := hown b hb
          rw [hc] at hc'
          exact absurd (Prod.mk.inj (Option.some.inj hc')).1.symm WithTop.coe_ne_top
      | some e =>
        obtain ⟨v, t⟩ := e
        rw [hr] at hparse
        simp only at hparse
        split at hparse
        · rename_i c hc
          cases hparse
          rw [AList.lookup_insert] at hl
          cases hl
          exact ⟨v, t, rfl, trivial, hc⟩
        · cases hparse

theorem parse_of_allLegible {s : Series} {go : ℚ → List Char} {text : List (List Char)}
    (hp : s.PrintedBy go) (he : s.ExposedIn go text) (hl : s.AllLegible go) :
    ∃ h, Histogram.parse (String.ofList (exposed text)) time_to_first_token_pattern = .ok h ∧
      ∀ b c, h.lookup b = some c ↔ (b, c) ∈ s.map := by
  obtain ⟨hfinite, hlast⟩ := hl
  have hentry : ∀ b ∈ s.buckets, entryOf (s.line go (go b.1) b.2) =
      .ok (some ((b.1 : Bound), (b.2 : ℚ))) := fun b hb =>
    entry_eq_some.mp ((entry_eq_own hp hb).mpr (hfinite b hb))
  have hg : (s.buckets.map fun b => s.line go (go b.1) b.2).foldlM addLine ∅ =
      .ok (((s.buckets.map fun b => ((b.1 : Bound), (b.2 : ℚ))).map some).foldl addEntry ∅) := by
    apply foldlM_addLine.mpr
    refine ⟨_, ?_, rfl⟩
    rw [List.map_map, List.map_map, List.map_map]
    apply List.map_congr_left
    intro b hb
    exact hentry b hb
  obtain ⟨v, t, hr, _, ht⟩ := (legible_iff (wellNamed_labels s _) hp.total).mpr hlast
  have hadd : ∀ g, addLastLine g (s.line go "+Inf".toList s.total) =
      .ok (g.insert ⊤ (s.total : ℚ)) := by
    intro g
    rw [addLastLine_eq]
    unfold Series.line
    rw [hr]
    simp only [ht]
  refine ⟨(((s.buckets.map fun b => ((b.1 : Bound), (b.2 : ℚ))).map some).foldl addEntry ∅).insert
    ⊤ (s.total : ℚ), ?_, ?_⟩
  · rw [parse_exposed he, hg]
    exact hadd _
  · have hnd := bounds_nodup s fun b => (b.2 : ℚ)
    intro b c
    cases b using WithTop.recTopCoe with
    | top =>
      rw [AList.lookup_insert, mem_map_top, Option.some.injEq]
      exact eq_comm
    | coe b =>
      rw [AList.lookup_insert_ne WithTop.coe_ne_top, mem_map_coe]
      constructor
      · intro hlookup
        rcases mem_foldl_addEntry.mp (Dict.mem_of_lookup hlookup) with hm | ⟨c', hm⟩
        · exact absurd hm (AList.notMem_empty _)
        · obtain ⟨e, hm', hc'⟩ := List.mem_map.mp hm
          cases hc'
          obtain ⟨b', hb', heq⟩ := List.mem_map.mp hm'
          obtain ⟨h1, h2⟩ := Prod.mk.inj heq
          rw [lookup_foldl_of_mem hnd hm'] at hlookup
          rw [← WithTop.coe_injective h1]
          exact ⟨b'.2, hb', by rw [h2]; exact (Option.some.inj hlookup).symm⟩
      · rintro ⟨n, hb, rfl⟩
        exact lookup_foldl_of_mem hnd (List.mem_map.mpr ⟨(b, n), hb, rfl⟩)

/-- The parse of the text gives exactly the map of the series when, and only when, every line
of the series is legible. -/
theorem the_parse_undoes_the_exposition_of_legible_lines {s : Series} {go : ℚ → List Char}
    {text : List (List Char)} (hp : s.PrintedBy go) (he : s.ExposedIn go text) :
    (∃ h, Histogram.parse (String.ofList (exposed text)) time_to_first_token_pattern = .ok h ∧
      ∀ b c, h.lookup b = some c ↔ (b, c) ∈ s.map) ↔ s.AllLegible go :=
  ⟨fun ⟨_, hparse, hmap⟩ => allLegible_of_parse hp he hparse hmap, parse_of_allLegible hp he⟩

/-- The usual series: the number `le` is the first that looks like a bound, no later label
holds a ` digits.digits`, and no number needs an exponent. -/
theorem allLegible_of_plain {s : Series} {go : ℚ → List Char} (hp : s.PrintedBy go)
    (hbefore : ∀ l ∈ s.before, ¬LooksLikeBound l)
    (hafter : ∀ l ∈ s.after, decimalIn (escape l.value) = none)
    (hbuckets : ∀ b ∈ s.buckets, InPlainRange b.1 ∧ b.2 < 1000000) (htotal : s.total < 1000000) :
    s.AllLegible go := by
  have hfollows : ∀ count < 1000000, CountFollows s.after count := by
    intro count hc
    unfold CountFollows
    rw [List.findSome?_eq_none_iff.mpr hafter]
    exact hc
  constructor
  · intro b hb
    obtain ⟨hrange, hc⟩ := hbuckets b hb
    obtain ⟨ip, fp, ht, hne, _, hip, hfp, hv⟩ := (hp.bounds b hb).of_plain hrange
    have hle : LooksLikeBound ⟨['l', 'e'], go b.1⟩ := by
      refine ⟨(by decide : ['l', 'e'] <:+ ['l', 'e'].map Char.toLower), by simp [ht], ?_⟩
      intro c hc'
      simp only [ht, List.mem_append, List.mem_cons] at hc'
      unfold isBucketChar
      rcases hc' with hc' | rfl | hc'
      · rw [hip c hc', Bool.true_or]
      · decide
      · rw [hfp c hc', Bool.true_or]
    have hfloat : float (go b.1) = some ((b.1 : ℚ) : Bound) := by
      rw [ht, float_decimal hne hip hfp, hv]
    exact ⟨s.before, _, s.after, rfl, hbefore, hle, hfloat, hfollows _ hc⟩
  · exact ⟨s.before, _, s.after, rfl, hbefore, by decide, trivial, hfollows _ htotal⟩

/-- A series of one finite bucket. -/
def oneBucketSeries (count : ℕ) : Series where
  before := [⟨"engine".toList, "0".toList⟩]
  after := [⟨"model_name".toList, "m".toList⟩]
  buckets := [(1 / 2, count)]
  total := count
  wellNamed := by
    simp only [WellNamed, ← List.all_eq_true]
    decide
  bounds_pos := by simp
  bounds_increasing := by simp
  counts_nondecreasing := by simp

/-- The numbers of that series as the client prints them. -/
def goText (v : ℚ) : List Char :=
  if v = 1 / 2 then "0.5".toList else if v = 3 then "3.0".toList else "1e+06".toList

/-- Its lines among lines of other metrics. -/
def exposedLines (count : ℕ) : List (List Char) :=
  ["# TYPE vllm:time_to_first_token_seconds histogram".toList] ++
    (oneBucketSeries count).lines goText ++ ["vllm:num_requests_running 1.0".toList]

theorem prints_half : Prints (1 / 2) (goText (1 / 2)) := by
  have h : Prints (decimalVal ['0'] ['5']) (['0'] ++ '.' :: ['5']) :=
    .plain (by simp) (by simp) (List.all_eq_true.mp rfl) (List.all_eq_true.mp rfl)
      (.inr (by decide +kernel))
  have hv : decimalVal ['0'] ['5'] = 1 / 2 := by decide +kernel
  have ht : goText (1 / 2) = ['0'] ++ '.' :: ['5'] := by decide +kernel
  rw [ht, ← hv]
  exact h

theorem prints_three : Prints 3 (goText 3) := by
  have h : Prints (decimalVal ['3'] ['0']) (['3'] ++ '.' :: ['0']) :=
    .plain (by simp) (by simp) (List.all_eq_true.mp rfl) (List.all_eq_true.mp rfl)
      (.inr (by decide +kernel))
  have hv : decimalVal ['3'] ['0'] = 3 := by decide +kernel
  have ht : goText 3 = ['3'] ++ '.' :: ['0'] := by decide +kernel
  rw [ht, ← hv]
  exact h

theorem prints_million : Prints 1000000 (goText 1000000) := by
  have hv : decimalVal ['1'] [] *
      10 ^ (if false then -(digitsVal ['0', '6'] : ℤ) else (digitsVal ['0', '6'] : ℤ)) =
        1000000 := by decide +kernel
  have h : Prints (decimalVal ['1'] [] *
      10 ^ (if false then -(digitsVal ['0', '6'] : ℤ) else (digitsVal ['0', '6'] : ℤ)))
      ('1' :: (if ([] : List Char) = [] then [] else '.' :: []) ++
        'e' :: (if false then '-' else '+') :: ['0', '6']) := by
    refine .exponent (by decide) (by simp) (List.all_eq_true.mp rfl) ?_
    rw [hv]
    unfold InPlainRange
    norm_num
  have ht : goText 1000000 = '1' :: (if ([] : List Char) = [] then [] else '.' :: []) ++
      'e' :: (if false then '-' else '+') :: ['0', '6'] := by decide +kernel
  rw [ht, ← hv]
  exact h

/-- Three requests below half a second. -/
theorem the_parse_undoes_a_small_exposition :
    ∃ h, Histogram.parse (String.ofList (exposed (exposedLines 3)))
        time_to_first_token_pattern = .ok h ∧
      ∀ b c, h.lookup b = some c ↔ (b, c) ∈ (oneBucketSeries 3).map := by
  have hp : (oneBucketSeries 3).PrintedBy goText := by
    refine ⟨?_, ?_, prints_three⟩
    · intro b hb
      rw [List.mem_singleton.mp hb]
      exact prints_half
    · intro b hb
      rw [List.mem_singleton.mp hb]
      exact prints_three
  have he : (oneBucketSeries 3).ExposedIn goText (exposedLines 3) :=
    ⟨by decide +kernel, by decide +kernel⟩
  apply (the_parse_undoes_the_exposition_of_legible_lines hp he).mpr
  apply allLegible_of_plain hp
  · decide
  · decide
  · intro b hb
    rw [List.mem_singleton.mp hb]
    exact ⟨.inr (by norm_num), by decide⟩
  · decide

/-- A million requests: the lines end in `1e+06`, and no label holds a count. -/
theorem the_parse_drops_a_million :
    ¬∀ (s : Series) (go : ℚ → List Char) (text : List (List Char)), s.PrintedBy go →
      s.ExposedIn go text →
      ∃ h, Histogram.parse (String.ofList (exposed text)) time_to_first_token_pattern = .ok h ∧
        ∀ b c, h.lookup b = some c ↔ (b, c) ∈ s.map := by
  intro hall
  have hp : (oneBucketSeries 1000000).PrintedBy goText := by
    refine ⟨?_, ?_, by exact_mod_cast prints_million⟩
    · intro b hb
      rw [List.mem_singleton.mp hb]
      exact prints_half
    · intro b hb
      rw [List.mem_singleton.mp hb]
      exact_mod_cast prints_million
  have he : (oneBucketSeries 1000000).ExposedIn goText (exposedLines 1000000) :=
    ⟨by decide +kernel, by decide +kernel⟩
  obtain ⟨h, hparse, hmap⟩ := hall _ _ _ hp he
  obtain ⟨_, before, l, after, hlabels, _, _, _, hfollows⟩ := allLegible_of_parse hp he hparse hmap
  have hnone : ∀ l' ∈ (oneBucketSeries 1000000).labels "+Inf".toList,
      decimalIn (escape l'.value) = none := by decide +kernel
  unfold CountFollows at hfollows
  rw [List.findSome?_eq_none_iff.mpr] at hfollows
  · exact absurd hfollows (by decide)
  · intro l' hl'
    apply hnone
    rw [hlabels]
    exact List.mem_append_right _ (List.mem_cons_of_mem _ hl')

end aristote_dispatcher.histogram
