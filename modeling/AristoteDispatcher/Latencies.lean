-- What the score says of a server. A server shows how many of its requests had their first
-- token within each bucket, and the score that the consumer reads off its last scrapes is the
-- percentile of the requests of the window.
import AristoteDispatcher.Lib.Places
import AristoteDispatcher.Lib.Samples
import AristoteDispatcher.HistogramParse
import AristoteDispatcher.Percentile
import AristoteDispatcher.SlidingWindow

open pydict pyfloat places regex exposition samples window
open aristote_dispatcher.settings aristote_dispatcher.histogram
open aristote_dispatcher.metrics_tracker

namespace aristote_dispatcher.strategy

/-! ## What a server shows -/

/-- The series of a server: its labels, its finite buckets, and if it stands in the text
before the first request. -/
structure Metrics where
  before : List Label
  after : List Label
  bounds : List ℚ
  from_start : Bool
  wellNamed : WellNamed (before ++ after)
  bounds_pos : ∀ q ∈ bounds, 0 < q
  bounds_increasing : bounds.Pairwise (· < ·)

namespace Metrics

variable (m : Metrics)

/-- The series after requests with these times to the first token. -/
def series (latencies : List ℚ) : Series where
  before := m.before
  after := m.after
  buckets := m.bounds.map fun q => (q, upTo latencies q)
  total := latencies.length
  wellNamed := m.wellNamed
  bounds_pos := by simpa using m.bounds_pos
  bounds_increasing := by
    rw [List.map_map]
    simpa [Function.comp_def] using m.bounds_increasing
  counts_nondecreasing := by
    rw [List.map_map, List.pairwise_append]
    refine ⟨?_, List.pairwise_singleton _ _, ?_⟩
    · rw [List.pairwise_map]
      refine m.bounds_increasing.imp fun hlt => ?_
      exact upTo_mono latencies (WithTop.coe_le_coe.mpr hlt.le)
    · rintro c hc total ht
      obtain ⟨q, _, rfl⟩ := List.mem_map.mp hc
      rw [List.mem_singleton.mp ht]
      exact upTo_le_length latencies q

/-- A server that had no request may show no series yet. -/
def Exposes (latencies : List ℚ) : Prop := latencies ≠ [] ∨ m.from_start = true

/-- A text of the server after these requests. -/
inductive Shows (latencies : List ℚ) : String → Prop
  | series {go : ℚ → List Char} {lines : List (List Char)} (hexposes : m.Exposes latencies)
      (hprinted : (m.series latencies).PrintedBy go)
      (hlines : (m.series latencies).ExposedIn go lines)
      (hlegible : (m.series latencies).AllLegible go) :
      Shows latencies (String.ofList (exposed lines))
  | nothing {text : String} (hexposes : ¬m.Exposes latencies) (htext : text ≠ "")
      (hlines : findallLines time_to_first_token_pattern text.toList = []) : Shows latencies text

/-- The histogram has exactly the buckets of the server, with its counts. -/
def Tells (latencies : List ℚ) (h : Histogram) : Prop :=
  ∀ b c, h.lookup b = some c ↔
    m.Exposes latencies ∧ IsBucket m.bounds b ∧ c = (upTo latencies b : ℚ)

end Metrics

variable {m : Metrics}

theorem mem_map_series {latencies : List ℚ} {b : Bound} {c : ℚ} :
    (b, c) ∈ (m.series latencies).map ↔
      IsBucket m.bounds b ∧ c = (upTo latencies b : ℚ) := by
  cases b using WithTop.recTopCoe with
  | top =>
    rw [mem_map_top, upTo_top]
    exact ⟨fun hc => ⟨.inl rfl, hc⟩, And.right⟩
  | coe q =>
    rw [mem_map_coe]
    constructor
    · rintro ⟨n, hn, rfl⟩
      obtain ⟨q', hq', he⟩ := List.mem_map.mp hn
      obtain ⟨rfl, rfl⟩ := Prod.mk.inj he
      exact ⟨.inr ⟨q', hq', rfl⟩, rfl⟩
    · rintro ⟨htop | ⟨q', hq', he⟩, rfl⟩
      · exact absurd htop WithTop.coe_ne_top
      · obtain rfl := WithTop.coe_injective he
        exact ⟨_, List.mem_map.mpr ⟨q, hq', rfl⟩, rfl⟩

/-- A text that a server shows is not empty and parses to its counts. -/
theorem parse_of_shows {latencies : List ℚ} {text : String} (h : m.Shows latencies text) :
    text ≠ "" ∧ ∃ new, Histogram.parse text time_to_first_token_pattern = .ok new ∧
      m.Tells latencies new := by
  cases h with
  | @series go lines hexposes hprinted hlines hlegible =>
    obtain ⟨new, hnew, hmap⟩ := parse_of_allLegible hprinted hlines hlegible
    refine ⟨?_, new, hnew, fun b c => ?_⟩
    · -- the text has at least the line of the last bucket
      intro hempty
      have hnil : exposed lines = [] := by
        simpa using congrArg String.toList hempty
      have hown := hlines.own
      cases lines with
      | nil => simp [Series.lines] at hown
      | cons line lines => simp [exposed] at hnil
    · rw [hmap, mem_map_series]
      exact ⟨fun h => ⟨hexposes, h⟩, And.right⟩
  | nothing hexposes htext hlines =>
    refine ⟨htext, ∅, ?_, fun b c => ?_⟩
    · unfold Histogram.parse
      rw [hlines]
    · exact ⟨fun h => (by cases h), fun h => absurd h.1 hexposes⟩

/-! ## The difference of two histograms -/

theorem Metrics.Tells.mem_iff {latencies : List ℚ} {h : Histogram} (ht : m.Tells latencies h)
    {b : Bound} : b ∈ h ↔ m.Exposes latencies ∧ IsBucket m.bounds b := by
  constructor
  · intro hb
    obtain ⟨c, hc⟩ := Dict.exists_of_mem hb
    obtain ⟨hexposes, hbucket, _⟩ := (ht b c).mp hc
    exact ⟨hexposes, hbucket⟩
  · rintro ⟨hexposes, hbucket⟩
    exact Dict.mem_of_lookup ((ht b _).mpr ⟨hexposes, hbucket, rfl⟩)

/-- A histogram that is missing has the counts of a server without requests. -/
theorem Metrics.Tells.get {latencies : List ℚ} {h : Histogram} (ht : m.Tells latencies h)
    {b : Bound} (hb : IsBucket m.bounds b) : h.get b 0 = (upTo latencies b : ℚ) := by
  unfold Dict.get
  cases hl : h.lookup b with
  | some c =>
    obtain ⟨_, _, rfl⟩ := (ht b c).mp hl
    rfl
  | none =>
    have hnot : ¬m.Exposes latencies := by
      intro hexposes
      rw [(ht b _).mpr ⟨hexposes, hb, rfl⟩] at hl
      cases hl
    have hnil : latencies = [] := by
      by_contra hne
      exact hnot (.inl hne)
    rw [hnil]
    rfl

/-- The newest histogram minus an older one has the counts of the requests between them. -/
theorem lookup_difference {old new : List ℚ} {last newest : Histogram}
    (hlast : ∀ b, IsBucket m.bounds b → last.get b 0 = (upTo old b : ℚ))
    (hkeys : ∀ b ∈ last, b ∈ newest) (hnewest : m.Tells new newest) (hgrows : old <+: new)
    (b : Bound) (c : ℚ) : (newest.sub last).lookup b = some c ↔
      m.Exposes new ∧ IsBucket m.bounds b ∧ c = (upTo (rest old new) b : ℚ) := by
  have hmem : b ∈ newest ∨ b ∈ last ↔ m.Exposes new ∧ IsBucket m.bounds b := by
    rw [← hnewest.mem_iff]
    exact ⟨fun h => h.elim id (hkeys b), .inl⟩
  rw [Histogram.lookup_sub, Option.ite_none_right_eq_some, hmem, and_assoc]
  refine and_congr_right fun _ => and_congr_right fun hbucket => ?_
  rw [hnewest.get hbucket, hlast b hbucket, upTo_rest hgrows, Option.some.injEq, eq_comm]

/-! ## The percentile -/

/-- The percentile of a histogram of these requests is their percentile. -/
theorem get_percentile_of_counts {h : Histogram} {recent bounds : List ℚ} {p : ℚ} (hp : p ≤ 1)
    (hl : ∀ b c, h.lookup b = some c ↔ IsBucket bounds b ∧ c = (upTo recent b : ℚ)) :
    ∃ i b, get_percentile h p = .ok (some (i, b)) ∧ IsPercentile bounds p recent b := by
  have hcumulative : Cumulative h := by
    constructor
    · intro b c hc
      rw [((hl b c).mp hc).2]
      exact Nat.cast_nonneg _
    · intro b c b' c' hc hc' hle
      rw [((hl b c).mp hc).2, ((hl b' c').mp hc').2]
      exact Nat.cast_le.mpr (upTo_mono recent hle)
  have htotal : IsTotal h recent.length := by
    refine ⟨⊤, (hl ⊤ _).mpr ⟨.inl rfl, by rw [upTo_top]⟩, fun b _ => le_top⟩
  have hreaching : Reaching h (p * recent.length) =
      {b | IsBucket bounds b ∧ p * recent.length ≤ upTo recent b} := by
    ext b
    constructor
    · rintro ⟨c, hc, hle⟩
      obtain ⟨hbucket, rfl⟩ := (hl b c).mp hc
      exact ⟨hbucket, hle⟩
    · rintro ⟨hbucket, hle⟩
      exact ⟨_, (hl b _).mpr ⟨hbucket, rfl⟩, hle⟩
  obtain ⟨i, b, hfound, hleast, _⟩ := exists_found hcumulative hp htotal
  rw [hreaching] at hleast
  exact ⟨i, b, hfound, hleast⟩

/-- No bucket holds no bound: the search has nothing to find. -/
theorem get_percentile_of_none {h : Histogram} (hl : ∀ b c, h.lookup b ≠ some c) (p : ℚ) :
    get_percentile h p = .ok none := by
  have hnil : sorted_buckets h = [] := by
    rw [List.eq_nil_iff_forall_not_mem]
    rintro ⟨b, c⟩ hmem
    exact hl b c (mem_sorted_buckets.mp hmem)
  unfold get_percentile
  rw [hnil]
  rfl

/-! ## The scrapes of a server -/

/-- The requests that the last scrape showed. -/
def newest (seen : List (List ℚ)) : List ℚ := seen.getLastD []

/-- The requests between the scrape a window before the last one, and the last one. -/
def recent (n : Nat) (seen : List (List ℚ)) : List ℚ :=
  rest (back [] seen.dropLast n) (newest seen)

/-- Some scrape showed the series of the server. -/
def Metrics.Known (m : Metrics) (seen : List (List ℚ)) : Prop :=
  ∃ latencies ∈ seen, m.Exposes latencies

/-- The texts are those of the server, after the requests of `seen` in turn. Its series stays
once it is there, and the server did not start again within the window. -/
structure Metrics.Watched (m : Metrics) (n : Nat) (texts : List String)
    (seen : List (List ℚ)) : Prop where
  shown : List.Forall₂ m.Shows seen texts
  stays : seen.Pairwise fun before after => m.Exposes before → m.Exposes after
  grows : back [] seen.dropLast n <+: newest seen

theorem scraped_of_shows {seen : List (List ℚ)} {texts : List String}
    (h : List.Forall₂ m.Shows seen texts) :
    ∃ hs, Scraped texts hs ∧ List.Forall₂ m.Tells seen hs := by
  induction h with
  | nil => exact ⟨[], ⟨by simp, rfl⟩, .nil⟩
  | cons hshows _ ih =>
    obtain ⟨hs, ⟨hne, hparse⟩, htells⟩ := ih
    obtain ⟨htext, new, hnew, hnewTells⟩ := parse_of_shows hshows
    refine ⟨new :: hs, ⟨?_, ?_⟩, .cons hnewTells htells⟩
    · rw [List.mem_cons, not_or]
      exact ⟨htext.symm, hne⟩
    · rw [List.map_cons, List.map_cons, hnew, hparse]

theorem keysGrow_of_tells {seen : List (List ℚ)} {hs : List Histogram}
    (h : List.Forall₂ m.Tells seen hs)
    (hstays : seen.Pairwise fun before after => m.Exposes before → m.Exposes after) :
    KeysGrow hs := by
  induction h with
  | nil => exact .nil
  | @cons latencies g seen hs hg hrest ih =>
    obtain ⟨hfirst, hstays⟩ := List.pairwise_cons.mp hstays
    refine .cons ?_ (ih hstays)
    intro g' hg' key hkey
    obtain ⟨i, hi⟩ := List.mem_iff_getElem?.mp hg'
    obtain ⟨later, hlater, (htells : m.Tells later g')⟩ := getElem?_of_forall₂ hrest.flip hi
    obtain ⟨hexposes, hbucket⟩ := hg.mem_iff.mp hkey
    exact htells.mem_iff.mpr ⟨hfirst later (List.mem_of_getElem? hlater) hexposes, hbucket⟩

/-- Once the series is there, the last scrape shows it. -/
theorem known_snoc {earlier : List (List ℚ)} {new : List ℚ}
    (h : (earlier ++ [new]).Pairwise fun before after => m.Exposes before → m.Exposes after) :
    m.Known (earlier ++ [new]) ↔ m.Exposes new := by
  constructor
  · rintro ⟨latencies, hmem, hexposes⟩
    rcases List.mem_append.mp hmem with hearlier | hnew
    · exact (List.pairwise_append.mp h).2.2 latencies hearlier new List.mem_cons_self hexposes
    · rwa [← List.mem_singleton.mp hnew]
  · exact fun hexposes => ⟨new, List.mem_append_right _ List.mem_cons_self, hexposes⟩

/-- The difference of a server that is watched counts the requests of the window. -/
theorem lookup_of_watched {n : Nat} {texts : List String} {seen : List (List ℚ)}
    {hs : List Histogram} (h : m.Watched n texts seen) (htells : List.Forall₂ m.Tells seen hs)
    (b : Bound) (c : ℚ) : (difference n hs).lookup b = some c ↔
      m.Known seen ∧ IsBucket m.bounds b ∧ c = (upTo (recent n seen) b : ℚ) := by
  rcases seen.eq_nil_or_concat' with rfl | ⟨earlier, new, rfl⟩
  · rw [List.forall₂_nil_left_iff.mp htells]
    refine ⟨fun hl => (by cases hl), ?_⟩
    rintro ⟨⟨_, hmem, _⟩, _⟩
    cases hmem
  · obtain ⟨hs, newest, rfl, hearlier, hnewest⟩ := exists_snoc_of_forall₂ htells
    have hgrow := keysGrow_of_tells htells h.stays
    have hgrows : back [] earlier n <+: new := by
      simpa [strategy.newest] using h.grows
    have hlast : ∀ b, IsBucket m.bounds b →
        (back ∅ hs n).get b 0 = (upTo (back [] earlier n) b : ℚ) :=
      back_of_forall₂ (R := fun latencies g => ∀ b, IsBucket m.bounds b →
        g.get b 0 = (upTo latencies b : ℚ)) (hearlier.imp fun _ _ hg _ => hg.get)
        (fun _ _ => rfl) n
    have hkeys : ∀ b ∈ back ∅ hs n, b ∈ newest := fun b hb =>
      (List.pairwise_append.mp hgrow).2.2 _ (back_mem hb) newest List.mem_cons_self b hb
    have hd : difference n (hs ++ [newest]) = newest.sub (back ∅ hs n) := by
      simp [difference]
    have hr : recent n (earlier ++ [new]) = rest (back [] earlier n) new := by
      simp [recent, strategy.newest]
    rw [hd, hr, known_snoc h.stays]
    exact lookup_difference hlast hkeys hnewest hgrows b c

/-! ## The score of a server -/

theorem bucket_pos {b : Bound} (h : IsBucket m.bounds b) : 0 < b := by
  rcases h with rfl | ⟨q, hq, rfl⟩
  · exact WithTop.coe_lt_top 0
  · exact WithTop.coe_lt_coe.mpr (m.bounds_pos q hq)

/-- The percentile of the requests of the window. -/
def Percentile (m : Metrics) (n : Nat) (seen : List (List ℚ)) (b : Bound) : Prop :=
  IsPercentile m.bounds (95 / 100) (recent n seen) b

/-- What the score of a server is: -1 before its series was seen, and then the percentile of
the requests of the window. -/
def ScoreIs (m : Metrics) (n : Nat) (seen : List (List ℚ)) (v : PyFloat) : Prop :=
  (¬m.Known seen ∧ v = .fin (-1)) ∨
    (m.Known seen ∧ ∃ b, v = .ofBound b ∧ Percentile m n seen b)

theorem score_of_watched {s : LeastBusy} {url : String} {n : Nat} {texts : List String}
    {seen : List (List ℚ)} (h : m.Watched n texts seen)
    (hslides : ∀ hs, Scraped texts hs → KeysGrow hs → Slides s.tracker url n hs) :
    ∃ v, s.get_server_score url = .ok v ∧ ScoreIs m n seen v := by
  obtain ⟨hs, hscraped, htells⟩ := scraped_of_shows h.shown
  obtain ⟨diff, hdiff, hl⟩ := (hslides hs hscraped (keysGrow_of_tells htells h.stays)).diff
  have hlookup : ∀ b c, diff.lookup b = some c ↔
      m.Known seen ∧ IsBucket m.bounds b ∧ c = (upTo (recent n seen) b : ℚ) := by
    intro b c
    rw [show diff.lookup b = (difference n hs).lookup b from congrFun hl b]
    exact lookup_of_watched h htells b c
  have hscore : ∀ r, get_percentile diff (95 / 100) = .ok r →
      s.get_server_score url = .ok (business_score r) := by
    intro r hr
    unfold LeastBusy.get_server_score
    simp only [hdiff, hr]
  by_cases hknown : m.Known seen
  · simp only [hknown, true_and] at hlookup
    obtain ⟨i, b, hp, hpercentile⟩ := get_percentile_of_counts (p := 95 / 100) (by norm_num) hlookup
    exact ⟨_, hscore _ hp, .inr ⟨hknown, b, rfl, hpercentile⟩⟩
  · have hnone : ∀ b c, diff.lookup b ≠ some c := fun b c hc => hknown ((hlookup b c).mp hc).1
    exact ⟨_, hscore _ (get_percentile_of_none hnone _), .inl ⟨hknown, rfl⟩⟩

/-- Exactly a server whose series was not seen has the score -1. -/
theorem ScoreIs.idle_iff {n : Nat} {seen : List (List ℚ)} {v : PyFloat}
    (h : ScoreIs m n seen v) : v = .fin (-1) ↔ ¬m.Known seen := by
  rcases h with ⟨hknown, rfl⟩ | ⟨hknown, b, rfl, hp⟩
  · exact iff_of_true rfl hknown
  · refine iff_of_false ?_ (not_not_intro hknown)
    have hpos := bucket_pos hp.1.1
    cases b using WithTop.recTopCoe with
    | top => exact fun he => (by cases he)
    | coe q =>
      intro he
      cases he
      exact absurd (WithTop.coe_lt_coe.mp hpos) (by norm_num)

theorem not_lt_ofBound {b b' : Bound} (h : (PyFloat.ofBound b').lt (.ofBound b) = false) :
    b ≤ b' := by
  cases b' using WithTop.recTopCoe with
  | top => exact le_top
  | coe q' =>
    cases b using WithTop.recTopCoe with
    | top => cases h
    | coe q =>
      have hle : ¬q' < q := of_decide_eq_false h
      exact WithTop.coe_le_coe.mpr (not_lt.mp hle)

end aristote_dispatcher.strategy
