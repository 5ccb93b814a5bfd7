-- The percentile search (LeastBusy.get_percentile): over cumulative counts it
-- finds the least bound that reaches the percentile, whatever the order of the
-- buckets, and the bound grows with the percentile and shrinks with the counts.
import AristoteDispatcher.Lib.SortedScan
import AristoteDispatcher.Strategy

open pydict sortedscan
open aristote_dispatcher.settings aristote_dispatcher.histogram

namespace aristote_dispatcher.strategy

/-- The counts are at least zero and do not decrease as the bound grows. -/
structure Cumulative (h : Histogram) : Prop where
  nonneg : ∀ b c, h.lookup b = some c → 0 ≤ c
  mono : ∀ b c b' c', h.lookup b = some c → h.lookup b' = some c' → b ≤ b' → c ≤ c'

/-- The count of the largest bound. -/
def IsTotal (h : Histogram) (total : ℚ) : Prop :=
  ∃ b, h.lookup b = some total ∧ ∀ b' ∈ h, b' ≤ b

/-- The bounds whose count is at least a number of requests. -/
def Reaching (h : Histogram) (requests : ℚ) : Set Bound :=
  {b | ∃ c, h.lookup b = some c ∧ requests ≤ c}

/-- The number of bounds below one. -/
def smaller (h : Histogram) (b : Bound) : Nat := h.keys.countP fun k => k < b

/-- The search found the bound of the percentile and its index. -/
def Found (h : Histogram) (percentile total : ℚ) (i : Nat) (b : Bound) : Prop :=
  get_percentile h percentile = .ok (some (i, b)) ∧
    IsLeast (Reaching h (percentile * total)) b ∧ i = smaller h b

theorem sorted_sorted_buckets (h : Histogram) : Sorted (sorted_buckets h) := by
  unfold sorted_buckets
  apply sorted_insertionSort
  unfold Dict.items
  rw [List.map_map]
  exact h.nodupKeys

/-- The buckets in order are given by the lookups alone. -/
theorem sorted_buckets_congr {h h' : Histogram} (hl : ∀ b, h'.lookup b = h.lookup b) :
    sorted_buckets h' = sorted_buckets h := by
  apply (sorted_sorted_buckets h').eq_of_mem_iff (sorted_sorted_buckets h)
  rintro ⟨b, c⟩
  rw [mem_sorted_buckets, mem_sorted_buckets, hl]

/-- The search reads the buckets in order, so the order of insertion does not matter. -/
theorem get_percentile_congr {h h' : Histogram} (hl : ∀ b, h'.lookup b = h.lookup b)
    (percentile : ℚ) : get_percentile h' percentile = get_percentile h percentile := by
  unfold get_percentile
  rw [sorted_buckets_congr hl]

theorem passing_sorted_buckets (h : Histogram) (requests : ℚ) :
    Passing (sorted_buckets h) (fun c => decide (requests ≤ c)) = Reaching h requests := by
  ext b
  unfold Passing Reaching
  simp only [Set.mem_ofPred_eq, mem_sorted_buckets, decide_eq_true_eq]

theorem countP_sorted_buckets (h : Histogram) (b : Bound) :
    (sorted_buckets h).countP (fun e => e.1 < b) = smaller h b := by
  unfold sorted_buckets smaller
  rw [(List.perm_insertionSort _ _).countP_eq]
  unfold Dict.items AList.keys List.keys
  rw [List.countP_map, List.countP_map]
  rfl

/-- A non-empty histogram has a last bucket, which has the count of the largest bound. -/
theorem getLast?_sorted_buckets {h : Histogram} (hne : h.keys ≠ []) :
    ∃ b total, (sorted_buckets h).getLast? = some (b, total) ∧
      h.lookup b = some total ∧ ∀ b' ∈ h, b' ≤ b := by
  obtain ⟨k, hk⟩ := List.exists_mem_of_ne_nil _ hne
  obtain ⟨v, hv⟩ := Dict.exists_of_mem (AList.mem_keys.mpr hk)
  have hnil : sorted_buckets h ≠ [] := List.ne_nil_of_mem (mem_sorted_buckets.mpr hv)
  cases hl : (sorted_buckets h).getLast? with
  | none => exact absurd (List.getLast?_eq_none_iff.mp hl) hnil
  | some e =>
    obtain ⟨b, total⟩ := e
    refine ⟨b, total, rfl, mem_sorted_buckets.mp (List.mem_of_getLast? hl), ?_⟩
    intro b' hb'
    obtain ⟨c, hc⟩ := Dict.exists_of_mem hb'
    exact (sorted_sorted_buckets h).le_getLast hl _ (mem_sorted_buckets.mpr hc)

theorem IsTotal.unique {h : Histogram} {t t' : ℚ} (ht : IsTotal h t) (ht' : IsTotal h t') :
    t = t' := by
  obtain ⟨b, hb, hmax⟩ := ht
  obtain ⟨b', hb', hmax'⟩ := ht'
  have heq : b = b' :=
    le_antisymm (hmax' b (Dict.mem_of_lookup hb)) (hmax b' (Dict.mem_of_lookup hb'))
  rw [heq, hb'] at hb
  exact (Option.some.inj hb).symm

theorem exists_isTotal {h : Histogram} (hne : h.keys ≠ []) : ∃ t, IsTotal h t := by
  obtain ⟨b, t, _, hb, hmax⟩ := getLast?_sorted_buckets hne
  exact ⟨t, b, hb, hmax⟩

/-- The search finds the bound: the last bucket reaches any part of its own count. -/
theorem exists_found {h : Histogram} {percentile total : ℚ} (hc : Cumulative h)
    (h1 : percentile ≤ 1) (ht : IsTotal h total) : ∃ i b, Found h percentile total i b := by
  have hne : h.keys ≠ [] := by
    obtain ⟨bt, hbt, _⟩ := ht
    exact List.ne_nil_of_mem (AList.mem_keys.mp (Dict.mem_of_lookup hbt))
  obtain ⟨bl, total', hlast, hbl, hmax⟩ := getLast?_sorted_buckets hne
  have heq : total' = total := IsTotal.unique ⟨bl, hbl, hmax⟩ ht
  subst heq
  have hreach : percentile * total' ≤ total' := mul_le_of_le_one_left (hc.nonneg bl _ hbl) h1
  obtain ⟨⟨⟨b, c⟩, i⟩, hf⟩ := find_zipIdx_isSome (q := fun c => decide (percentile * total' ≤ c))
    (mem_sorted_buckets.mpr hbl) (decide_eq_true hreach)
  obtain ⟨hleast, hi⟩ := (sorted_sorted_buckets h).find_zipIdx
    (q := fun c => decide (percentile * total' ≤ c)) hf
  rw [passing_sorted_buckets] at hleast
  rw [countP_sorted_buckets] at hi
  refine ⟨i, b, ?_, hleast, hi⟩
  unfold get_percentile
  simp only [hlast, hf]

/-- A larger percentile asks for at least as many requests. -/
theorem reaching_mono {h : Histogram} {p p' total : ℚ} (ht : 0 ≤ total) (hp : p ≤ p') :
    Reaching h (p' * total) ⊆ Reaching h (p * total) := by
  rintro b ⟨c, hc, hle⟩
  exact ⟨c, hc, le_trans (mul_le_mul_of_nonneg_right hp ht) hle⟩

/-- Larger counts over the same bounds reach as many requests. -/
theorem reaching_of_counts {h h' : Histogram} {requests : ℚ}
    (hc : ∀ b c, h.lookup b = some c → ∃ c', h'.lookup b = some c' ∧ c ≤ c') :
    Reaching h requests ⊆ Reaching h' requests := by
  rintro b ⟨c, hb, hle⟩
  obtain ⟨c', hb', hcc⟩ := hc b c hb
  exact ⟨c', hb', le_trans hle hcc⟩

/-- For cumulative counts and a percentile below 1 the search does not raise. It
finds the least bound that reaches the percentile of the total, in any order of the
buckets; a larger percentile gives no smaller bound, and larger counts with the same total
give no larger one. -/
theorem get_percentile_correct_and_monotone (h : Histogram) (p : ℚ) (hne : h.keys ≠ [])
    (hc : Cumulative h) (hp1 : p < 1) :
    ∃ total i b, IsTotal h total ∧ Found h p total i b ∧
      (∀ h' : Histogram, (∀ k, h'.lookup k = h.lookup k) →
        get_percentile h' p = .ok (some (i, b))) ∧
      (∀ p', p ≤ p' → p' < 1 →
        ∃ i' b', get_percentile h p' = .ok (some (i', b')) ∧ b ≤ b') ∧
      (∀ h1 : Histogram, Cumulative h1 → (∀ k, k ∈ h1 ↔ k ∈ h) → IsTotal h1 total →
        (∀ k c c1, h.lookup k = some c → h1.lookup k = some c1 → c ≤ c1) →
        ∃ i1 b1, get_percentile h1 p = .ok (some (i1, b1)) ∧ b1 ≤ b) := by
  obtain ⟨total, ht⟩ := exists_isTotal hne
  obtain ⟨i, b, hfound⟩ := exists_found hc (le_of_lt hp1) ht
  have hleast := hfound.2.1
  have hnonneg : 0 ≤ total := by
    obtain ⟨bt, hbt, _⟩ := ht
    exact hc.nonneg bt total hbt
  refine ⟨total, i, b, ht, hfound, ?_, ?_, ?_⟩
  · intro h' hl
    rw [get_percentile_congr hl]
    exact hfound.1
  · intro p' hp hp'
    obtain ⟨i', b', hf', hleast', _⟩ := exists_found hc (le_of_lt hp') ht
    exact ⟨i', b', hf', hleast'.mono hleast (reaching_mono hnonneg hp)⟩
  · intro h1 hc1 hkeys ht1 hcounts
    obtain ⟨i1, b1, hf1, hleast1, _⟩ := exists_found hc1 (le_of_lt hp1) ht1
    refine ⟨i1, b1, hf1, hleast.mono hleast1 (reaching_of_counts ?_)⟩
    intro k c hk
    obtain ⟨c1, hk1⟩ := Dict.exists_of_mem ((hkeys k).mpr (Dict.mem_of_lookup hk))
    exact ⟨c1, hk1, hcounts k c c1 hk hk1⟩

/-- A request within half a second and a second one within two, inserted out of order. -/
def two_requests : Histogram := ((∅ : Histogram).insert ⊤ 2).insert ((1 / 2 : ℚ) : Bound) 1

theorem lookup_two_requests (b : Bound) :
    two_requests.lookup b =
      if b = ((1 / 2 : ℚ) : Bound) then some 1 else if b = ⊤ then some 2 else none := by
  unfold two_requests
  rw [Dict.lookup_insert_eq, Dict.lookup_insert_eq, AList.lookup_empty]

theorem cumulative_two_requests : Cumulative two_requests := by
  constructor
  · intro b c h
    rw [lookup_two_requests] at h
    split_ifs at h <;> cases h <;> norm_num
  · intro b c b' c' h h' hle
    rw [lookup_two_requests] at h h'
    by_cases hb : b = ((1 / 2 : ℚ) : Bound)
    · rw [if_pos hb] at h
      split_ifs at h' <;> cases h <;> cases h' <;> norm_num
    · have htop : b = ⊤ := by
        by_contra hne
        rw [if_neg hb, if_neg hne] at h
        cases h
      have htop' : b' = ⊤ := top_le_iff.mp (htop ▸ hle)
      rw [htop] at h
      rw [htop', h] at h'
      exact le_of_eq (Option.some.inj h')

theorem get_percentile_correct_and_monotone_two :
    ∃ total i b, IsTotal two_requests total ∧ Found two_requests (95 / 100) total i b := by
  obtain ⟨total, i, b, ht, hf, _⟩ := get_percentile_correct_and_monotone two_requests (95 / 100)
    (by simp [two_requests]) cumulative_two_requests (by norm_num)
  exact ⟨total, i, b, ht, hf⟩

end aristote_dispatcher.strategy
