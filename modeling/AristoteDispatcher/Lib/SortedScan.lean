-- A table sorted by its keys, and the scan for the first entry whose value
-- passes a test. Nothing here names this repository.
import Mathlib.Data.List.Sort
import Mathlib.Order.Bounds.Basic

namespace sortedscan

variable {K V : Type*} [LinearOrder K] {l m : List (K × V)}

/-- The keys grow strictly. -/
def Sorted (l : List (K × V)) : Prop := l.Pairwise fun a b => a.1 < b.1

/-- The keys whose value passes the test. -/
def Passing (l : List (K × V)) (q : V → Prop) : Set K := {k | ∃ v, (k, v) ∈ l ∧ q v}

/-- A table sorted by insertion, when no key comes twice. -/
theorem sorted_insertionSort (h : (l.map (·.1)).Nodup) :
    Sorted (l.insertionSort fun a b => a.1 ≤ b.1) := by
  have hle : (l.insertionSort fun a b => a.1 ≤ b.1).Pairwise fun a b => a.1 ≤ b.1 :=
    List.pairwise_insertionSort (fun a b : K × V => a.1 ≤ b.1) l
  have hperm := List.perm_insertionSort (fun a b : K × V => a.1 ≤ b.1) l
  have hkeys : ((l.insertionSort fun a b => a.1 ≤ b.1).map (·.1)).Nodup :=
    (hperm.map (·.1)).nodup_iff.mpr h
  have hne : (l.insertionSort fun a b => a.1 ≤ b.1).Pairwise fun a b => a.1 ≠ b.1 :=
    List.pairwise_map.mp hkeys
  exact List.Pairwise.imp₂ (fun _ _ => lt_of_le_of_ne) hle hne

theorem Sorted.nodup (hl : Sorted l) : l.Nodup := by
  refine List.Pairwise.imp ?_ hl
  rintro a b hab rfl
  exact lt_irrefl _ hab

/-- Two sorted tables with the same entries are the same. -/
theorem Sorted.eq_of_mem_iff (hl : Sorted l) (hm : Sorted m) (h : ∀ e, e ∈ l ↔ e ∈ m) : l = m := by
  have hp : l.Perm m := (List.perm_ext_iff_of_nodup hl.nodup hm.nodup).mpr h
  exact hp.eq_of_pairwise (fun a b _ _ hab hba => absurd hab (lt_asymm hba)) hl hm

/-- The place of an entry is the number of smaller keys. -/
theorem Sorted.countP_lt {i : Nat} {k : K} {v : V} (hl : Sorted l) (hi : l[i]? = some (k, v)) :
    l.countP (fun e => e.1 < k) = i := by
  induction l generalizing i with
  | nil => cases hi
  | cons e l ih =>
    obtain ⟨hhead, htail⟩ := List.pairwise_cons.mp hl
    cases i with
    | zero =>
      rw [List.getElem?_cons_zero, Option.some.injEq] at hi
      subst hi
      have hnone : l.countP (fun e => e.1 < k) = 0 := by
        rw [List.countP_eq_zero]
        intro a ha
        have := hhead a ha
        simpa using le_of_lt this
      simp [hnone]
    | succ i =>
      rw [List.getElem?_cons_succ] at hi
      have hlt : e.1 < k := hhead _ (List.mem_of_getElem? hi)
      simp [ih htail hi, hlt]

/-- What the scan returns: the least key that passes, and the number of smaller keys. -/
theorem Sorted.find_zipIdx {q : V → Bool} {k : K} {v : V} {i : Nat} (hl : Sorted l)
    (h : l.zipIdx.find? (fun e => q e.1.2) = some ((k, v), i)) :
    IsLeast (Passing l fun v => q v) k ∧ i = l.countP fun e => e.1 < k := by
  obtain ⟨hq, j, hj, hat, hbefore⟩ := List.find?_eq_some_iff_getElem.mp h
  rw [List.getElem_zipIdx, Prod.mk.injEq, Nat.zero_add] at hat
  obtain ⟨hjk, rfl⟩ := hat
  have hlt : j < l.length := by simpa using hj
  have hplace : l[j]? = some (k, v) := by rw [List.getElem?_eq_getElem hlt, hjk]
  refine ⟨⟨⟨v, List.mem_of_getElem? hplace, hq⟩, ?_⟩, (hl.countP_lt hplace).symm⟩
  rintro k' ⟨v', hmem, hq'⟩
  obtain ⟨m, hm, hmk⟩ := List.mem_iff_getElem.mp hmem
  -- An entry before the first hit fails the test, so this one stands behind it.
  have hle : j ≤ m := by
    by_contra hcon
    have hm' := hbefore m (by omega)
    simp [hmk, hq'] at hm'
  rcases Nat.eq_or_lt_of_le hle with rfl | hlt'
  · rw [hjk, Prod.mk.injEq] at hmk
    exact le_of_eq hmk.1
  · have := List.pairwise_iff_getElem.mp hl j m hlt hm hlt'
    rw [hjk, hmk] at this
    exact le_of_lt this

omit [LinearOrder K] in
/-- The scan finds an entry as soon as one passes. -/
theorem find_zipIdx_isSome {q : V → Bool} {k : K} {v : V} (hmem : (k, v) ∈ l) (hq : q v) :
    ∃ e, l.zipIdx.find? (fun e => q e.1.2) = some e := by
  obtain ⟨i, hi, he⟩ := List.mem_iff_getElem.mp hmem
  have hz : ((k, v), i) ∈ l.zipIdx := by
    rw [List.mem_zipIdx_iff_getElem?, List.getElem?_eq_getElem hi, he]
  have hsome : (l.zipIdx.find? fun e => q e.1.2).isSome := List.find?_isSome.mpr ⟨_, hz, hq⟩
  exact Option.isSome_iff_exists.mp hsome

/-- The last entry has the largest key. -/
theorem Sorted.le_getLast {e : K × V} (hl : Sorted l) (he : l.getLast? = some e) :
    ∀ a ∈ l, a.1 ≤ e.1 := by
  obtain ⟨ys, rfl⟩ := List.getLast?_eq_some_iff.mp he
  intro a ha
  rcases List.mem_append.mp ha with hy | hy
  · exact le_of_lt ((List.pairwise_append.mp hl).2.2 a hy e (List.mem_singleton_self e))
  · rw [List.mem_singleton.mp hy]

end sortedscan
