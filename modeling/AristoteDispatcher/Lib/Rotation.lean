-- Taking turns: the members of a list are picked in order, again and again. So
-- no member is ever more than one pick ahead of another. Nothing here names this
-- repository.
import Mathlib.Data.List.Basic
import Mathlib.Data.List.Nodup

namespace rotation

variable {α : Type*}

/-- The first `n` picks of the members of `xs` in turn: whole rounds, and the start of one. -/
def turns (xs : List α) (n : Nat) : List α :=
  (List.replicate (n / xs.length) xs).flatten ++ xs.take (n % xs.length)

theorem turns_zero (xs : List α) : turns xs 0 = [] := by
  simp [turns]

/-- The next pick is the member at the place of the number of picks. -/
theorem turns_succ {xs : List α} {n : Nat} (h : n % xs.length < xs.length) :
    turns xs (n + 1) = turns xs n ++ [xs[n % xs.length]] := by
  have hn := Nat.div_add_mod n xs.length
  unfold turns
  by_cases hlast : n % xs.length + 1 = xs.length
  · -- the round is complete
    have hsum : n + 1 = xs.length * (n / xs.length + 1) := by
      rw [Nat.mul_add, Nat.mul_one]
      omega
    have hdiv : (n + 1) / xs.length = n / xs.length + 1 := by
      rw [hsum, Nat.mul_div_cancel_left _ (by omega)]
    have hmod : (n + 1) % xs.length = 0 := by
      rw [hsum, Nat.mul_mod_right]
    have hround : xs.take (n % xs.length) ++ [xs[n % xs.length]] = xs := by
      rw [← List.take_succ_eq_append_getElem h, hlast, List.take_length]
    rw [hdiv, hmod, List.replicate_succ', List.flatten_append, List.append_assoc _ (xs.take _),
      hround]
    simp
  · have hlt : n % xs.length + 1 < xs.length := by omega
    have hsum : n + 1 = (n % xs.length + 1) + xs.length * (n / xs.length) := by omega
    have hdiv : (n + 1) / xs.length = n / xs.length := by
      rw [hsum, Nat.add_mul_div_left _ _ (by omega), Nat.div_eq_of_lt hlt, Nat.zero_add]
    have hmod : (n + 1) % xs.length = n % xs.length + 1 := by
      rw [hsum, Nat.add_mul_mod_self_left, Nat.mod_eq_of_lt hlt]
    rw [hdiv, hmod, List.take_succ_eq_append_getElem h, List.append_assoc]

variable [DecidableEq α]

/-- A member was picked once in each whole round, and once more if the last round came to it. -/
theorem count_turns {xs : List α} (hnodup : xs.Nodup) {x : α} (hx : x ∈ xs) (n : Nat) :
    (turns xs n).count x =
      n / xs.length + if x ∈ xs.take (n % xs.length) then 1 else 0 := by
  have htake : (xs.take (n % xs.length)).Nodup := (List.take_sublist _ _).nodup hnodup
  unfold turns
  rw [List.count_append, List.count_flatten, List.map_replicate, List.sum_replicate_nat,
    List.count_eq_one_of_mem hnodup hx, Nat.mul_one, htake.count]

/-- No member is more than one pick ahead of another. -/
theorem turns_fair {xs : List α} (hnodup : xs.Nodup) {x y : α} (hx : x ∈ xs) (hy : y ∈ xs)
    (n : Nat) : (turns xs n).count x ≤ (turns xs n).count y + 1 := by
  rw [count_turns hnodup hx, count_turns hnodup hy]
  split
  · omega
  · omega

/-- A second start in the middle of a round puts the first member two picks ahead of the last. -/
theorem restart_unfair {xs : List α} (hnodup : xs.Nodup) {n : Nat} (hn : n % xs.length ≠ 0)
    (h : 0 < xs.length) :
    (turns xs n ++ [xs[0]]).count (xs[xs.length - 1]) + 1 <
      (turns xs n ++ [xs[0]]).count xs[0] := by
  have hmod : n % xs.length < xs.length := Nat.mod_lt n h
  have hfirst : xs[0] ∈ xs.take (n % xs.length) :=
    List.mem_take_iff_getElem.mpr ⟨0, by omega, rfl⟩
  have hlast : xs[xs.length - 1] ∉ xs.take (n % xs.length) := by
    intro hmem
    obtain ⟨i, hi, heq⟩ := List.mem_take_iff_getElem.mp hmem
    have := (List.Nodup.getElem_inj_iff hnodup).mp heq
    omega
  have hne : xs[0] ≠ xs[xs.length - 1] := by
    intro heq
    have := (List.Nodup.getElem_inj_iff hnodup).mp heq
    omega
  rw [List.count_append, List.count_append, count_turns hnodup (List.getElem_mem _),
    count_turns hnodup (List.getElem_mem _), if_pos hfirst, if_neg hlast,
    List.count_singleton_self, List.count_singleton, if_neg (by simpa using hne)]
  omega

end rotation
