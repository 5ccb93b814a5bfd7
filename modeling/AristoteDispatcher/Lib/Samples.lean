-- Samples counted into cumulative buckets, and the bucket of a percentile. The counts
-- of a history minus those of its beginning are the counts of its rest.
import Mathlib.Algebra.Order.Field.Rat
import Mathlib.Data.List.Infix
import Mathlib.Order.Bounds.Basic
import Mathlib.Order.WithBot

namespace samples

variable {α : Type*} [LinearOrder α]

/-- How many samples are at most the bound. -/
def upTo (xs : List α) (b : WithTop α) : ℕ := xs.countP fun x : α => (x : WithTop α) ≤ b

/-- The bound is one of the finite ones, or the one above all. -/
def IsBucket (bounds : List α) (b : WithTop α) : Prop := b = ⊤ ∨ ∃ q ∈ bounds, b = q

/-- The least bucket that holds the part `p` of the samples. -/
def IsPercentile (bounds : List α) (p : ℚ) (xs : List α) (b : WithTop α) : Prop :=
  IsLeast {b | IsBucket bounds b ∧ p * xs.length ≤ upTo xs b} b

/-- The samples behind the first ones. -/
def rest (old new : List α) : List α := new.drop old.length

theorem upTo_append (xs ys : List α) (b : WithTop α) :
    upTo (xs ++ ys) b = upTo xs b + upTo ys b := List.countP_append

@[simp] theorem upTo_top (xs : List α) : upTo xs ⊤ = xs.length := by
  unfold upTo
  rw [List.countP_eq_length]
  intro x _
  simp

theorem upTo_mono (xs : List α) {b b' : WithTop α} (h : b ≤ b') : upTo xs b ≤ upTo xs b' := by
  unfold upTo
  apply List.countP_mono_left
  intro x _ hx
  rw [decide_eq_true_eq] at hx ⊢
  exact hx.trans h

theorem upTo_le_length (xs : List α) (b : WithTop α) : upTo xs b ≤ xs.length :=
  List.countP_le_length

/-- The counts of a window are the difference of two counts. -/
theorem upTo_rest {old new : List α} (h : old <+: new) (b : WithTop α) :
    (upTo new b : ℚ) - upTo old b = upTo (rest old new) b := by
  obtain ⟨recent, rfl⟩ := h
  unfold rest
  rw [List.drop_left, upTo_append, Nat.cast_add, add_sub_cancel_left]

theorem IsPercentile.unique {bounds xs : List α} {p : ℚ} {b b' : WithTop α}
    (h : IsPercentile bounds p xs b) (h' : IsPercentile bounds p xs b') : b = b' :=
  IsLeast.unique h h'

end samples
