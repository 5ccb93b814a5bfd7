-- A ring of `n` slots that is written in turn holds the last `n` values of a
-- history. So the slot that the next write takes holds the value `n` writes
-- back.
import Mathlib.Data.List.Forall2
import Mathlib.Data.List.GetD
import Mathlib.Data.Nat.ModEq

namespace window

variable {α : Type*} {n : Nat} {d : α} {ring xs : List α}

/-- The value `n` writes back in a history, and `d` when the history is shorter. -/
def back (d : α) (xs : List α) (n : Nat) : α :=
  if xs.length < n then d else xs.getD (xs.length - n) d

/-- The ring after the writes of `xs`: write `i` went to slot `i % n`, and a slot that
no write took holds `d`. -/
structure Holds (n : Nat) (d : α) (ring xs : List α) : Prop where
  length : ring.length = n
  recent : ∀ i < xs.length, xs.length ≤ i + n → ring[i % n]? = xs[i]?
  unused : ∀ j < n, xs.length ≤ j → ring[j]? = some d

theorem holds_start (n : Nat) (d : α) : Holds n d (List.replicate n d) [] := by
  refine ⟨by simp, ?_, ?_⟩
  · intro i hi
    simp at hi
  · intro j hj _
    simp [hj]

/-- The slot of the next write holds the value `n` writes back. -/
theorem Holds.evicts (h : Holds n d ring xs) (hn : 0 < n) :
    ring[xs.length % n]? = some (back d xs n) := by
  unfold back
  split
  · rename_i hlt
    rw [Nat.mod_eq_of_lt hlt]
    exact h.unused _ hlt (Nat.le_refl _)
  · rename_i hge
    have hmod : xs.length % n = (xs.length - n) % n := by
      rw [Nat.mod_eq_sub_mod (by omega)]
    have hlt : xs.length - n < xs.length := by omega
    rw [hmod, h.recent _ hlt (by omega), List.getD_eq_getElem _ _ hlt,
      List.getElem?_eq_getElem hlt]

/-- Two histories that are related write by write are so a window back. -/
theorem back_of_forall₂ {β : Type*} {R : α → β → Prop} {e : β} {ys : List β}
    (h : List.Forall₂ R xs ys) (hd : R d e) (n : Nat) : R (back d xs n) (back e ys n) := by
  have hget : ∀ i, R (xs.getD i d) (ys.getD i e) := by
    intro i
    induction h generalizing i with
    | nil => exact hd
    | cons hxy _ ih =>
      cases i with
      | zero => exact hxy
      | succ i => exact ih i
  unfold back
  rw [h.length_eq]
  split
  · exact hd
  · exact hget _

/-- Two writes less than a turn apart take two slots. -/
theorem slot_ne {i k : Nat} (hik : i < k) (hki : k < i + n) : i % n ≠ k % n := by
  intro he
  have h0 : (k - i) % n = 0 := Nat.sub_mod_eq_zero_of_mod_eq he.symm
  rw [Nat.mod_eq_of_lt (by omega)] at h0
  omega

theorem Holds.push (h : Holds n d ring xs) (hn : 0 < n) (x : α) :
    Holds n d (ring.set (xs.length % n) x) (xs ++ [x]) := by
  have hslot : xs.length % n < ring.length := by
    rw [h.length]
    exact Nat.mod_lt _ hn
  refine ⟨by rw [List.length_set, h.length], ?_, ?_⟩
  · intro i hi hin
    rw [List.length_append, List.length_singleton] at hi hin
    rcases Nat.lt_succ_iff_lt_or_eq.mp hi with hlt | rfl
    · have hne := slot_ne (n := n) hlt (by omega)
      rw [List.getElem?_set_ne (Ne.symm hne), List.getElem?_append_left hlt]
      exact h.recent i hlt (by omega)
    · rw [List.getElem?_set_self hslot]
      simp
  · intro j hj hlen
    rw [List.length_append, List.length_singleton] at hlen
    have hne : xs.length % n ≠ j := by
      rw [Nat.mod_eq_of_lt (by omega)]
      omega
    rw [List.getElem?_set_ne hne]
    exact h.unused j hj (by omega)

end window
