-- Tasks that stand at the places of a list: one goes on in its place, one ends
-- and leaves it. Nothing here names this repository.
import Mathlib.Algebra.GroupWithZero.Nat
import Mathlib.Data.List.Basic
import Mathlib.Data.List.Perm.Basic

namespace places

variable {α σ : Type*} {l : List α} {i : Nat} {a x y : α}

/-- A step of the task at a place, under a condition. -/
theorem guarded_eq_some {o : Option α} {p : α → Prop} [DecidablePred p] {f : α → σ} {s : σ}
    (h : (o.bind fun a => if p a then some (f a) else none) = some s) :
    ∃ a, o = some a ∧ p a ∧ f a = s := by
  obtain ⟨a, ha, h⟩ := Option.bind_eq_some_iff.mp h
  obtain ⟨hp, hs⟩ := Option.ite_none_right_eq_some.mp h
  exact ⟨a, ha, hp, Option.some.inj hs⟩

/-- Two different tasks stand at two places. -/
theorem place_ne {j : Nat} (hi : l[i]? = some a) (hj : l[j]? = some x) (hne : x ≠ a) : i ≠ j := by
  rintro rfl
  rw [hi] at hj
  exact hne (Option.some.inj hj).symm

/-- The end of a task leaves the others. -/
theorem mem_eraseIdx_of_ne (hi : l[i]? = some a) (hx : x ∈ l) (hne : x ≠ a) :
    x ∈ l.eraseIdx i := by
  obtain ⟨j, hj⟩ := List.mem_iff_getElem?.mp hx
  exact List.mem_eraseIdx_iff_getElem?.mpr ⟨j, (place_ne hi hj hne).symm, hj⟩

/-- A task that goes on leaves the others. -/
theorem mem_set_of_ne (hi : l[i]? = some a) (hx : x ∈ l) (hne : x ≠ a) : x ∈ l.set i y := by
  obtain ⟨j, hj⟩ := List.mem_iff_getElem?.mp hx
  refine List.mem_iff_getElem?.mpr ⟨j, ?_⟩
  rw [List.getElem?_set_ne (place_ne hi hj hne), hj]

/-- A place after one task went on: it is that of this task, or it is as before. -/
theorem getElem?_set_cases {j : Nat} (h : (l.set i y)[j]? = some x) :
    (i = j ∧ x = y) ∨ (i ≠ j ∧ l[j]? = some x) := by
  by_cases hij : i = j
  · subst hij
    have hlt := (List.getElem?_eq_some_iff.mp h).1
    rw [List.length_set] at hlt
    rw [List.getElem?_set_self hlt] at h
    exact .inl ⟨rfl, (Option.some.inj h).symm⟩
  · rw [List.getElem?_set_ne hij] at h
    exact .inr ⟨hij, h⟩

theorem getElem?_set_place (hi : l[i]? = some a) : (l.set i y)[i]? = some y :=
  List.getElem?_set_self (List.getElem?_eq_some_iff.mp hi).1

/-- A place after one task came: it is behind the others, or it is as before. -/
theorem getElem?_snoc (h : (l ++ [a])[i]? = some x) :
    l[i]? = some x ∨ (l.length ≤ i ∧ x = a) := by
  rw [List.getElem?_append] at h
  split at h
  · exact .inl h
  · rename_i hlt
    exact .inr ⟨Nat.le_of_not_lt hlt, List.mem_singleton.mp (List.mem_of_getElem? h)⟩

theorem getElem?_snoc_of_some (hi : l[i]? = some x) : (l ++ [a])[i]? = some x :=
  (List.getElem?_append_left (List.getElem?_eq_some_iff.mp hi).1).trans hi

/-- The count of a kind of tasks when one ends. -/
theorem countP_eraseIdx (p : α → Bool) (h : l[i]? = some a) :
    l.countP p = (l.eraseIdx i).countP p + if p a then 1 else 0 := by
  obtain ⟨hlt, rfl⟩ := List.getElem?_eq_some_iff.mp h
  calc l.countP p = (l.take i ++ l[i] :: l.drop (i + 1)).countP p := by
        rw [← List.drop_eq_getElem_cons hlt, List.take_append_drop]
    _ = (l.eraseIdx i).countP p + if p l[i] then 1 else 0 := by
        rw [List.eraseIdx_eq_take_drop_succ, List.countP_append, List.countP_append,
          List.countP_cons, Nat.add_assoc]

/-- A task that goes on as one of the same kind leaves the count. -/
theorem countP_set_of_eq (p : α → Bool) (h : l[i]? = some a) (hp : p y = p a) :
    (l.set i y).countP p = l.countP p := by
  obtain ⟨hlt, hget⟩ := List.getElem?_eq_some_iff.mp h
  have hcount := countP_eraseIdx p h
  rw [List.countP_set hlt, hget, hp]
  omega

/-- The count of a kind of tasks when one goes on. -/
theorem countP_set_add (p : α → Bool) (h : l[i]? = some a) :
    (l.set i y).countP p + (if p a then 1 else 0) = l.countP p + if p y then 1 else 0 := by
  obtain ⟨hlt, rfl⟩ := List.getElem?_eq_some_iff.mp h
  have hcount := countP_eraseIdx p h
  rw [List.countP_set hlt]
  omega

/-- The count of a kind when one item is taken out. -/
theorem countP_erase [BEq α] [LawfulBEq α] (p : α → Bool) (h : a ∈ l) :
    l.countP p = (l.erase a).countP p + if p a then 1 else 0 := by
  rw [(List.perm_cons_erase h).countP_eq p, List.countP_cons]

/-- A task that goes on with less left to do takes from the sum. -/
theorem sum_map_set_lt {f : α → Nat} (h : l[i]? = some a) (hlt : f y < f a) :
    ((l.set i y).map f).sum < (l.map f).sum := by
  induction l generalizing i with
  | nil => cases h
  | cons b l ih =>
    cases i with
    | zero =>
      cases h
      simpa using hlt
    | succ i =>
      rw [List.getElem?_cons_succ] at h
      simpa using ih h

theorem sum_map_le {f g : α → Nat} (h : ∀ x, f x ≤ g x) : (l.map f).sum ≤ (l.map g).sum := by
  induction l with
  | nil => exact Nat.le_refl _
  | cons b l ih =>
    have := h b
    simp only [List.map_cons, List.sum_cons]
    omega

/-! ## A list beside another -/

variable {β : Type*} {R : α → β → Prop} {k : List β} {b : β}

/-- Each task has something that stands at its place. -/
theorem getElem?_of_forall₂ (h : List.Forall₂ R l k) (hi : l[i]? = some a) :
    ∃ b, k[i]? = some b ∧ R a b := by
  induction h generalizing i with
  | nil => cases hi
  | @cons x y l k hxy _ ih =>
    cases i with
    | zero =>
      cases hi
      exact ⟨y, rfl, hxy⟩
    | succ i => exact ih hi

/-- A task goes on, and so does what stands beside it. -/
theorem forall₂_set (h : List.Forall₂ R l k) (hxb : R x b) :
    List.Forall₂ R (l.set i x) (k.set i b) := by
  induction h generalizing i with
  | nil => exact .nil
  | cons hxy hrest ih =>
    cases i with
    | zero => exact .cons hxb hrest
    | succ i => exact .cons hxy ih

/-- A task ends, and what stands beside it does too. -/
theorem forall₂_eraseIdx (h : List.Forall₂ R l k) :
    List.Forall₂ R (l.eraseIdx i) (k.eraseIdx i) := by
  induction h generalizing i with
  | nil => exact .nil
  | cons hxy hrest ih =>
    cases i with
    | zero => exact hrest
    | succ i => exact .cons hxy ih

/-- Beside a list with one more task stands one with one more. -/
theorem exists_snoc_of_forall₂ (h : List.Forall₂ R (l ++ [a]) k) :
    ∃ k' b, k = k' ++ [b] ∧ List.Forall₂ R l k' ∧ R a b := by
  induction l generalizing k with
  | nil =>
    obtain ⟨b, u, hab, hu, rfl⟩ := List.forall₂_cons_left_iff.mp h
    rw [List.forall₂_nil_left_iff.mp hu]
    exact ⟨[], b, rfl, .nil, hab⟩
  | cons x l ih =>
    obtain ⟨y, u, hxy, hu, rfl⟩ := List.forall₂_cons_left_iff.mp h
    obtain ⟨k', b, rfl, hrest, hab⟩ := ih hu
    exact ⟨y :: k', b, rfl, .cons hxy hrest, hab⟩

end places
