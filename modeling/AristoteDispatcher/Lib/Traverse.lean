-- A list that is read member by member into a result: all values in their order, or the error
-- of the first member that has one. Nothing here names this repository.
import Mathlib.Data.List.Forall2

namespace traverse

variable {α β ε : Type*} {f : α → Except ε β} {x : α} {xs : List α} {y : β} {ys : List β} {e : ε}

theorem mapM_cons_error (h : f x = .error e) : (x :: xs).mapM f = .error e := by
  rw [List.mapM_cons, h]
  rfl

theorem mapM_cons_ok_iff (h : f x = .ok y) :
    (x :: xs).mapM f = .ok ys ↔ ∃ ys', xs.mapM f = .ok ys' ∧ ys = y :: ys' := by
  rw [List.mapM_cons, h]
  cases xs.mapM f with
  | error e => simp [bind, Except.bind]
  | ok ys' => simp [bind, Except.bind, pure, Except.pure, eq_comm]

/-- The values are those of the members, one by one. -/
theorem mapM_ok_iff : xs.mapM f = .ok ys ↔ List.Forall₂ (fun x y => f x = .ok y) xs ys := by
  induction xs generalizing ys with
  | nil =>
    rw [List.forall₂_nil_left_iff]
    constructor
    · intro h
      cases h
      rfl
    · rintro rfl
      rfl
  | cons x xs ih =>
    rw [List.forall₂_cons_left_iff]
    cases hx : f x with
    | error e => simp [mapM_cons_error hx]
    | ok y =>
      rw [mapM_cons_ok_iff hx]
      simp only [Except.ok.injEq, exists_and_left, exists_eq_left', ih]

theorem exists_mapM_ok (h : ∀ x ∈ xs, ∃ y, f x = .ok y) : ∃ ys, xs.mapM f = .ok ys := by
  induction xs with
  | nil => exact ⟨[], rfl⟩
  | cons x xs ih =>
    obtain ⟨⟨y, hx⟩, hxs⟩ := List.forall_mem_cons.mp h
    obtain ⟨ys, hys⟩ := ih hxs
    exact ⟨y :: ys, (mapM_cons_ok_iff hx).mpr ⟨ys, hys, rfl⟩⟩

/-- With an error among them, the result is that of a member. -/
theorem mapM_error (hx : x ∈ xs) (he : f x = .error e) :
    ∃ x' ∈ xs, ∃ e', f x' = .error e' ∧ xs.mapM f = .error e' := by
  induction xs with
  | nil => cases hx
  | cons head xs ih =>
    cases hhead : f head with
    | error e' => exact ⟨head, List.mem_cons_self, e', hhead, mapM_cons_error hhead⟩
    | ok y =>
      rcases List.mem_cons.mp hx with rfl | hx
      · rw [he] at hhead
        cases hhead
      · obtain ⟨x', hx', e', he', herror⟩ := ih hx
        refine ⟨x', List.mem_cons_of_mem _ hx', e', he', ?_⟩
        rw [List.mapM_cons, hhead, herror]
        rfl

theorem exists_mapM_ok_iff : (∃ ys, xs.mapM f = .ok ys) ↔ ∀ x ∈ xs, ∃ y, f x = .ok y := by
  refine ⟨?_, exists_mapM_ok⟩
  rintro ⟨ys, hys⟩ x hx
  cases hfx : f x with
  | ok y => exact ⟨y, rfl⟩
  | error e =>
    obtain ⟨_, _, e', _, herror⟩ := mapM_error hx hfx
    rw [hys] at herror
    cases herror

/-- The values, without their order. -/
theorem mem_of_mapM (h : xs.mapM f = .ok ys) : y ∈ ys ↔ ∃ x ∈ xs, f x = .ok y := by
  have hvalues := mapM_ok_iff.mp h
  clear h
  induction hvalues with
  | nil => simp
  | @cons x value xs ys hx _ ih =>
    rw [List.mem_cons, List.exists_mem_cons_iff, hx, Except.ok.injEq]
    exact or_congr eq_comm ih

/-- What each value keeps of its member. -/
theorem map_of_mapM {γ : Type*} {g : β → γ} {k : α → γ} (hg : ∀ x y, f x = .ok y → g y = k x)
    (h : xs.mapM f = .ok ys) : ys.map g = xs.map k := by
  have hvalues := mapM_ok_iff.mp h
  clear h
  induction hvalues with
  | nil => rfl
  | cons hx _ ih => rw [List.map_cons, List.map_cons, ih, hg _ _ hx]

end traverse
