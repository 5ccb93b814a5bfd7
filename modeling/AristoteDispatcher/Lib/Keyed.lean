-- Rows with a key that no two of them share: the row of a key, its change and its
-- removal. Nothing here names this repository.
import Mathlib.Data.List.Nodup
import Mathlib.Logic.Function.Basic

namespace keyed

variable {α κ : Type*} {key : α → κ} {rows before after : List α} {a : α} {k : κ}

/-- The key of a row is that of no other one. -/
theorem key_ne (h : ((before ++ a :: after).map key).Nodup) :
    ∀ x ∈ before ++ after, key x ≠ key a := by
  rw [List.map_append, List.map_cons, List.nodup_append, List.nodup_cons] at h
  obtain ⟨_, ⟨hafter, _⟩, hbefore⟩ := h
  intro x hx heq
  rcases List.mem_append.mp hx with hx | hx
  · exact hbefore (key x) (List.mem_map_of_mem hx) (key a) (List.mem_cons_self ..) heq
  · exact hafter (heq ▸ List.mem_map_of_mem hx)

/-- A new row of a new key. -/
theorem nodup_snoc (h : (rows.map key).Nodup) (hnew : ∀ x ∈ rows, key x ≠ key a) :
    ((rows ++ [a]).map key).Nodup := by
  rw [List.map_append, List.map_singleton]
  refine h.append (List.nodup_singleton _) ?_
  intro x hx ha
  obtain ⟨row, hrow, rfl⟩ := List.mem_map.mp hx
  exact hnew row hrow (List.mem_singleton.mp ha)

variable [DecidableEq κ]

/-- The first row of a key stands between rows of other keys. -/
theorem split_of_find (h : rows.find? (fun x => key x = k) = some a)
    (hnodup : (rows.map key).Nodup) :
    ∃ before after, rows = before ++ a :: after ∧ key a = k ∧
      ∀ x ∈ before ++ after, key x ≠ k := by
  obtain ⟨hkey, before, after, hrows, _⟩ := List.find?_eq_some_iff_append.mp h
  have hk : key a = k := by simpa using hkey
  refine ⟨before, after, hrows, hk, ?_⟩
  rw [hrows] at hnodup
  rw [← hk]
  exact key_ne hnodup

/-- A change of the row of a key. -/
theorem map_at (h : ((before ++ a :: after).map key).Nodup) (f : α → α) :
    (before ++ a :: after).map (fun x => if key x = key a then f x else x) =
      before ++ f a :: after := by
  have hne := key_ne h
  have hsame : ∀ l : List α, (∀ x ∈ l, key x ≠ key a) →
      l.map (fun x => if key x = key a then f x else x) = l := by
    intro l hl
    conv_rhs => rw [← List.map_id l]
    refine List.map_congr_left fun x hx => ?_
    rw [if_neg (hl x hx), id]
  rw [List.map_append, List.map_cons, if_pos rfl,
    hsame before fun x hx => hne x (List.mem_append_left _ hx),
    hsame after fun x hx => hne x (List.mem_append_right _ hx)]

/-- The removal of the row of a key. -/
theorem filter_at (h : ((before ++ a :: after).map key).Nodup) :
    (before ++ a :: after).filter (fun x => decide (key x ≠ key a)) = before ++ after := by
  have hne := key_ne h
  have hsame : ∀ l : List α, (∀ x ∈ l, key x ≠ key a) →
      l.filter (fun x => decide (key x ≠ key a)) = l := fun l hl =>
    List.filter_eq_self.mpr fun x hx => decide_eq_true (hl x hx)
  rw [List.filter_append, List.filter_cons_of_neg (by simp),
    hsame before fun x hx => hne x (List.mem_append_left _ hx),
    hsame after fun x hx => hne x (List.mem_append_right _ hx)]

/-! ## The rows as a map -/

def lookup (key : α → κ) (rows : List α) (k : κ) : Option α := rows.find? fun x => key x = k

theorem lookup_eq_none_iff : lookup key rows k = none ↔ ∀ x ∈ rows, key x ≠ k := by
  unfold lookup
  rw [List.find?_eq_none]
  simp

theorem lookup_at (h : ((before ++ a :: after).map key).Nodup) :
    lookup key (before ++ a :: after) (key a) = some a := by
  have hbefore : ∀ x ∈ before, key x ≠ key a := fun x hx =>
    key_ne h x (List.mem_append_left _ hx)
  rw [lookup, List.find?_append, List.find?_eq_none.mpr (by simpa using hbefore),
    List.find?_cons_of_pos (by simp), Option.none_or]

theorem lookup_eq_some_iff (h : (rows.map key).Nodup) :
    lookup key rows k = some a ↔ a ∈ rows ∧ key a = k := by
  constructor
  · intro hfind
    exact ⟨List.mem_of_find?_eq_some hfind, by simpa using List.find?_some hfind⟩
  · rintro ⟨ha, rfl⟩
    obtain ⟨before, after, rfl⟩ := List.append_of_mem ha
    exact lookup_at h

/-- A row does not count for the other keys. -/
theorem lookup_skip (hk : key a ≠ k) :
    lookup key (before ++ a :: after) k = lookup key (before ++ after) k := by
  unfold lookup
  rw [List.find?_append, List.find?_append, List.find?_cons_of_neg (by simpa using hk)]

theorem lookup_snoc (hnew : ∀ x ∈ rows, key x ≠ key a) :
    lookup key (rows ++ [a]) = Function.update (lookup key rows) (key a) (some a) := by
  funext k
  by_cases hk : k = key a
  · subst hk
    rw [Function.update_self, lookup, List.find?_append,
      List.find?_eq_none.mpr (by simpa using hnew), Option.none_or]
    exact List.find?_cons_of_pos (by simp)
  · rw [Function.update_of_ne hk, lookup_skip (Ne.symm hk), List.append_nil]

theorem lookup_remove (h : ((before ++ a :: after).map key).Nodup) :
    lookup key (before ++ after) =
      Function.update (lookup key (before ++ a :: after)) (key a) none := by
  funext k
  by_cases hk : k = key a
  · subst hk
    rw [Function.update_self]
    exact lookup_eq_none_iff.mpr (key_ne h)
  · rw [Function.update_of_ne hk, lookup_skip (Ne.symm hk)]

theorem lookup_replace (h : ((before ++ a :: after).map key).Nodup) {b : α} (hb : key b = key a) :
    lookup key (before ++ b :: after) =
      Function.update (lookup key (before ++ a :: after)) (key a) (some b) := by
  have hsame : ((before ++ b :: after).map key).Nodup := by
    rw [List.map_append, List.map_cons] at h ⊢
    rw [hb]
    exact h
  funext k
  by_cases hk : k = key a
  · subst hk
    rw [Function.update_self, ← hb]
    exact lookup_at hsame
  · rw [Function.update_of_ne hk, lookup_skip (Ne.symm hk), lookup_skip (hb ▸ Ne.symm hk)]

end keyed
