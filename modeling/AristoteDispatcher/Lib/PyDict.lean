-- Python dicts, as Mathlib's association lists: every key at most once. Two
-- dicts with the same lookups are equal in Python, whatever the order of their
-- entries.
import Mathlib.Data.List.AList
import Mathlib.Data.List.Dedup

namespace pydict

/-- A Python dict. -/
abbrev Dict (K V : Type*) := AList (fun _ : K => V)

variable {K V : Type*} [DecidableEq K]

/-- `d.get(k, default)`. -/
def Dict.get (d : Dict K V) (k : K) (default : V) : V := (d.lookup k).getD default

/-- `d.update(other)`. -/
def Dict.update (d other : Dict K V) : Dict K V := other ∪ d

/-- `{k: f(k) for k in ks}`. -/
def Dict.ofKeys (ks : List K) (f : K → V) : Dict K V where
  entries := ks.dedup.map fun k => ⟨k, f k⟩
  nodupKeys := by
    rw [List.NodupKeys, List.keys, List.map_map]
    simpa [Function.comp_def] using ks.nodup_dedup

/-- `d.items()`. -/
def Dict.items (d : Dict K V) : List (K × V) := d.entries.map fun e => (e.1, e.2)

omit [DecidableEq K] in
theorem Dict.mem_items_iff {d : Dict K V} {k : K} {v : V} :
    (k, v) ∈ d.items ↔ Sigma.mk k v ∈ d.entries := by
  unfold Dict.items
  rw [List.mem_map]
  constructor
  · rintro ⟨⟨a, b⟩, he, heq⟩
    cases heq
    exact he
  · intro h
    exact ⟨_, h, rfl⟩

theorem Dict.mem_items_iff_lookup {d : Dict K V} {k : K} {v : V} :
    (k, v) ∈ d.items ↔ d.lookup k = some v := by
  rw [Dict.mem_items_iff, ← Option.mem_def, AList.mem_lookup_iff]

theorem Dict.lookup_update (d other : Dict K V) (k : K) :
    (d.update other).lookup k = (other.lookup k).or (d.lookup k) := by
  unfold Dict.update
  by_cases h : k ∈ other
  · rw [AList.lookup_union_left h]
    obtain ⟨v, hv⟩ := Option.isSome_iff_exists.mp (AList.lookup_isSome.mpr h)
    simp [hv]
  · rw [AList.lookup_union_right h, AList.lookup_eq_none.mpr h]
    rfl

theorem Dict.mem_update {d other : Dict K V} {k : K} :
    k ∈ d.update other ↔ k ∈ other ∨ k ∈ d := AList.mem_union

theorem Dict.mem_ofKeys {ks : List K} {f : K → V} {k : K} : k ∈ Dict.ofKeys ks f ↔ k ∈ ks := by
  rw [AList.mem_keys, AList.keys, List.keys, Dict.ofKeys, List.map_map]
  simp [Function.comp_def]

theorem Dict.lookup_ofKeys (ks : List K) (f : K → V) (k : K) :
    (Dict.ofKeys ks f).lookup k = if k ∈ ks then some (f k) else none := by
  split
  · rename_i h
    rw [← Option.mem_def, AList.mem_lookup_iff, Dict.ofKeys]
    simpa using h
  · rename_i h
    rw [AList.lookup_eq_none, Dict.mem_ofKeys]
    exact h

theorem Dict.lookup_insert_eq (d : Dict K V) (k k' : K) (v : V) :
    (d.insert k v).lookup k' = if k' = k then some v else d.lookup k' := by
  split
  · rename_i h
    rw [h, AList.lookup_insert]
  · rename_i h
    rw [AList.lookup_insert_ne h]

theorem Dict.exists_of_mem {d : Dict K V} {k : K} (h : k ∈ d) : ∃ v, d.lookup k = some v :=
  Option.isSome_iff_exists.mp (AList.lookup_isSome.mpr h)

theorem Dict.mem_of_lookup {d : Dict K V} {k : K} {v : V} (h : d.lookup k = some v) : k ∈ d :=
  AList.lookup_isSome.mp (by simp [h])

end pydict
