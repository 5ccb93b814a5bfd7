-- Leases: a key that is granted is held until it is released or the timer of a grant of it
-- fires. A timer fires when its term is over, or a little later. Nothing here names this
-- repository.
import Mathlib.Data.Set.Insert
import AristoteDispatcher.Lib.Places
import AristoteDispatcher.Lib.Runs

open runs places

namespace leases

variable {κ : Type*}

/-- What was done with a key. A grant stands with its time. -/
inductive Entry (κ : Type*)
  | granted (k : κ) (time : Nat)
  | released (k : κ)
  deriving DecidableEq

/-- The keys that are held, the timers with the times they started, and what was done so far. -/
structure Book (κ : Type*) where
  held : Set κ
  timers : List (κ × Nat)
  now : Nat
  history : List (Entry κ)

def Book.empty : Book κ := ⟨∅, [], 0, []⟩

inductive Event (κ : Type*)
  | grant (k : κ)
  | release (k : κ)
  | fire (i : Nat)
  | tick (n : Nat)

/-- No timer fires before its term, and none is later than `lag`. -/
def Book.step (term lag : Nat) (b : Book κ) : Event κ → Option (Book κ)
  | .grant k => some { b with
      held := insert k b.held
      timers := b.timers ++ [(k, b.now)]
      history := b.history ++ [.granted k b.now] }
  | .release k => some { b with held := b.held \ {k}, history := b.history ++ [.released k] }
  | .fire i => b.timers[i]?.bind fun t =>
    if t.2 + term ≤ b.now then
      some { b with held := b.held \ {t.1}, timers := b.timers.eraseIdx i }
    else none
  | .tick n =>
    if ∀ t ∈ b.timers, b.now + n ≤ t.2 + term + lag then some { b with now := b.now + n }
    else none

/-! ## The grant that stands -/

variable [DecidableEq κ]

/-- What an entry does to the grant of a key. -/
def Entry.stands (k : κ) (before : Option Nat) : Entry κ → Option Nat
  | .granted k' time => if k' = k then some time else before
  | .released k' => if k' = k then none else before

/-- The last grant of a key, if it was not released since. -/
def standing (history : List (Entry κ)) (k : κ) : Option Nat :=
  history.foldl (Entry.stands k) none

theorem standing_snoc (history : List (Entry κ)) (e : Entry κ) (k : κ) :
    standing (history ++ [e]) k = e.stands k (standing history k) := by
  simp [standing, List.foldl_append]

theorem granted_of_standing {history : List (Entry κ)} {k : κ} {t : Nat}
    (h : standing history k = some t) : .granted k t ∈ history := by
  induction history using List.reverseRecOn with
  | nil => cases h
  | append_singleton history e ih =>
    rw [standing_snoc] at h
    cases e with
    | granted k' time =>
      simp only [Entry.stands] at h
      split at h
      · rename_i heq
        cases h
        simp [heq]
      · exact List.mem_append_left _ (ih h)
    | released k' =>
      simp only [Entry.stands] at h
      split at h
      · cases h
      · exact List.mem_append_left _ (ih h)

/-- A grant stands in some form until a release. -/
theorem standing_of_granted {history : List (Entry κ)} {k : κ} {t : Nat}
    (h : .granted k t ∈ history) (hkept : .released k ∉ history) :
    ∃ t', standing history k = some t' := by
  induction history using List.reverseRecOn with
  | nil => cases h
  | append_singleton history e ih =>
    rw [standing_snoc]
    have hbefore : .released k ∉ history := fun hr => hkept (List.mem_append_left _ hr)
    cases e with
    | granted k' time =>
      by_cases heq : k' = k
      · exact ⟨time, if_pos heq⟩
      · rw [Entry.stands, if_neg heq]
        rcases List.mem_append.mp h with hold | hlast
        · exact ih hold hbefore
        · cases List.mem_singleton.mp hlast
          exact absurd rfl heq
    | released k' =>
      have hne : k' ≠ k := by
        rintro rfl
        exact hkept (List.mem_append_right _ (List.mem_singleton_self _))
      rw [Entry.stands, if_neg hne]
      rcases List.mem_append.mp h with hold | hlast
      · exact ih hold hbefore
      · cases List.mem_singleton.mp hlast

/-! ## The invariant -/

variable {term lag : Nat} {b b' : Book κ} {k : κ}

/-- A held key has a grant that stands, and the timer of that grant runs; a grant that stands
and is not held was overtaken by the timer of a grant of the same key. -/
structure Sound (term lag : Nat) (b : Book κ) : Prop where
  timers : ∀ t ∈ b.timers, .granted t.1 t.2 ∈ b.history ∧ b.now ≤ t.2 + term + lag
  held : ∀ k ∈ b.held, ∃ t, standing b.history k = some t ∧ (k, t) ∈ b.timers
  overtaken : ∀ k t, standing b.history k = some t →
    k ∈ b.held ∨ ∃ t', .granted k t' ∈ b.history ∧ t' + term ≤ b.now

omit [DecidableEq κ] in
theorem mem_history_snoc {history : List (Entry κ)} {e : Entry κ} {k : κ} {P : Nat → Prop}
    (h : ∃ t, .granted k t ∈ history ∧ P t) : ∃ t, .granted k t ∈ history ++ [e] ∧ P t := by
  obtain ⟨t, ht, hp⟩ := h
  exact ⟨t, List.mem_append_left _ ht, hp⟩

theorem sound_empty (term lag : Nat) : Sound term lag (.empty : Book κ) :=
  ⟨fun _ h => (by cases h), fun _ h => (by cases h), fun _ _ h => (by cases h)⟩

theorem sound_grant (h : Sound term lag b) (k : κ) : Sound term lag { b with
    held := insert k b.held
    timers := b.timers ++ [(k, b.now)]
    history := b.history ++ [.granted k b.now] } where
  timers := by
    intro t ht
    rcases List.mem_append.mp ht with ht | ht
    · exact ⟨List.mem_append_left _ (h.timers t ht).1, (h.timers t ht).2⟩
    · cases List.mem_singleton.mp ht
      exact ⟨by simp, by dsimp only; omega⟩
  held := by
    intro k' hk'
    dsimp only
    rw [standing_snoc, Entry.stands]
    by_cases heq : k = k'
    · subst heq
      exact ⟨b.now, if_pos rfl, by simp⟩
    · obtain ⟨t, hstands, ht⟩ := h.held k' (Set.mem_of_mem_insert_of_ne hk' (Ne.symm heq))
      exact ⟨t, by rw [if_neg heq, hstands], List.mem_append_left _ ht⟩
  overtaken := by
    intro k' t hstands
    dsimp only at hstands ⊢
    rw [standing_snoc, Entry.stands] at hstands
    split at hstands
    · rename_i heq
      exact .inl (heq ▸ Set.mem_insert k b.held)
    · exact (h.overtaken k' t hstands).imp (Set.mem_insert_of_mem k) mem_history_snoc

theorem sound_release (h : Sound term lag b) (k : κ) : Sound term lag { b with
    held := b.held \ {k}, history := b.history ++ [.released k] } where
  timers t ht := ⟨List.mem_append_left _ (h.timers t ht).1, (h.timers t ht).2⟩
  held := by
    rintro k' ⟨hk', hne⟩
    obtain ⟨t, hstands, ht⟩ := h.held k' hk'
    dsimp only
    rw [standing_snoc, Entry.stands, if_neg (Ne.symm hne)]
    exact ⟨t, hstands, ht⟩
  overtaken := by
    intro k' t hstands
    dsimp only at hstands ⊢
    rw [standing_snoc, Entry.stands] at hstands
    split at hstands
    · cases hstands
    · rename_i hne
      exact (h.overtaken k' t hstands).imp (fun hk' => ⟨hk', Ne.symm hne⟩) mem_history_snoc

theorem sound_fire (h : Sound term lag b) {i : Nat} {t : κ × Nat} (ht : b.timers[i]? = some t)
    (hover : t.2 + term ≤ b.now) : Sound term lag { b with
      held := b.held \ {t.1}, timers := b.timers.eraseIdx i } where
  timers t' ht' := h.timers t' (List.mem_of_mem_eraseIdx ht')
  held := by
    rintro k' ⟨hk', hne⟩
    obtain ⟨time, hstands, hmem⟩ := h.held k' hk'
    exact ⟨time, hstands, mem_eraseIdx_of_ne ht hmem fun heq => hne (congrArg Prod.fst heq)⟩
  overtaken := by
    intro k' time hstands
    by_cases heq : k' = t.1
    · subst heq
      exact .inr ⟨t.2, (h.timers t (List.mem_of_getElem? ht)).1, hover⟩
    · exact (h.overtaken k' time hstands).imp_left fun hk' => ⟨hk', heq⟩

theorem sound_tick (h : Sound term lag b) {n : Nat}
    (hn : ∀ t ∈ b.timers, b.now + n ≤ t.2 + term + lag) :
    Sound term lag { b with now := b.now + n } where
  timers t ht := ⟨(h.timers t ht).1, hn t ht⟩
  held := h.held
  overtaken := by
    intro k t hstands
    refine (h.overtaken k t hstands).imp_right ?_
    rintro ⟨t', ht', hover⟩
    exact ⟨t', ht', by dsimp only; omega⟩

theorem sound_step {e : Event κ} (h : Sound term lag b) (hs : b.step term lag e = some b') :
    Sound term lag b' := by
  cases e with
  | grant k =>
    cases hs
    exact sound_grant h k
  | release k =>
    cases hs
    exact sound_release h k
  | fire i =>
    obtain ⟨t, ht, hover, rfl⟩ := guarded_eq_some hs
    exact sound_fire h ht hover
  | tick n =>
    obtain ⟨hn, hs⟩ := Option.ite_none_right_eq_some.mp hs
    cases hs
    exact sound_tick h hn

theorem sound_run {es : List (Event κ)} (h : Run (Book.step term lag) Any .empty es b) :
    Sound term lag b :=
  h.invariant (sound_empty term lag) fun _ _ _ hi _ hs => sound_step hi hs

/-! ## What holds of each key -/

/-- A held key was granted within the term and the lag, and not released since. -/
theorem Sound.standing_of_held (h : Sound term lag b) (hk : k ∈ b.held) :
    ∃ t, standing b.history k = some t ∧ b.now ≤ t + term + lag := by
  obtain ⟨t, hstands, ht⟩ := h.held k hk
  exact ⟨t, hstands, (h.timers _ ht).2⟩

/-- A key is held if its last grant was not released and the term of no grant is over. -/
theorem Sound.held_of_standing (h : Sound term lag b) {t : Nat}
    (hstands : standing b.history k = some t)
    (hrecent : ∀ t', .granted k t' ∈ b.history → b.now < t' + term) : k ∈ b.held := by
  refine (h.overtaken k t hstands).resolve_right ?_
  rintro ⟨t', ht', hover⟩
  have := hrecent t' ht'
  omega

/-- The key of a grant that is not older than that. -/
def Entry.recent? (age now : Nat) : Entry κ → Option κ
  | .granted k time => if now ≤ time + age then some k else none
  | .released _ => none

/-- The held keys are among those of the grants within the term and the lag. -/
theorem Sound.mem_recent_of_held (h : Sound term lag b) (hk : k ∈ b.held) :
    k ∈ b.history.filterMap (Entry.recent? (term + lag) b.now) := by
  obtain ⟨t, hstands, ht⟩ := h.standing_of_held hk
  exact List.mem_filterMap.mpr ⟨_, granted_of_standing hstands, if_pos (by omega)⟩

end leases
