-- What every value that `json.loads` gives has: the keys of an object are distinct, and strings
-- are made of code points. And when such a value comes back from its own text as it was.
-- Nothing here names this repository.
import AristoteDispatcher.Lib.JsonText

open pyfloat

namespace json

/-! ## Values of a text -/

def PyStr.Valid (s : PyStr) : Prop := ∀ n ∈ s.codes, n < mark

mutual

def Json.Valid : Json → Prop
  | .null | .bool _ | .int _ | .float _ => True
  | .str s => s.Valid
  | .arr items => ValidItems items
  | .obj members => (members.map (·.1)).Nodup ∧ ValidPairs members

def ValidItems : List Json → Prop
  | [] => True
  | v :: vs => v.Valid ∧ ValidItems vs

def ValidPairs : List (PyStr × Json) → Prop
  | [] => True
  | (k, v) :: ms => k.Valid ∧ v.Valid ∧ ValidPairs ms

end

variable {members pairs : List (PyStr × Json)} {items : List Json} {k : PyStr} {v : Json}

theorem validItems_iff : ValidItems items ↔ ∀ v ∈ items, v.Valid := by
  induction items with
  | nil => exact iff_of_true trivial fun v hv => (by cases hv)
  | cons v vs ih => rw [ValidItems, List.forall_mem_cons, ih]

theorem validPairs_iff : ValidPairs members ↔ ∀ m ∈ members, m.1.Valid ∧ m.2.Valid := by
  induction members with
  | nil => exact iff_of_true trivial fun m hm => (by cases hm)
  | cons m ms ih =>
    rw [ValidPairs, List.forall_mem_cons, ih, and_assoc]

theorem validItems_reverse (h : ValidItems items) : ValidItems items.reverse :=
  validItems_iff.mpr fun v hv => validItems_iff.mp h v (List.mem_reverse.mp hv)

theorem validPairs_reverse (h : ValidPairs members) : ValidPairs members.reverse :=
  validPairs_iff.mpr fun m hm => validPairs_iff.mp h m (List.mem_reverse.mp hm)

/-- A key keeps its place, so keys stay distinct. -/
theorem nodup_setMember (h : (members.map (·.1)).Nodup) (k : PyStr) (v : Json) :
    ((setMember members k v).map (·.1)).Nodup := by
  by_cases hk : k ∈ members.map (·.1)
  · have hkeys : (setMember members k v).map (·.1) = members.map (·.1) := by
      have hany : members.any (·.1 = k) = true := by
        obtain ⟨m, hm, hmk⟩ := List.mem_map.mp hk
        exact List.any_eq_true.mpr ⟨m, hm, decide_eq_true hmk⟩
      rw [setMember, if_pos hany, List.map_map]
      refine List.map_congr_left fun m _ => ?_
      rw [Function.comp_apply]
      split
      · rename_i hmk
        exact hmk.symm
      · rfl
    rw [hkeys]
    exact h
  · rw [setMember_of_notMem hk, List.map_append, List.map_singleton]
    refine h.append (List.nodup_singleton _) fun x hx hxk => hk ?_
    obtain rfl : x = k := List.mem_singleton.mp hxk
    exact hx

theorem mem_setMember {m : PyStr × Json} (h : m ∈ setMember members k v) :
    m = (k, v) ∨ m ∈ members := by
  unfold setMember at h
  split at h
  · obtain ⟨m', hm', heq⟩ := List.mem_map.mp h
    split at heq
    · exact .inl heq.symm
    · exact .inr (heq ▸ hm')
  · rcases List.mem_append.mp h with h | h
    · exact .inr h
    · exact .inl (List.mem_singleton.mp h)

theorem nodup_dictOf (pairs : List (PyStr × Json)) : ((dictOf pairs).map (·.1)).Nodup := by
  induction pairs using List.reverseRecOn with
  | nil => exact List.nodup_nil
  | append_singleton pairs m ih =>
    rw [dictOf, List.foldl_append]
    exact nodup_setMember ih m.1 m.2

theorem mem_dictOf {m : PyStr × Json} (h : m ∈ dictOf pairs) : m ∈ pairs := by
  induction pairs using List.reverseRecOn with
  | nil => exact h
  | append_singleton pairs p ih =>
    rw [dictOf, List.foldl_append] at h
    rcases mem_setMember h with rfl | h
    · exact List.mem_append_right _ (List.mem_singleton_self _)
    · exact List.mem_append_left _ (ih h)

theorem valid_dictOf (h : ValidPairs pairs) : (Json.obj (dictOf pairs)).Valid :=
  ⟨nodup_dictOf pairs, validPairs_iff.mpr fun m hm => validPairs_iff.mp h m (mem_dictOf hm)⟩

/-! ## The parser -/

def Frame.Valid : Frame → Prop
  | .arr items => ValidItems items
  | .obj members key => ValidPairs members ∧ key.Valid

def State.Valid : State → Prop
  | .value stack | .firstItem stack | .firstKey stack => ∀ f ∈ stack, f.Valid
  | .key members stack => ValidPairs members ∧ ∀ f ∈ stack, f.Valid
  | .colon members k stack => ValidPairs members ∧ k.Valid ∧ ∀ f ∈ stack, f.Valid
  | .after v stack => v.Valid ∧ ∀ f ∈ stack, f.Valid

theorem valid_number {negative : Bool} {text : List Char} (h : number? negative text = some v) :
    v.Valid := by
  unfold number? at h
  simp only at h
  split at h
  · cases h
  · split at h
    · cases h
      trivial
    · split at h
      · cases h
      · obtain ⟨e, _, rfl⟩ := Option.map_eq_some_iff.mp h
        trivial
    · obtain ⟨e, _, rfl⟩ := Option.map_eq_some_iff.mp h
      trivial

theorem valid_atom {text : List Char} (h : atom? text = some v) : v.Valid := by
  unfold atom? at h
  split_ifs at h <;> try (cases h; trivial)
  split at h
  · exact valid_number h
  · exact valid_number h

variable {s s' : State} {t : Token} {stack : List Frame}

theorem valid_beginValue (h : beginValue stack t = some s) (ht : t.Small)
    (hstack : ∀ f ∈ stack, f.Valid) : s.Valid := by
  cases t with
  | lbrace =>
    cases h
    exact hstack
  | lbracket =>
    cases h
    exact hstack
  | str s =>
    cases h
    exact ⟨ht, hstack⟩
  | atom text =>
    obtain ⟨v, hv, rfl⟩ := Option.map_eq_some_iff.mp h
    exact ⟨valid_atom hv, hstack⟩
  | _ => cases h

/-- Every step keeps what is read valid. -/
theorem valid_parseStep (h : parseStep s t = some s') (ht : t.Small) (hs : s.Valid) :
    s'.Valid := by
  unfold parseStep at h
  split at h
  · exact valid_beginValue h ht hs
  · cases h
    exact ⟨trivial, hs⟩
  · exact valid_beginValue h ht (List.forall_mem_cons.mpr ⟨trivial, hs⟩)
  · cases h
    exact ⟨⟨List.nodup_nil, trivial⟩, hs⟩
  · cases h
    exact ⟨trivial, ht, hs⟩
  · cases h
    exact ⟨hs.1, ht, hs.2⟩
  · cases h
    exact List.forall_mem_cons.mpr ⟨⟨hs.1, hs.2.1⟩, hs.2.2⟩
  · cases h
    obtain ⟨hv, hstack⟩ := hs
    obtain ⟨hitems, hrest⟩ := List.forall_mem_cons.mp hstack
    exact List.forall_mem_cons.mpr ⟨⟨hv, hitems⟩, hrest⟩
  · rename_i v items _
    cases h
    obtain ⟨hv, hstack⟩ := hs
    obtain ⟨hitems, hrest⟩ := List.forall_mem_cons.mp hstack
    have hall : ValidItems (v :: items) := ⟨hv, hitems⟩
    exact ⟨validItems_reverse hall, hrest⟩
  · cases h
    obtain ⟨hv, hstack⟩ := hs
    obtain ⟨⟨hmembers, hkey⟩, hrest⟩ := List.forall_mem_cons.mp hstack
    exact ⟨⟨hkey, hv, hmembers⟩, hrest⟩
  · rename_i v members k _
    cases h
    obtain ⟨hv, hstack⟩ := hs
    obtain ⟨⟨hmembers, hkey⟩, hrest⟩ := List.forall_mem_cons.mp hstack
    have hall : ValidPairs ((k, v) :: members) := ⟨hkey, hv, hmembers⟩
    exact ⟨valid_dictOf (validPairs_reverse hall), hrest⟩
  · cases h

theorem valid_parseFrom {ts : List Token} (h : parseFrom s ts = some v)
    (hts : ∀ t ∈ ts, t.Small) (hs : s.Valid) : v.Valid := by
  induction ts generalizing s with
  | nil =>
    unfold parseFrom at h
    split at h
    · rename_i heq
      cases h
      exact hs.1
    · cases h
    · rename_i heq
      cases heq
  | cons t ts ih =>
    rw [parseFrom_cons] at h
    obtain ⟨s', hstep, hrest⟩ := Option.bind_eq_some_iff.mp h
    exact ih hrest (fun u hu => hts u (List.mem_cons_of_mem _ hu))
      (valid_parseStep hstep (hts t List.mem_cons_self) hs)

theorem valid_of_loads_str {s : PyStr} (h : loads_str s = some v) : v.Valid := by
  refine valid_parseFrom h (fun t ht => ?_) fun f hf => (by cases hf)
  obtain ⟨u, hu, rfl⟩ := List.mem_map.mp ht
  exact unmark_small (lexPoints_below (m := .idle) trivial s.codes u hu)

theorem valid_of_loads_bytes {b : ByteArray} (h : loads_bytes b = .ok v) : v.Valid := by
  unfold loads_bytes at h
  split at h
  · cases h
  · rename_i points _
    split at h
    · cases h
    · rename_i v' hparse
      cases h
      have hloads : loads_str ⟨points⟩ = some v := hparse
      exact valid_of_loads_str hloads

/-! ## What comes back as it was -/

/-- No half of a surrogate pair stands right before the other one. -/
def PyStr.Whole (s : PyStr) : Prop :=
  s.codes.IsChain fun h l => ¬ (isHigh h = true ∧ isLow l = true)

theorem length_combine_le (codes : List Nat) : (combine codes).length ≤ codes.length := by
  induction codes using combine.induct with
  | case1 h l r hpair ih =>
    rw [combine, if_pos hpair, List.length_cons, List.length_cons, List.length_cons]
    omega
  | case2 h l r hpair ih =>
    rw [combine, if_neg hpair, List.length_cons, List.length_cons]
    exact Nat.succ_le_succ ih
  | case3 h => exact le_refl _
  | case4 => exact le_refl _

theorem combine_eq_self_iff (codes : List Nat) : combine codes = codes ↔
    codes.IsChain fun h l => ¬ (isHigh h = true ∧ isLow l = true) := by
  induction codes using combine.induct with
  | case1 h l r hpair ih =>
    rw [combine, if_pos hpair, List.isChain_cons_cons]
    refine iff_of_false (fun heq => ?_) fun hchain => hchain.1 (Bool.and_eq_true_iff.mp hpair)
    have hlength := congrArg List.length heq
    have hle := length_combine_le r
    simp only [List.length_cons] at hlength
    omega
  | case2 h l r hpair ih =>
    rw [combine, if_neg hpair, List.isChain_cons_cons, List.cons.injEq, ← ih,
      and_iff_right rfl, and_iff_right fun hboth => hpair (Bool.and_eq_true_iff.mpr hboth)]
  | case3 h => exact iff_of_true rfl (List.isChain_singleton h)
  | case4 => exact iff_of_true rfl List.isChain_nil

theorem toNat_ofNat_of_valid {n : Nat} (h : ¬ (isHigh n || isLow n) = true) (hn : n < mark) :
    (Char.ofNat n).toNat = n := by
  have hvalid : n.isValidChar := by
    unfold mark at hn
    simp only [isHigh, isLow, Bool.or_eq_true, Bool.and_eq_true, decide_eq_true_eq] at h
    unfold Nat.isValidChar
    omega
  rw [Char.ofNat, dif_pos hvalid]
  rfl

/-- The units of a code point begin with a low half only if it is one. -/
theorem head_unitsOf {n : Nat} (hn : n < mark) :
    ∃ m r, unitsOf n = m :: r ∧ (isLow m = true → isLow n = true) := by
  unfold unitsOf
  split
  · exact ⟨n, [], rfl, id⟩
  · rename_i hnot
    rw [units, toNat_ofNat_of_valid hnot hn]
    split
    · exact ⟨n, [], rfl, id⟩
    · refine ⟨_, _, rfl, fun hlow => ?_⟩
      unfold mark at hn
      simp only [isLow, Bool.and_eq_true, decide_eq_true_eq] at hlow
      omega

theorem unitsOf_surrogate {n : Nat} (h : isHigh n = true ∨ isLow n = true) : unitsOf n = [n] :=
  if_pos (Bool.or_eq_true_iff.mpr h)

/-- The units of a string are put together as its code points. -/
theorem combine_unitsOf {codes : List Nat} (h : ∀ n ∈ codes, n < mark) :
    combine (codes.flatMap unitsOf) = combine codes := by
  have hone : ∀ n < mark, ¬ (isHigh n || isLow n) = true →
      ∀ r, combine (unitsOf n ++ r) = n :: combine r := by
    intro n hn hnot r
    rw [unitsOf, if_neg hnot, combine_units_append, toNat_ofNat_of_valid hnot hn]
  induction codes using combine.induct with
  | case1 a b r hpair ih =>
    obtain ⟨ha, hb⟩ := Bool.and_eq_true_iff.mp hpair
    rw [List.flatMap_cons, List.flatMap_cons, unitsOf_surrogate (.inl ha),
      unitsOf_surrogate (.inr hb), List.singleton_append, List.singleton_append, combine,
      if_pos hpair, combine, if_pos hpair,
      ih fun n hn => h n (List.mem_cons_of_mem _ (List.mem_cons_of_mem _ hn))]
  | case2 a b r hpair ih =>
    have hrest := ih fun n hn => h n (List.mem_cons_of_mem _ hn)
    have hnext : combine (a :: b :: r) = a :: combine (b :: r) := by rw [combine, if_neg hpair]
    rw [List.flatMap_cons, hnext, ← hrest]
    by_cases hsurrogate : (isHigh a || isLow a) = true
    · rw [unitsOf_surrogate (Bool.or_eq_true_iff.mp hsurrogate), List.singleton_append]
      obtain ⟨m, us, hunits, hlow⟩ := head_unitsOf (h b (by simp))
      have hnot : ¬ (isHigh a && isLow m) = true := by
        intro hboth
        obtain ⟨ha, hm⟩ := Bool.and_eq_true_iff.mp hboth
        exact hpair (Bool.and_eq_true_iff.mpr ⟨ha, hlow hm⟩)
      rw [List.flatMap_cons, hunits, List.cons_append, combine, if_neg hnot]
    · exact hone a (h a List.mem_cons_self) hsurrogate _
  | case3 a =>
    rw [List.flatMap_cons, List.flatMap_nil]
    by_cases hsurrogate : (isHigh a || isLow a) = true
    · rw [unitsOf_surrogate (Bool.or_eq_true_iff.mp hsurrogate)]
      rfl
    · exact hone a (h a List.mem_cons_self) hsurrogate []
  | case4 => rfl

theorem PyStr.reread_eq_iff {s : PyStr} (h : s.Valid) : s.reread = s ↔ s.Whole := by
  obtain ⟨codes⟩ := s
  rw [PyStr.reread, combine_unitsOf h, PyStr.mk.injEq, PyStr.Whole]
  exact combine_eq_self_iff codes

section

variable (float_repr : PyFloat → List Char)

mutual

/-- The digits of a float are kept, and every string is whole. -/
def Json.Kept : Json → Prop
  | .null | .bool _ | .int _ => True
  | .float f => readFloat (float_repr f) = f
  | .str s => s.Whole
  | .arr items => KeptItems items
  | .obj members => KeptPairs members

def KeptItems : List Json → Prop
  | [] => True
  | v :: vs => v.Kept ∧ KeptItems vs

def KeptPairs : List (PyStr × Json) → Prop
  | [] => True
  | (k, v) :: ms => k.Whole ∧ v.Kept ∧ KeptPairs ms

end

end

variable {float_repr : PyFloat → List Char}

theorem keptPairs_iff :
    KeptPairs float_repr members ↔ ∀ m ∈ members, m.1.Whole ∧ m.2.Kept float_repr := by
  induction members with
  | nil => exact iff_of_true trivial fun m hm => (by cases hm)
  | cons m ms ih =>
    rw [KeptPairs, List.forall_mem_cons, ih, and_assoc]

theorem length_rereadPairs (ms : List (PyStr × Json)) :
    (rereadPairs float_repr ms).length = ms.length := by
  induction ms with
  | nil => rfl
  | cons m ms ih => exact congrArg Nat.succ ih

theorem length_setMember (members : List (PyStr × Json)) (k : PyStr) (v : Json) :
    setMember members k v = members ++ [(k, v)] ∨
      (setMember members k v).length = members.length := by
  unfold setMember
  split
  · exact .inr (List.length_map _)
  · exact .inl rfl

theorem length_dictOf_le (pairs : List (PyStr × Json)) : (dictOf pairs).length ≤ pairs.length := by
  induction pairs using List.reverseRecOn with
  | nil => exact le_refl _
  | append_singleton pairs m ih =>
    have hfold : dictOf (pairs ++ [m]) = setMember (dictOf pairs) m.1 m.2 := by
      rw [dictOf, List.foldl_append]
      rfl
    rw [hfold, List.length_append, List.length_singleton]
    rcases length_setMember (dictOf pairs) m.1 m.2 with h | h
    · rw [h, List.length_append]
      exact Nat.succ_le_succ ih
    · omega

/-- Pairs of which none is lost are a dict as they are. -/
theorem dictOf_eq_of_length (h : (dictOf pairs).length = pairs.length) : dictOf pairs = pairs := by
  induction pairs using List.reverseRecOn with
  | nil => rfl
  | append_singleton pairs m ih =>
    have hfold : dictOf (pairs ++ [m]) = setMember (dictOf pairs) m.1 m.2 := by
      rw [dictOf, List.foldl_append]
      rfl
    have hle := length_dictOf_le pairs
    rw [hfold, List.length_append, List.length_singleton] at h
    rw [hfold]
    rcases length_setMember (dictOf pairs) m.1 m.2 with heq | hlength
    · rw [heq, List.length_append, List.length_singleton] at h
      rw [heq, ih (by omega)]
    · omega

mutual

/-- A value comes back from its text as it was exactly if all of it is kept. -/
theorem reread_eq_iff (v : Json) (h : v.Valid) : v.reread float_repr = v ↔ v.Kept float_repr := by
  cases v with
  | null => exact iff_of_true rfl trivial
  | bool b => exact iff_of_true rfl trivial
  | int i => exact iff_of_true rfl trivial
  | float f => exact Json.float.injEq _ _ ▸ Iff.rfl
  | str s =>
    rw [Json.reread, Json.str.injEq]
    exact s.reread_eq_iff h
  | arr items =>
    rw [Json.reread, Json.arr.injEq]
    exact rereadItems_eq_iff items h
  | obj members =>
    rw [Json.reread, Json.obj.injEq]
    have hpairs := rereadPairs_eq_iff members h.2
    constructor
    · intro heq
      have hlength : (dictOf (rereadPairs float_repr members)).length =
          (rereadPairs float_repr members).length := by
        rw [heq, length_rereadPairs]
      rw [dictOf_eq_of_length hlength] at heq
      exact hpairs.mp heq
    · intro hkept
      rw [hpairs.mpr hkept]
      exact dictOf_of_nodup h.1

theorem rereadItems_eq_iff (items : List Json) (h : ValidItems items) :
    rereadItems float_repr items = items ↔ KeptItems float_repr items := by
  cases items with
  | nil => exact iff_of_true rfl trivial
  | cons v vs =>
    rw [rereadItems, List.cons.injEq, KeptItems, reread_eq_iff v h.1, rereadItems_eq_iff vs h.2]

theorem rereadPairs_eq_iff (members : List (PyStr × Json)) (h : ValidPairs members) :
    rereadPairs float_repr members = members ↔ KeptPairs float_repr members := by
  cases members with
  | nil => exact iff_of_true rfl trivial
  | cons m ms =>
    obtain ⟨k, v⟩ := m
    rw [rereadPairs, List.cons.injEq, Prod.mk.injEq, KeptPairs, k.reread_eq_iff h.1,
      reread_eq_iff v h.2.1, rereadPairs_eq_iff ms h.2.2, and_assoc]

end

end json
