-- Python floats in exact arithmetic, the double that a value is rounded to, and
-- `float(text)` on the texts made of decimal digits, `+`, `.` and letters. Python
-- takes every Unicode decimal digit here, not only the ASCII ones.
import Mathlib.Data.Rat.Defs
import Mathlib.Algebra.Order.Field.Rat
import Mathlib.Order.WithBot
import Mathlib.Tactic.Linarith
import Mathlib.Tactic.Ring
import Mathlib.Tactic.Positivity

namespace pyfloat

/-- A Python float, or the exact value of a text that writes one. -/
inductive PyFloat
  | nan
  | negInf
  | fin (q : ℚ)
  | posInf
  deriving DecidableEq, Repr

/-- `a < b` of Python: false as soon as one side is a NaN. -/
def PyFloat.lt : PyFloat → PyFloat → Bool
  | .fin a, .fin b => decide (a < b)
  | .negInf, .fin _ | .negInf, .posInf | .fin _, .posInf => true
  | _, _ => false

/-- A number that is finite or `inf`, as a float. -/
def PyFloat.ofBound : WithTop ℚ → PyFloat
  | none => .posInf
  | some q => .fin q

/-- `a == b` of Python. -/
def PyFloat.eq (a b : PyFloat) : Bool := a ≠ .nan && a = b

/-- `a <= b` of Python. -/
def PyFloat.le (a b : PyFloat) : Bool := a.lt b || a.eq b

/-- `min(values)`: the first of the least ones. Python raises a ValueError on no values. -/
def minimum : List PyFloat → Option PyFloat
  | [] => none
  | x :: xs => some (xs.foldl (fun least v => if v.lt least then v else least) x)

theorem foldl_least_mem (x : PyFloat) (xs : List PyFloat) :
    xs.foldl (fun least v => if v.lt least then v else least) x ∈ x :: xs := by
  induction xs generalizing x with
  | nil => simp
  | cons y ys ih =>
    rw [List.foldl_cons]
    have h := ih (if y.lt x then y else x)
    rcases List.mem_cons.mp h with he | hm
    · rw [he]
      split <;> simp
    · simp [hm]

theorem minimum_mem {xs : List PyFloat} {v : PyFloat} (h : minimum xs = some v) : v ∈ xs := by
  cases xs with
  | nil => cases h
  | cons x xs =>
    cases h
    exact foldl_least_mem x xs

theorem exists_minimum {xs : List PyFloat} (h : xs ≠ []) : ∃ v, minimum xs = some v := by
  cases xs with
  | nil => exact absurd rfl h
  | cons x xs => exact ⟨_, rfl⟩

theorem not_lt_trans {a b c : PyFloat} (hb : b ≠ .nan) (hab : a.lt b = false)
    (hbc : b.lt c = false) : a.lt c = false := by
  cases a <;> cases b <;> cases c <;> simp_all only [PyFloat.lt, reduceCtorEq, ne_eq,
    not_true_eq_false, not_false_eq_true, decide_eq_false_iff_not, not_lt]
  exact hbc.trans hab

theorem not_lt_of_lt {a b : PyFloat} (h : a.lt b = true) : b.lt a = false := by
  cases a <;> cases b <;> simp_all only [PyFloat.lt, Bool.false_eq_true, decide_eq_true_eq,
    decide_eq_false_iff_not, not_lt]
  exact h.le

theorem not_lt_of_le {a b : PyFloat} (h : a.le b = true) : b.lt a = false := by
  rcases Bool.or_eq_true_iff.mp h with hlt | heq
  · exact not_lt_of_lt hlt
  · obtain ⟨_, hab⟩ := Bool.and_eq_true_iff.mp heq
    rw [of_decide_eq_true hab]
    cases b <;> simp [PyFloat.lt]

theorem foldl_least_le {x : PyFloat} {xs : List PyFloat} (hn : ∀ v ∈ x :: xs, v ≠ .nan) :
    ∀ v ∈ x :: xs,
      v.lt (xs.foldl (fun least v => if v.lt least then v else least) x) = false := by
  induction xs generalizing x with
  | nil =>
    intro v hv
    cases List.mem_singleton.mp hv
    cases x <;> simp [PyFloat.lt]
  | cons y ys ih =>
    rw [List.foldl_cons]
    have hx : x ≠ .nan := hn x List.mem_cons_self
    have hy : y ≠ .nan := hn y (List.mem_cons_of_mem _ List.mem_cons_self)
    have hnext : ∀ v ∈ (if y.lt x then y else x) :: ys, v ≠ .nan := by
      intro v hv
      rcases List.mem_cons.mp hv with rfl | hv
      · split <;> assumption
      · exact hn v (List.mem_cons_of_mem _ (List.mem_cons_of_mem _ hv))
    have hall := ih hnext
    have hfirst := hall _ List.mem_cons_self
    intro v hv
    rcases List.mem_cons.mp hv with rfl | hv
    · by_cases hlt : y.lt v = true
      · rw [if_pos hlt] at hfirst ⊢
        exact not_lt_trans hy (not_lt_of_lt hlt) hfirst
      · rw [if_neg hlt] at hfirst ⊢
        exact hfirst
    · rcases List.mem_cons.mp hv with rfl | hv
      · by_cases hlt : v.lt x = true
        · rw [if_pos hlt] at hfirst ⊢
          exact hfirst
        · rw [if_neg hlt] at hfirst ⊢
          exact not_lt_trans hx (by simpa using hlt) hfirst
      · exact hall v (List.mem_cons_of_mem _ hv)

/-- No value is less than the minimum. -/
theorem minimum_le {xs : List PyFloat} {m : PyFloat} (hn : ∀ v ∈ xs, v ≠ .nan)
    (h : minimum xs = some m) : ∀ v ∈ xs, v.lt m = false := by
  cases xs with
  | nil => cases h
  | cons x xs =>
    cases h
    exact foldl_least_le hn

theorem eq_of_not_lt {a b : PyFloat} (ha : a ≠ .nan) (hb : b ≠ .nan) (hab : a.lt b = false)
    (hba : b.lt a = false) : a = b := by
  cases a <;> cases b <;> simp_all only [PyFloat.lt, reduceCtorEq, ne_eq, not_true_eq_false,
    not_false_eq_true, decide_eq_false_iff_not, not_lt, PyFloat.fin.injEq]
  exact le_antisymm hba hab

/-- Of values that are no NaNs, the minimum is the one that no other is less than. -/
theorem minimum_eq_some_iff {xs : List PyFloat} {m : PyFloat} (hn : ∀ v ∈ xs, v ≠ .nan) :
    minimum xs = some m ↔ m ∈ xs ∧ ∀ v ∈ xs, v.lt m = false := by
  constructor
  · exact fun h => ⟨minimum_mem h, minimum_le hn h⟩
  · rintro ⟨hm, hleast⟩
    obtain ⟨m', hm'⟩ := exists_minimum (List.ne_nil_of_mem hm)
    have hmem := minimum_mem hm'
    rw [hm', eq_of_not_lt (hn m' hmem) (hn m hm) (hleast m' hmem) (minimum_le hn hm' m hm)]

/-! ## Rounding -/

/-- The place of the highest bit of the fraction `n / d`. -/
def topBit (n d : Nat) : Int :=
  let e : Int := n.log2 - d.log2
  if n * 2 ^ (-e).toNat < d * 2 ^ e.toNat then e - 1 else e

/-- The int nearest to `n / d`. Of two it is the even one. -/
def nearest (n d : Nat) : Nat :=
  if 2 * (n % d) < d then n / d
  else if d < 2 * (n % d) then n / d + 1
  else n / d + n / d % 2

/-- The place of the last bit of a double: 53 bits, and none below `2 ^ -1074`. -/
def lastBit (n d : Nat) : Int := max (topBit n d - 52) (-1074)

/-- The double nearest to `n / d`, which has no bound yet. -/
def doubleOf (n d : Nat) : ℚ :=
  let e := lastBit n d
  mkRat (nearest (n * 2 ^ (-e).toNat) (d * 2 ^ e.toNat) * 2 ^ e.toNat) (2 ^ (-e).toNat)

/-- The double of a value. From `2 ^ 1024` on it is infinite. -/
def PyFloat.rounded : PyFloat → PyFloat
  | .fin q =>
    let a := doubleOf q.num.natAbs q.den
    if a < 2 ^ 1024 then .fin (if q < 0 then -a else a)
    else if q < 0 then .negInf else .posInf
  | f => f

/-- Two neighbours of 5 and one of a power of two, which has smaller ones below it. -/
example : (PyFloat.fin (5 + 1 / 10 ^ 16)).rounded = .fin 5 ∧
    (PyFloat.fin (5 + 1 / 2 ^ 51)).rounded = .fin 5 ∧
    (PyFloat.fin (5 + 3 / 2 ^ 51)).rounded = .fin (5 + 1 / 2 ^ 49) ∧
    (PyFloat.fin (4 - 1 / 2 ^ 52)).rounded = .fin 4 ∧
    (PyFloat.fin (-(4 - 1 / 2 ^ 51))).rounded = .fin (-(4 - 1 / 2 ^ 51)) := by
  decide +kernel

/-- The least double, half of it, and what is too large. -/
example : (PyFloat.fin (1 / 2 ^ 1074)).rounded = .fin (1 / 2 ^ 1074) ∧
    (PyFloat.fin (1 / 2 ^ 1075)).rounded = .fin 0 ∧
    (PyFloat.fin (2 ^ 1024 - 2 ^ 970)).rounded = .posInf ∧
    (PyFloat.fin (2 ^ 1024 - 2 ^ 971)).rounded = .fin (2 ^ 1024 - 2 ^ 971) := by
  decide +kernel

/-! ## Decimal digits -/

/-- The first code point of each block of ten digits of category Nd (Unicode 15.0). -/
def ndBlocks : List Nat :=
  [0x30, 0x660, 0x6f0, 0x7c0, 0x966, 0x9e6, 0xa66, 0xae6, 0xb66, 0xbe6, 0xc66, 0xce6, 0xd66,
   0xde6, 0xe50, 0xed0, 0xf20, 0x1040, 0x1090, 0x17e0, 0x1810, 0x1946, 0x19d0, 0x1a80, 0x1a90,
   0x1b50, 0x1bb0, 0x1c40, 0x1c50, 0xa620, 0xa8d0, 0xa900, 0xa9d0, 0xa9f0, 0xaa50, 0xabf0,
   0xff10, 0x104a0, 0x10d30, 0x11066, 0x110f0, 0x11136, 0x111d0, 0x112f0, 0x11450, 0x114d0,
   0x11650, 0x116c0, 0x11730, 0x118e0, 0x11950, 0x11c50, 0x11d50, 0x11da0, 0x11f50, 0x16a60,
   0x16ac0, 0x16b50, 0x1d7ce, 0x1d7d8, 0x1d7e2, 0x1d7ec, 0x1d7f6, 0x1e140, 0x1e2f0, 0x1e4f0,
   0x1e950, 0x1fbf0]

/-- `\d` of Python's `re` on a `str`. -/
def isDecimal (c : Char) : Bool := ndBlocks.any fun b => b ≤ c.toNat && c.toNat < b + 10

/-- The value of a digit. -/
def digitVal (c : Char) : Nat :=
  match ndBlocks.find? fun b => b ≤ c.toNat && c.toNat < b + 10 with
  | some b => c.toNat - b
  | none => 0

/-- The number that a row of digits writes. -/
def digitsVal (ds : List Char) : Nat := ds.foldl (fun acc d => acc * 10 + digitVal d) 0

theorem digitVal_lt (c : Char) : digitVal c < 10 := by
  unfold digitVal
  split
  · rename_i b h
    have hb := List.find?_some h
    simp only [Bool.and_eq_true, decide_eq_true_eq] at hb
    omega
  · omega

theorem foldl_digits_lt (ds : List Char) (acc : Nat) :
    ds.foldl (fun acc d => acc * 10 + digitVal d) acc < (acc + 1) * 10 ^ ds.length := by
  induction ds generalizing acc with
  | nil => simp
  | cons d ds ih =>
    have hd := digitVal_lt d
    simp only [List.foldl_cons, List.length_cons]
    calc ds.foldl (fun acc d => acc * 10 + digitVal d) (acc * 10 + digitVal d)
        < (acc * 10 + digitVal d + 1) * 10 ^ ds.length := ih _
      _ ≤ ((acc + 1) * 10) * 10 ^ ds.length := Nat.mul_le_mul_right _ (by omega)
      _ = (acc + 1) * 10 ^ (ds.length + 1) := by rw [pow_succ]; ring

/-- `n` digits write a number below `10 ^ n`. -/
theorem digitsVal_lt (ds : List Char) : digitsVal ds < 10 ^ ds.length := by
  simpa [digitsVal] using foldl_digits_lt ds 0

/-- The value of `ip.fp`. -/
def decimalVal (ip fp : List Char) : ℚ := digitsVal ip + digitsVal fp / 10 ^ fp.length

theorem decimalVal_nonneg (ip fp : List Char) : 0 ≤ decimalVal ip fp := by
  unfold decimalVal
  positivity

/-- One digit before the point: the value is below ten. -/
theorem decimalVal_singleton_lt (d : Char) (fp : List Char) : decimalVal [d] fp < 10 := by
  have hd := digitsVal_lt [d]
  have hf := digitsVal_lt fp
  have hi : (digitsVal [d] : ℚ) ≤ 9 := by
    exact_mod_cast (by simpa using Nat.le_of_lt_succ hd)
  have hfr : (digitsVal fp : ℚ) / 10 ^ fp.length < 1 := by
    rw [div_lt_one (by positivity)]
    exact_mod_cast hf
  unfold decimalVal
  linarith

/-! ## `float(text)` -/

/-- A number with no sign: `inf` in any case, or digits with at most one point. -/
def unsigned (u : List Char) : Option (WithTop ℚ) :=
  if u.map Char.toLower = ['i', 'n', 'f'] then some ⊤
  else
    match u.takeWhile isDecimal, u.dropWhile isDecimal with
    | [], [] => none
    | ip, [] => some ((decimalVal ip [] : ℚ) : WithTop ℚ)
    | ip, c :: fp =>
      if c = '.' ∧ fp.all isDecimal ∧ ¬ (ip = [] ∧ fp = []) then
        some ((decimalVal ip fp : ℚ) : WithTop ℚ)
      else none

/-- `float(text)` on a text with no minus: `none` is the ValueError. -/
def float : List Char → Option (WithTop ℚ)
  | '+' :: u => unsigned u
  | u => unsigned u

theorem unsigned_nonneg {u : List Char} {x : WithTop ℚ} (h : unsigned u = some x) : 0 ≤ x := by
  unfold unsigned at h
  split at h
  · cases h
    exact le_top
  · split at h
    · cases h
    · cases h
      exact_mod_cast decimalVal_nonneg _ _
    · split at h
      · cases h
        exact_mod_cast decimalVal_nonneg _ _
      · cases h

theorem float_nonneg {t : List Char} {x : WithTop ℚ} (h : float t = some x) : 0 ≤ x := by
  unfold float at h
  split at h
  · exact unsigned_nonneg h
  · exact unsigned_nonneg h

theorem isDecimal_of_ascii {c : Char} (h : 48 ≤ c.toNat ∧ c.toNat ≤ 57) : isDecimal c = true := by
  unfold isDecimal ndBlocks
  simp only [List.any_cons, Bool.or_eq_true, Bool.and_eq_true, decide_eq_true_eq]
  exact Or.inl ⟨by omega, by omega⟩

theorem not_isDecimal_point : isDecimal '.' = false := by decide

theorem not_isDecimal_plus : isDecimal '+' = false := by decide

theorem takeWhile_point {ip : List Char} (fp : List Char) (h : ∀ c ∈ ip, isDecimal c = true) :
    (ip ++ '.' :: fp).takeWhile isDecimal = ip ∧
      (ip ++ '.' :: fp).dropWhile isDecimal = '.' :: fp := by
  induction ip with
  | nil => simp [not_isDecimal_point]
  | cons c ip ih =>
    have hc := h c List.mem_cons_self
    obtain ⟨h1, h2⟩ := ih fun d hd => h d (List.mem_cons_of_mem _ hd)
    simp [hc, h1, h2]

/-- The text `digits.digits` reads as the number that it writes. -/
theorem float_decimal {ip fp : List Char} (hne : ip ≠ []) (hip : ∀ c ∈ ip, isDecimal c = true)
    (hfp : ∀ c ∈ fp, isDecimal c = true) :
    float (ip ++ '.' :: fp) = some ((decimalVal ip fp : ℚ) : WithTop ℚ) := by
  obtain ⟨c, ip', rfl⟩ := List.exists_cons_of_ne_nil hne
  have hplus : ∀ u, (c :: ip') ++ '.' :: fp ≠ '+' :: u := by
    intro u hu
    have := hip c List.mem_cons_self
    rw [(List.cons.inj hu).1, not_isDecimal_plus] at this
    cases this
  have hinf : ¬ ((c :: ip') ++ '.' :: fp).map Char.toLower = ['i', 'n', 'f'] := by
    intro h
    -- the point stays in the lower-case text, and `inf` has none
    have hmem : Char.toLower '.' ∈ ((c :: ip') ++ '.' :: fp).map Char.toLower :=
      List.mem_map_of_mem (by simp)
    rw [h] at hmem
    revert hmem
    decide
  obtain ⟨h1, h2⟩ := takeWhile_point fp hip
  have hall : fp.all isDecimal = true := List.all_eq_true.mpr hfp
  have hu : unsigned ((c :: ip') ++ '.' :: fp) =
      some ((decimalVal (c :: ip') fp : ℚ) : WithTop ℚ) := by
    unfold unsigned
    rw [if_neg hinf, h1, h2]
    simp [hall]
  unfold float
  split
  · rename_i u hu'
    exact absurd hu' (hplus u)
  · exact hu

end pyfloat
