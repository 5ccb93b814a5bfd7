-- `urllib.parse.unquote` of Python on an ASCII text: percent-decoding, and UTF-8 with a
-- replacement character for what is none. Nothing here names this repository.
import Mathlib.Data.List.Basic

namespace urllib

def hexDigit? (n : Nat) : Option Nat :=
  if 48 ≤ n && n ≤ 57 then some (n - 48)
  else if 65 ≤ n && n ≤ 70 then some (n - 55)
  else if 97 ≤ n && n ≤ 102 then some (n - 87)
  else none

/-- The byte that two digits write. -/
def hexByte? (high low : Nat) : Option Nat := do
  let h ← hexDigit? high
  let l ← hexDigit? low
  return h * 16 + l

/-- `unquote_to_bytes`. A `%` without two digits stands for itself. -/
def unquote_to_bytes : List Nat → List Nat
  | 37 :: high :: low :: rest =>
    match hexByte? high low with
    | some byte => byte :: unquote_to_bytes rest
    | none => 37 :: unquote_to_bytes (high :: low :: rest)
  | n :: rest => n :: unquote_to_bytes rest
  | [] => []

/-! ## UTF-8 -/

/-- A code point of which so many bytes are left. The bounds are those of the next one. -/
structure Pending where
  left : Nat
  lower : Nat
  upper : Nat
  value : Nat

def Pending.idle : Pending := ⟨0, 0, 0, 0⟩

def replacement : Nat := 0xfffd

/-- The first byte of a code point. The bounds leave out what is not the shortest form, the
surrogates and what lies above the last code point. -/
def firstByte (b : Nat) : List Nat × Pending :=
  if b < 0x80 then ([b], .idle)
  else if b < 0xc2 then ([replacement], .idle)
  else if b < 0xe0 then ([], ⟨1, 0x80, 0xc0, b - 0xc0⟩)
  else if b < 0xf0 then
    ([], ⟨2, if b = 0xe0 then 0xa0 else 0x80, if b = 0xed then 0xa0 else 0xc0, b - 0xe0⟩)
  else if b < 0xf5 then
    ([], ⟨3, if b = 0xf0 then 0x90 else 0x80, if b = 0xf4 then 0x90 else 0xc0, b - 0xf0⟩)
  else ([replacement], .idle)

/-- A byte that does not go on with the code point begins another one. -/
def nextByte (p : Pending) (b : Nat) : List Nat × Pending :=
  if p.left = 0 then firstByte b
  else if p.lower ≤ b && b < p.upper then
    let value := p.value * 64 + (b - 0x80)
    if p.left = 1 then ([value], .idle) else ([], ⟨p.left - 1, 0x80, 0xc0, value⟩)
  else (replacement :: (firstByte b).1, (firstByte b).2)

def decodeFrom (p : Pending) : List Nat → List Nat
  | [] => if p.left = 0 then [] else [replacement]
  | b :: bytes => (nextByte p b).1 ++ decodeFrom (nextByte p b).2 bytes

/-- `bytes.decode("utf-8", "replace")`. -/
def decode_replace (bytes : List Nat) : List Nat := decodeFrom .idle bytes

def unquote (text : List Nat) : List Nat := decode_replace (unquote_to_bytes text)

/-- A letter, a question mark, two bytes of one code point, and a byte that is none. -/
example : unquote ("/%41%3F%c3%a9%ff%".toList.map Char.toNat) =
    "/A?é\ufffd%".toList.map Char.toNat := by
  decide +kernel

end urllib
