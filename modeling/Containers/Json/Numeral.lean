import Containers.Json.Reader

/-!
# Numerals

The numbers of this library are integers, but a JSON text may hold any decimal numeral.  Reading one
tells integers that fit a 64-bit word apart from all other numerals, which count as `fractional`:
those with a point or an exponent, those that are too large for a word, and minus zero.

A numeral that is not an integer has to lie in the range of double precision, although its value is
not kept: one beyond the range is no JSON here.  The range is tested as it is when the value is
computed by the usual short method — the leading digits that fit a word, rounded to 53 bits, times a
power of ten, rounded to 53 bits as well.

`skipNumeral` passes over a numeral without looking at its size.
-/

set_option autoImplicit false

namespace Containers.Json

/-- What a numeral says. -/
inductive Numeral where
  /-- An integer of this sign whose magnitude fits a word. -/
  | integer (negative : Bool) (magnitude : Nat)
  /-- Any other number. -/
  | fractional
  deriving DecidableEq

/-! ## The size of a number -/

/-- A number as a significand that fits a word and a power of ten. -/
structure Scaled where
  significand : Nat
  exponent : Int

/-- What a decimal digit stands for. -/
def digitValue (c : Char) : Nat := c.toNat - '0'.toNat

/-- Takes up digits before the point.  Once the next digit does not fit the word any more, it and
all digits after it only raise the power of ten. -/
def Scaled.whole (s : Scaled) : List Char → Scaled
  | [] => s
  | d :: ds =>
    let significand := s.significand * 10 + digitValue d
    if s.exponent = 0 ∧ significand < 1 <<< 64 then Scaled.whole ⟨significand, 0⟩ ds
    else Scaled.whole ⟨s.significand, s.exponent + 1⟩ ds

/-- Takes up digits after the point, as far as they fit the word. -/
def Scaled.fraction (s : Scaled) : List Char → Scaled
  | [] => s
  | d :: ds =>
    let significand := s.significand * 10 + digitValue d
    if significand < 1 <<< 64 then Scaled.fraction ⟨significand, s.exponent - 1⟩ ds else s

/-- The nearest number with at most 53 leading bits; of two equally near ones, the even one. -/
def roundTo53 (n : Nat) : Nat :=
  if n < 1 <<< 53 then n
  else
    let shift := n.log2 - 52
    let quotient := n >>> shift
    let remainder := n % 1 <<< shift
    let half := 1 <<< (shift - 1)
    if half < remainder ∨ (remainder = half ∧ quotient % 2 = 1) then (quotient + 1) <<< shift
    else quotient <<< shift

/-- Whether a number is too large for double precision. -/
def Scaled.beyondRange (s : Scaled) : Bool :=
  s.significand ≠ 0 &&
    (308 < s.exponent ||
      (0 ≤ s.exponent &&
        1 <<< 1024 - 1 <<< 970 ≤
          roundTo53 s.significand * roundTo53 (Nat.pow 10 s.exponent.toNat)))

/-! ## Reading -/

/-- The number that digits stand for. -/
def ofDigits (ds : List Char) : Nat := Nat.ofDigitChars 10 ds 0

/-- The digits at the front of a text, and the rest. -/
def spanDigits (cs : List Char) : List Char × List Char :=
  (cs.takeWhile Char.isDigit, cs.dropWhile Char.isDigit)

/-- A number that is no integer, if it is in range. -/
def finishFractional (s : Scaled) : Reader Numeral := fun rest =>
  if s.beyondRange then .error .malformed else .ok (.fractional, rest)

/-- The sign of an exponent, where a plus may be left out. -/
def readSign : List Char → Bool × List Char
  | [] => (false, [])
  | c :: rest =>
    if c = '+' then (false, rest) else if c = '-' then (true, rest) else (false, c :: rest)

/-- Reads an exponent after its letter. -/
def readExponent (s : Scaled) : Reader Numeral := fun cs =>
  let signed := readSign cs
  match signed.2 with
  | [] => .error .unfinished
  | c :: rest =>
    if c.isDigit then
      let digits := spanDigits (c :: rest)
      let e : Int := ofDigits digits.1
      finishFractional ⟨s.significand, if signed.1 then s.exponent - e else s.exponent + e⟩ digits.2
    else .error .malformed

/-- Whether a character opens an exponent. -/
def isExponentLetter (c : Char) : Bool := c = 'e' || c = 'E'

/-- Reads what follows the point of a numeral. -/
def readFraction (s : Scaled) : Reader Numeral := fun cs =>
  let digits := spanDigits cs
  match digits.1, digits.2 with
  | [], [] => .error .unfinished
  | [], _ :: _ => .error .malformed
  | d :: ds, rest =>
    let s := s.fraction (d :: ds)
    match rest with
    | [] => finishFractional s []
    | c :: rest =>
      if isExponentLetter c then readExponent s rest else finishFractional s (c :: rest)

/-- What a numeral without point and exponent says. -/
def finishWhole (negative : Bool) (s : Scaled) : Reader Numeral := fun rest =>
  if s.exponent = 0 then
    if negative && s.significand = 0 then .ok (.fractional, rest)
    else .ok (.integer negative s.significand, rest)
  else finishFractional s rest

/-- Reads a numeral after its sign. -/
def readUnsigned (negative : Bool) : Reader Numeral := fun cs =>
  match spanDigits cs with
  | ([], []) => .error .unfinished
  | ([], _ :: _) => .error .malformed
  | (d :: ds, rest) =>
    if d = '0' ∧ ds ≠ [] then .error .malformed
    else
      let s := Scaled.whole ⟨0, 0⟩ (d :: ds)
      match rest with
      | [] => finishWhole negative s []
      | c :: rest =>
        if c = '.' then readFraction s rest
        else if isExponentLetter c then readExponent s rest
        else finishWhole negative s (c :: rest)

/-- Reads a numeral. -/
def readNumeral : Reader Numeral
  | [] => .error .unfinished
  | c :: rest => if c = '-' then readUnsigned true rest else readUnsigned false (c :: rest)

/-! ## Passing over -/

/-- Passes over digits, of which there has to be one. -/
def skipDigits : Reader Unit := fun cs =>
  let digits := spanDigits cs
  if digits.1 = [] then .error .malformed else .ok ((), digits.2)

/-- Passes over an exponent, if there is one. -/
def skipExponent : Reader Unit
  | [] => .ok ((), [])
  | c :: rest => if isExponentLetter c then skipDigits (readSign rest).2 else .ok ((), c :: rest)

/-- Passes over a point and the digits after it, if there is one, and over an exponent. -/
def skipFraction : Reader Unit
  | [] => .ok ((), [])
  | c :: rest =>
    if c = '.' then
      match skipDigits rest with
      | .error f => .error f
      | .ok (_, rest) => skipExponent rest
    else skipExponent (c :: rest)

/-- Passes over a numeral after its sign. -/
def skipUnsigned : Reader Unit := fun cs =>
  match spanDigits cs with
  | ([], _) => .error .malformed
  | (d :: ds, rest) => if d = '0' ∧ ds ≠ [] then .error .malformed else skipFraction rest

/-- Passes over a numeral. -/
def skipNumeral : Reader Unit
  | [] => .error .malformed
  | c :: rest => if c = '-' then skipUnsigned rest else skipUnsigned (c :: rest)

end Containers.Json
