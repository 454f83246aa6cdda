import Containers.Json.Reader

/-!
# Quoted texts

A text stands between quotes.  Some characters cannot stand there as they are: the quote and the
backslash, and the control characters below the blank.  They are written as escapes, the more common
ones with a letter of their own and the others by their number.

* `quote` writes a text between quotes; everything that need not be escaped is written as it is.
* `readQuoted` reads a text after its opening quote and undoes every escape, including pairs of
  numbers that stand for one character beyond the first plane.
* `skipQuoted` passes over a text without making sense of it, so a number that stands for no
  character on its own does not disturb it.
-/

set_option autoImplicit false

namespace Containers.Json

/-! ## Writing -/

/-- A hexadecimal digit. -/
def hexDigit (n : Nat) : Char := Nat.digitChar n

/-- How a character is written between quotes. -/
def escape (c : Char) : List Char :=
  if c = '"' then ['\\', '"']
  else if c = '\\' then ['\\', '\\']
  else if c = '\x08' then ['\\', 'b']
  else if c = '\x0c' then ['\\', 'f']
  else if c = '\n' then ['\\', 'n']
  else if c = '\r' then ['\\', 'r']
  else if c = '\t' then ['\\', 't']
  else if c.toNat < 32 then
    ['\\', 'u', '0', '0', hexDigit (c.toNat / 16), hexDigit (c.toNat % 16)]
  else [c]

/-- A text between quotes. -/
def quote (cs : List Char) : List Char := '"' :: (cs.flatMap escape ++ ['"'])

/-! ## Reading -/

/-- What a hexadecimal digit stands for. -/
def hexValue (c : Char) : Option Nat :=
  if '0' ≤ c ∧ c ≤ '9' then some (c.toNat - '0'.toNat)
  else if 'a' ≤ c ∧ c ≤ 'f' then some (c.toNat - 'a'.toNat + 10)
  else if 'A' ≤ c ∧ c ≤ 'F' then some (c.toNat - 'A'.toNat + 10)
  else none

/-- The number of bytes a text takes. -/
def byteLength (cs : List Char) : Nat := (String.ofList cs).utf8ByteSize

/-- Reads four hexadecimal digits.  A text of fewer than four bytes has ended too early. -/
def readHex : Reader Nat
  | a :: b :: c :: d :: rest =>
    match hexValue a, hexValue b, hexValue c, hexValue d with
    | some a, some b, some c, some d => .ok (((a * 16 + b) * 16 + c) * 16 + d, rest)
    | _, _, _, _ => .error .malformed
  | cs => if byteLength cs < 4 then .error .unfinished else .error .malformed

/-- Whether a number is the first half of a pair. -/
def isHighSurrogate (n : Nat) : Bool := 0xd800 ≤ n && n ≤ 0xdbff

/-- Whether a number is the second half of a pair. -/
def isLowSurrogate (n : Nat) : Bool := 0xdc00 ≤ n && n ≤ 0xdfff

/-- The character that a pair stands for. -/
def ofSurrogates (high low : Nat) : Char :=
  Char.ofNat (0x10000 + (high - 0xd800) * 0x400 + (low - 0xdc00))

/-- Reads the second half of a pair, with its own escape. -/
def readLowSurrogate (high : Nat) : Reader Char
  | [] => .error .unfinished
  | c :: rest =>
    if c = '\\' then
      match rest with
      | [] => .error .unfinished
      | c :: rest =>
        if c = 'u' then
          match readHex rest with
          | .error f => .error f
          | .ok (low, rest) =>
            if isLowSurrogate low then .ok (ofSurrogates high low, rest) else .error .malformed
        else .error .malformed
    else .error .malformed

/-- Reads the number of a character. -/
def readNumbered : Reader Char := fun cs =>
  match readHex cs with
  | .error f => .error f
  | .ok (n, rest) =>
    if isLowSurrogate n then .error .malformed
    else if isHighSurrogate n then readLowSurrogate n rest
    else .ok (Char.ofNat n, rest)

/-- What a letter stands for after a backslash. -/
def ofEscapeLetter (c : Char) : Option Char :=
  if c = '"' then some '"'
  else if c = '\\' then some '\\'
  else if c = '/' then some '/'
  else if c = 'b' then some '\x08'
  else if c = 'f' then some '\x0c'
  else if c = 'n' then some '\n'
  else if c = 'r' then some '\r'
  else if c = 't' then some '\t'
  else none

/-- Reads an escape after its backslash. -/
def readEscape : Reader Char
  | [] => .error .unfinished
  | c :: rest =>
    match ofEscapeLetter c with
    | some c => .ok (c, rest)
    | none => if c = 'u' then readNumbered rest else .error .malformed

theorem length_readHex {cs rest : List Char} {n : Nat} (h : readHex cs = .ok (n, rest)) :
    rest.length < cs.length := by
  unfold readHex at h
  split at h
  · split at h
    · cases h
      simp only [List.length_cons]
      omega
    · cases h
  · split at h <;> cases h

theorem length_readLowSurrogate {high : Nat} {cs rest : List Char} {c : Char}
    (h : readLowSurrogate high cs = .ok (c, rest)) : rest.length < cs.length := by
  unfold readLowSurrogate at h
  split at h
  · cases h
  · split at h
    · split at h
      · cases h
      · split at h
        · split at h
          · cases h
          · rename_i hhex
            split at h
            · simp only [Except.ok.injEq, Prod.mk.injEq] at h
              have := length_readHex hhex
              rw [← h.2]
              simp only [List.length_cons]
              omega
            · cases h
        · cases h
    · cases h

theorem length_readEscape {cs rest : List Char} {c : Char} (h : readEscape cs = .ok (c, rest)) :
    rest.length < cs.length := by
  unfold readEscape at h
  split at h
  · cases h
  · split at h
    · cases h
      exact Nat.lt_succ_self _
    · split at h
      · unfold readNumbered at h
        split at h
        · cases h
        · rename_i hhex
          have h₁ := length_readHex hhex
          split at h
          · cases h
          · split at h
            · have h₂ := length_readLowSurrogate h
              simp only [List.length_cons]
              omega
            · simp only [Except.ok.injEq, Prod.mk.injEq] at h
              rw [← h.2]
              simp only [List.length_cons]
              omega
      · cases h

/-- Reads a text after its opening quote. -/
def readQuoted (cs : List Char) : Reading (List Char) :=
  match cs with
  | [] => .error .unfinished
  | c :: rest =>
    if c = '"' then .ok ([], rest)
    else if c = '\\' then
      match _h : readEscape rest with
      | .error f => .error f
      | .ok (c, rest) =>
        match readQuoted rest with
        | .error f => .error f
        | .ok (cs, rest) => .ok (c :: cs, rest)
    else if c.toNat < 32 then .error .malformed
    else
      match readQuoted rest with
      | .error f => .error f
      | .ok (cs, rest) => .ok (c :: cs, rest)
termination_by cs.length
decreasing_by
  · have := length_readEscape _h
    simp only [List.length_cons]
    omega
  · simp only [List.length_cons]
    omega

/-- Passes over an escape after its backslash. -/
def skipEscape : Reader Unit
  | [] => .error .unfinished
  | c :: rest =>
    match ofEscapeLetter c with
    | some _ => .ok ((), rest)
    | none =>
      if c = 'u' then
        match readHex rest with
        | .error f => .error f
        | .ok (_, rest) => .ok ((), rest)
      else .error .malformed

theorem length_skipEscape {cs rest : List Char} (h : skipEscape cs = .ok ((), rest)) :
    rest.length < cs.length := by
  unfold skipEscape at h
  split at h
  · cases h
  · split at h
    · cases h
      exact Nat.lt_succ_self _
    · split at h
      · split at h
        · cases h
        · rename_i hhex
          cases h
          have := length_readHex hhex
          simp only [List.length_cons]
          omega
      · cases h

/-- Passes over a text after its opening quote. -/
def skipQuoted (cs : List Char) : Reading Unit :=
  match cs with
  | [] => .error .unfinished
  | c :: rest =>
    if c = '"' then .ok ((), rest)
    else if c = '\\' then
      match _h : skipEscape rest with
      | .error f => .error f
      | .ok ((), rest) => skipQuoted rest
    else if c.toNat < 32 then .error .malformed
    else skipQuoted rest
termination_by cs.length
decreasing_by
  · have := length_skipEscape _h
    simp only [List.length_cons]
    omega
  · simp only [List.length_cons]
    omega

end Containers.Json
