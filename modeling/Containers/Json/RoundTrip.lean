import Containers.Json.Quoted

/-!
# Reading back quoted texts

`quote` and `readQuoted` belong together: whatever stands between the quotes that `quote` writes,
`readQuoted` gives back, and it stops right after the closing quote (`readQuoted_quote`).  It is
shown one character at a time, because every character is written by itself: `readQuoted_escape`
says that the way a character is written is read as that character.
-/

set_option autoImplicit false

namespace Containers.Json

/-! ## Control characters -/

theorem hexValue_hexDigit : ∀ n, n < 16 → hexValue (hexDigit n) = some n := by decide

/-- A small number is read from its last two digits. -/
theorem readHex_small {n : Nat} (h : n < 256) (rest : List Char) :
    readHex ('0' :: '0' :: hexDigit (n / 16) :: hexDigit (n % 16) :: rest) = .ok (n, rest) := by
  have h₀ : hexValue '0' = some 0 := by decide
  rw [readHex, hexValue_hexDigit _ (by omega), hexValue_hexDigit _ (by omega), h₀]
  dsimp only
  rw [show ((0 * 16 + 0) * 16 + n / 16) * 16 + n % 16 = n by omega]

/-- A control character is read from its number. -/
theorem readNumbered_small {c : Char} (h : c.toNat < 32) (rest : List Char) :
    readNumbered ('0' :: '0' :: hexDigit (c.toNat / 16) :: hexDigit (c.toNat % 16) :: rest) =
      .ok (c, rest) := by
  have hl : isLowSurrogate c.toNat = false := by rw [isLowSurrogate]; simp; omega
  have hh : isHighSurrogate c.toNat = false := by rw [isHighSurrogate]; simp; omega
  rw [readNumbered, readHex_small (by omega)]
  dsimp only
  rw [hl, hh, Char.ofNat_toNat]
  rfl

/-! ## Texts -/

/-- A backslash and an escape are read as the character that the escape stands for. -/
theorem readQuoted_backslash {cs rest : List Char} {c : Char} (h : readEscape cs = .ok (c, rest)) :
    readQuoted ('\\' :: cs) = (readQuoted rest).map fun r => (c :: r.1, r.2) := by
  rw [readQuoted, if_neg (by decide), if_pos rfl]
  split
  · rename_i h'
    rw [h] at h'
    cases h'
  · rename_i h'
    rw [h] at h'
    cases h'
    cases readQuoted _ <;> rfl

/-- A character that needs no escape is read as it is. -/
theorem readQuoted_plain {c : Char} (hq : c ≠ '"') (hb : c ≠ '\\') (hc : ¬c.toNat < 32)
    (cs : List Char) : readQuoted (c :: cs) = (readQuoted cs).map fun r => (c :: r.1, r.2) := by
  rw [readQuoted, if_neg hq, if_neg hb, if_neg hc]
  cases readQuoted cs <;> rfl

/-- What a character is written as is read as that character. -/
theorem readQuoted_escape (c : Char) (cs : List Char) :
    readQuoted (escape c ++ cs) = (readQuoted cs).map fun r => (c :: r.1, r.2) := by
  unfold escape
  by_cases h₁ : c = '"'
  · rw [if_pos h₁, h₁]; exact readQuoted_backslash rfl
  by_cases h₂ : c = '\\'
  · rw [if_neg h₁, if_pos h₂, h₂]; exact readQuoted_backslash rfl
  rw [if_neg h₁, if_neg h₂]
  split
  · rename_i h; rw [h]; exact readQuoted_backslash rfl
  split
  · rename_i h; rw [h]; exact readQuoted_backslash rfl
  split
  · rename_i h; rw [h]; exact readQuoted_backslash rfl
  split
  · rename_i h; rw [h]; exact readQuoted_backslash rfl
  split
  · rename_i h; rw [h]; exact readQuoted_backslash rfl
  split
  · rename_i h; exact readQuoted_backslash (readNumbered_small h cs)
  · rename_i h; exact readQuoted_plain h₁ h₂ h cs

/-- Reading after the opening quote gives back the text that was quoted. -/
theorem readQuoted_quote (cs rest : List Char) :
    readQuoted (cs.flatMap escape ++ '"' :: rest) = .ok (cs, rest) := by
  induction cs with
  | nil => rw [List.flatMap_nil, List.nil_append, readQuoted, if_pos rfl]
  | cons c cs ih =>
    rw [List.flatMap_cons, List.append_assoc, readQuoted_escape, ih]
    rfl

end Containers.Json
