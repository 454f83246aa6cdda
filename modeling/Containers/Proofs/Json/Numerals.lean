import Containers.Json.Value

/-!
# Reading back numerals

`writeInt` and `readNumeral` belong together: the numeral that is written for a 64-bit integer is read as
that integer, up to both ends of the range (`ofNumeral?_writeInt`).

A numeral has no end of its own.  It is read as far as it goes, so what stands behind it must not carry it
on (`EndsNumeral`): no digit, no point and no letter of an exponent.  Three facts about the digits make up
the rest: the first of them is no needless zero, they stand for the number that was written, and taking
them up one by one never exceeds it, so all of them fit the word.
-/

set_option autoImplicit false

namespace Containers.Json

/-- The text does not begin with anything that would carry a numeral on. -/
def EndsNumeral (rest : List Char) : Prop :=
  ∀ c ∈ rest.head?, c.isDigit = false ∧ c ≠ '.' ∧ isExponentLetter c = false

variable {n : Nat} {rest : List Char}

/-! ## Digits -/

theorem isDigit_of_mem_writeNat {c : Char} (hc : c ∈ writeNat n) : c.isDigit = true :=
  Nat.isDigit_of_mem_toDigits (by decide) (by decide) hc

/-- A number other than zero is written without a zero at the front. -/
theorem exists_writeNat_of_pos (hn : 0 < n) : ∃ d ds, writeNat n = d :: ds ∧ d ≠ '0' := by
  induction n using Nat.strongRecOn with
  | _ n ih =>
    by_cases hlt : n < 10
    · have hdigit : ∀ n, n < 10 → 0 < n → Nat.digitChar n ≠ '0' := by decide
      exact ⟨_, [], Nat.toDigits_of_lt_base hlt, hdigit n hlt hn⟩
    · obtain ⟨d, ds, hdiv, hd⟩ := ih (n / 10) (by omega) (by omega)
      have hwrite : writeNat n = writeNat (n / 10) ++ [Nat.digitChar (n % 10)] :=
        Nat.toDigits_of_base_le (by decide) (Nat.not_lt.1 hlt)
      exact ⟨d, ds ++ [Nat.digitChar (n % 10)], by rw [hwrite, hdiv, List.cons_append], hd⟩

/-- There is a first digit, and it is no needless zero. -/
theorem exists_writeNat (n : Nat) : ∃ d ds, writeNat n = d :: ds ∧ ¬(d = '0' ∧ ds ≠ []) := by
  rcases Nat.eq_zero_or_pos n with rfl | hn
  · exact ⟨'0', [], rfl, fun h => h.2 rfl⟩
  · obtain ⟨d, ds, hwrite, hd⟩ := exists_writeNat_of_pos hn
    exact ⟨d, ds, hwrite, fun h => hd h.1⟩

/-- Taking up digits does not make a number smaller. -/
theorem le_ofDigitChars (ds : List Char) (m : Nat) : m ≤ Nat.ofDigitChars 10 ds m := by
  induction ds generalizing m with
  | nil => exact Nat.le_refl m
  | cons d ds ih =>
    rw [Nat.ofDigitChars_cons]
    refine Nat.le_trans ?_ (ih _)
    omega

/-- Digits of a number that fits the word are taken up without loss. -/
theorem whole_eq {ds : List Char} {m : Nat} (h : Nat.ofDigitChars 10 ds m < 1 <<< 64) :
    Scaled.whole ⟨m, 0⟩ ds = ⟨Nat.ofDigitChars 10 ds m, 0⟩ := by
  induction ds generalizing m with
  | nil => rfl
  | cons d ds ih =>
    rw [Nat.ofDigitChars_cons] at h ⊢
    have hm := Nat.lt_of_le_of_lt (le_ofDigitChars ds _) h
    have hdigit : m * 10 + digitValue d = 10 * m + (d.toNat - '0'.toNat) := by
      rw [Nat.mul_comm]
      rfl
    rw [Scaled.whole]
    dsimp only
    rw [hdigit, if_pos ⟨rfl, hm⟩, ih h]

theorem spanDigits_writeNat (n : Nat) (hrest : EndsNumeral rest) :
    spanDigits (writeNat n ++ rest) = (writeNat n, rest) := by
  have hdigits : ∀ c ∈ writeNat n, c.isDigit = true := fun c => isDigit_of_mem_writeNat
  rw [spanDigits, List.takeWhile_append_of_pos hdigits, List.dropWhile_append_of_pos hdigits]
  cases rest with
  | nil => rw [List.takeWhile_nil, List.dropWhile_nil, List.append_nil]
  | cons c rest =>
    have hc := (hrest c rfl).1
    rw [List.takeWhile_cons_of_neg (by rw [hc]; decide), List.dropWhile_cons_of_neg (by rw [hc]; decide),
      List.append_nil]

/-! ## Numerals -/

/-- What is written for a number that fits the word is read as that number.  A sign may stand before it
unless it is zero. -/
theorem readUnsigned_writeNat {negative : Bool} (hn : n < 1 <<< 64)
    (hzero : negative = true → 0 < n) (hrest : EndsNumeral rest) :
    readUnsigned negative (writeNat n ++ rest) = .ok (.integer negative n, rest) := by
  obtain ⟨d, ds, hwrite, hd⟩ := exists_writeNat n
  have hdigits : Nat.ofDigitChars 10 (d :: ds) 0 = n := by
    rw [← hwrite]
    exact Nat.ofDigitChars_ten_toDigits
  have hwhole : Scaled.whole ⟨0, 0⟩ (d :: ds) = ⟨n, 0⟩ := by
    rw [whole_eq (by rwa [hdigits]), hdigits]
  have hfinish : ∀ rest, finishWhole negative ⟨n, 0⟩ rest = .ok (.integer negative n, rest) := by
    intro rest
    have hminus : (negative && n = 0 : Bool) = false := by
      rw [Bool.and_eq_false_imp]
      exact fun h => decide_eq_false (Nat.ne_of_gt (hzero h))
    rw [finishWhole, if_pos rfl, hminus]
    rfl
  rw [readUnsigned, spanDigits_writeNat n hrest, hwrite]
  dsimp only
  rw [if_neg hd, hwhole]
  cases rest with
  | nil => exact hfinish []
  | cons c rest =>
    obtain ⟨-, hpoint, hletter⟩ := hrest c rfl
    dsimp only
    rw [if_neg hpoint, if_neg (by rw [hletter]; decide), hfinish]

theorem readNumeral_writeInt (i : Int64) (hrest : EndsNumeral rest) :
    readNumeral (writeInt i.toInt ++ rest) =
      .ok (.integer (i.toInt < 0) i.toInt.natAbs, rest) := by
  have hlt := i.toInt_lt
  have hle := i.le_toInt
  have hfits : i.toInt.natAbs < 1 <<< 64 := by omega
  rw [writeInt]
  by_cases hneg : i.toInt < 0
  · rw [if_pos hneg, decide_eq_true hneg]
    exact readUnsigned_writeNat hfits (fun _ => by omega) hrest
  · rw [if_neg hneg, decide_eq_false hneg]
    have hread := readUnsigned_writeNat hfits (fun h => absurd h Bool.false_ne_true) hrest
    obtain ⟨d, ds, hwrite, -⟩ := exists_writeNat i.toInt.natAbs
    have hd : d ≠ '-' := by
      rintro rfl
      have hdigit : '-'.isDigit = true :=
        isDigit_of_mem_writeNat (hwrite ▸ List.mem_cons_self)
      exact absurd hdigit (by decide)
    rw [hwrite] at hread ⊢
    rw [List.cons_append, readNumeral, if_neg hd]
    exact hread

/-- Sign and magnitude of a 64-bit integer say which one it is. -/
theorem ofNumeral?_eq (i : Int64) :
    ofNumeral? (.integer (i.toInt < 0) i.toInt.natAbs) = some (.int i) := by
  have hlt := i.toInt_lt
  have hle := i.le_toInt
  by_cases hneg : i.toInt < 0
  · have habs : -(i.toInt.natAbs : Int) = i.toInt := by omega
    have hfits : i.toInt.natAbs ≤ 1 <<< 63 := by omega
    rw [decide_eq_true hneg, ofNumeral?, if_pos hfits, habs, Int64.ofInt_toInt]
  · have habs : (i.toInt.natAbs : Int) = i.toInt := by omega
    have hfits : i.toInt.natAbs < 1 <<< 63 := by omega
    rw [decide_eq_false hneg, ofNumeral?, if_pos hfits, habs, Int64.ofInt_toInt]

/-- What is written for a 64-bit integer begins as a numeral begins. -/
theorem exists_writeInt (i : Int) : ∃ c cs, writeInt i = c :: cs ∧ (c = '-' ∨ c.isDigit = true) := by
  rw [writeInt]
  split
  · exact ⟨'-', _, rfl, .inl rfl⟩
  · obtain ⟨d, ds, hwrite, -⟩ := exists_writeNat i.natAbs
    exact ⟨d, ds, hwrite, .inr (isDigit_of_mem_writeNat (hwrite ▸ List.mem_cons_self))⟩

end Containers.Json
