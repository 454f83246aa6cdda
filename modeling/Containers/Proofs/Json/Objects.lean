import Containers.Json.Object
import Containers.Proofs.Json.Values

/-!
# Reading back objects

An object is read member by member, and what its members mean is up to the reader.  `TakesUp` says that a
reader of members takes up given members, one after another, whatever stands behind each of them; then it
takes them up from the text that `writeObject` makes of them (`readMembers_writeObject`).
-/

set_option autoImplicit false

namespace Containers.Json

variable {σ : Type} {member : σ → String → Reader σ} {s s' : σ} {m : String × List Char}
  {ms : List (String × List Char)} {rest : List Char} {fuel : Nat}

/-! ## Names and separators -/

/-- Written parts with a comma in front of all but the first. -/
theorem intercalate_cons (part : List Char) (parts : List (List Char)) :
    [','].intercalate (part :: parts) = part ++ parts.flatMap (',' :: ·) := by
  induction parts generalizing part with
  | nil => rw [List.intercalate_singleton, List.flatMap_nil, List.append_nil]
  | cons p ps ih =>
    rw [List.intercalate_cons_cons, ih, List.flatMap_cons, List.append_assoc]
    rfl

/-- A member without the quote that opens its name. -/
def memberBody (m : String × List Char) : List Char :=
  m.1.toList.flatMap escape ++ '"' :: ':' :: m.2

theorem writeMember_append (m : String × List Char) (rest : List Char) :
    writeMember m ++ rest = '"' :: (memberBody m ++ rest) := by
  simp only [writeMember, quote, memberBody, List.cons_append, List.append_assoc, List.nil_append]

theorem readKey_memberBody (m : String × List Char) (rest : List Char) :
    readKey (memberBody m ++ rest) = .ok (m.1, ':' :: (m.2 ++ rest)) := by
  rw [readKey, memberBody, List.append_assoc, List.cons_append, readQuoted_quote]
  exact congrArg (fun k => Except.ok (k, ':' :: (m.2 ++ rest))) String.ofList_toList

/-! ## Members -/

/-- The reader takes up these members one after another, each wherever its value is seen to end. -/
inductive TakesUp (member : σ → String → Reader σ) : σ → List (String × List Char) → σ → Prop
  | nil (s : σ) : TakesUp member s [] s
  | cons {s s' s'' : σ} {m : String × List Char} {ms : List (String × List Char)}
      (h : ∀ rest, EndsNumeral rest → member s m.1 (':' :: (m.2 ++ rest)) = .ok (s', rest))
      (hs : TakesUp member s' ms s'') : TakesUp member s (m :: ms) s''

/-- One more member is read, the first of an object or a further one. -/
theorem readMembers_member (h : member s m.1 (':' :: (m.2 ++ rest)) = .ok (s', rest)) :
    readMembers readKey member (fuel + 1) true s (writeMember m ++ rest) =
        readMembers readKey member fuel false s' rest ∧
      readMembers readKey member (fuel + 1) false s (',' :: (writeMember m ++ rest)) =
        readMembers readKey member fuel false s' rest := by
  have hfirst : nextKey true ('"' :: (memberBody m ++ rest)) = .ok (.part (memberBody m ++ rest)) := rfl
  have hfurther : nextKey false (',' :: '"' :: (memberBody m ++ rest)) =
      .ok (.part (memberBody m ++ rest)) := rfl
  rw [writeMember_append, readMembers, readMembers, hfirst, hfurther]
  dsimp only
  rw [readKey_memberBody]
  dsimp only
  rw [h]
  exact ⟨rfl, rfl⟩

theorem readMembers_further (h : TakesUp member s ms s') (hfuel : ms.length < fuel)
    (rest : List Char) :
    readMembers readKey member fuel false s ((ms.map writeMember).flatMap (',' :: ·) ++ '\x7d' :: rest) =
      .ok (s', rest) := by
  induction h generalizing fuel with
  | nil s =>
    obtain ⟨fuel, rfl⟩ := Nat.exists_eq_add_one_of_ne_zero (Nat.ne_of_gt hfuel)
    rfl
  | cons h hs ih =>
    rename_i m ms
    obtain ⟨fuel, rfl⟩ := Nat.exists_eq_add_one_of_ne_zero (Nat.ne_of_gt (Nat.zero_lt_of_lt hfuel))
    have hm := h _ (endsNumeral_parts (ms.map writeMember) (c := '\x7d') (by decide) rest)
    rw [List.map_cons, List.flatMap_cons, List.append_assoc, List.cons_append,
      (readMembers_member hm).2, ih (Nat.lt_of_succ_lt_succ hfuel)]

/-- What stands between the braces of an object. -/
def objectBody (ms : List (String × List Char)) : List Char := [','].intercalate (ms.map writeMember)

theorem writeObject_append (ms : List (String × List Char)) (rest : List Char) :
    writeObject ms ++ rest = '\x7b' :: (objectBody ms ++ '\x7d' :: rest) := by
  rw [writeObject, objectBody, List.cons_append, List.append_assoc]
  rfl

/-- **A written object is read back member by member.** -/
theorem readMembers_writeObject (h : TakesUp member s ms s') (rest : List Char) :
    readMembers readKey member ((objectBody ms ++ '\x7d' :: rest).length + 1) true s
      (objectBody ms ++ '\x7d' :: rest) = .ok (s', rest) := by
  cases h with
  | nil s => rfl
  | cons h hs =>
    rename_i m ms
    have hm := h _ (endsNumeral_parts (ms.map writeMember) (c := '\x7d') (by decide) rest)
    have hlen := length_le_parts (ms.map writeMember)
    rw [List.length_map] at hlen
    rw [objectBody, List.map_cons, intercalate_cons, List.append_assoc, (readMembers_member hm).1,
      readMembers_further hs]
    rw [List.length_append, List.length_append, List.length_cons]
    omega

end Containers.Json
