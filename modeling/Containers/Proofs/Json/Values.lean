import Containers.Proofs.Json.Numerals
import Containers.Json.RoundTrip

/-!
# Reading back values

`write` and `readAny` belong together: a value that is nested no deeper than the budget allows is read back
from its text (`readAny_write`), and `readAny` yields no others (`nestedWithin_of_readAny`).  So what has
been read once can be written and read again.

Elements of a list are separated as members of an object are: a comma stands in front of all but the first
(`writeItems_cons`), where the readers look for it.  A part is either followed by another comma or by the
closing bracket, and neither carries a numeral on (`endsNumeral_parts`).
-/

set_option autoImplicit false

namespace Containers.Json

/-- Whether a value is nested at most so many levels deep. -/
def nestedWithin : Nat → Value → Bool
  | 0, .list _ => false
  | depth + 1, .list vs => vs.all (nestedWithin depth)
  | _, _ => true

variable {v : Value} {vs : List Value} {rest cs : List Char} {depth fuel : Nat}

/-- A scalar is within every bound. -/
theorem nestedWithin_of_scalar (hv : nestedWithin 0 v = true) (depth : Nat) :
    nestedWithin depth v = true := by
  cases v with
  | list vs => cases hv
  | _ => cases depth <;> rfl

/-! ## First characters -/

theorem skipBlank_cons {c : Char} (hc : isBlank c = false) (cs : List Char) :
    skipBlank (c :: cs) = c :: cs :=
  List.dropWhile_cons_of_neg (by rw [hc]; exact Bool.false_ne_true)

theorem ne_of_beginsNumeral {c d : Char} (hc : c = '-' ∨ c.isDigit = true)
    (hd : d ≠ '-' ∧ d.isDigit = false) : c ≠ d := by
  rintro rfl
  rcases hc with hc | hc
  · exact hd.1 hc
  · exact absurd (hc.symm.trans hd.2) (by decide)

theorem isBlank_of_beginsNumeral {c : Char} (hc : c = '-' ∨ c.isDigit = true) : isBlank c = false := by
  rw [isBlank, decide_eq_false (ne_of_beginsNumeral hc (by decide)),
    decide_eq_false (ne_of_beginsNumeral hc (by decide)),
    decide_eq_false (ne_of_beginsNumeral hc (by decide)),
    decide_eq_false (ne_of_beginsNumeral hc (by decide))]
  rfl

/-- A value begins with a character of its own: no blank, and no bracket that closes a list. -/
theorem exists_write (v : Value) : ∃ c cs, write v = c :: cs ∧ isBlank c = false ∧ c ≠ ']' := by
  cases v with
  | null => exact ⟨'n', _, rfl, by decide⟩
  | bool b =>
    cases b
    · exact ⟨'f', _, rfl, by decide⟩
    · exact ⟨'t', _, rfl, by decide⟩
  | int i =>
    obtain ⟨c, cs, hwrite, hc⟩ := exists_writeInt i.toInt
    refine ⟨c, cs, ?_, isBlank_of_beginsNumeral hc, ne_of_beginsNumeral hc (by decide)⟩
    rw [write, hwrite]
  | text s => exact ⟨'"', _, rfl, by decide⟩
  | list vs => exact ⟨'[', _, rfl, by decide⟩

theorem endsNumeral_cons {c : Char} (hc : c.isDigit = false ∧ c ≠ '.' ∧ isExponentLetter c = false)
    (cs : List Char) : EndsNumeral (c :: cs) := by
  intro d hd
  obtain rfl := Option.some.inj hd
  exact hc

/-! ## Scalars -/

variable {list object : Reader (Option Value)}

/-- A scalar is read back without a look at lists and objects. -/
theorem readAnyWith_write (hv : nestedWithin 0 v = true) (hrest : EndsNumeral rest) :
    readAnyWith list object (write v ++ rest) = .ok (some v, rest) := by
  cases v with
  | null => rfl
  | bool b => cases b <;> rfl
  | int i =>
    have hread := readNumeral_writeInt i hrest
    obtain ⟨c, cs, hwrite, hc⟩ := exists_writeInt i.toInt
    rw [hwrite, List.cons_append] at hread
    rw [write, hwrite, List.cons_append, readAnyWith, skipBlank_cons (isBlank_of_beginsNumeral hc)]
    dsimp only
    rw [if_neg (ne_of_beginsNumeral hc (by decide)), if_neg (ne_of_beginsNumeral hc (by decide)),
      if_neg (ne_of_beginsNumeral hc (by decide)), if_pos hc, hread]
    exact congrArg (fun v => Except.ok (v, rest)) (ofNumeral?_eq i)
  | text s =>
    have hread := readQuoted_quote s.toList rest
    rw [write, quote, List.cons_append, List.append_assoc]
    show (readQuoted (s.toList.flatMap escape ++ '"' :: rest)).map _ = _
    rw [hread]
    exact congrArg (fun s => Except.ok (some (Value.text s), rest)) String.ofList_toList
  | list vs => cases hv

/-! ## Lists -/

/-- A comma stands in front of all elements but the first. -/
theorem writeItems_cons (v : Value) (vs : List Value) :
    writeItems (v :: vs) = write v ++ (vs.map write).flatMap (',' :: ·) := by
  induction vs generalizing v with
  | nil => rw [writeItems, List.map_nil, List.flatMap_nil, List.append_nil]
  | cons w ws ih =>
    rw [writeItems, ih, List.map_cons, List.flatMap_cons, List.cons_append]
    exact List.cons_ne_nil w ws

/-- What stands behind a part ends a numeral. -/
theorem endsNumeral_parts (parts : List (List Char)) {c : Char}
    (hc : c.isDigit = false ∧ c ≠ '.' ∧ isExponentLetter c = false) (rest : List Char) :
    EndsNumeral (parts.flatMap (',' :: ·) ++ c :: rest) := by
  cases parts with
  | nil => exact endsNumeral_cons hc rest
  | cons p ps => exact endsNumeral_cons (by decide) _

theorem length_le_parts (parts : List (List Char)) :
    parts.length ≤ (parts.flatMap (',' :: ·)).length := by
  induction parts with
  | nil => exact Nat.le_refl 0
  | cons p ps ih =>
    rw [List.flatMap_cons, List.length_append, List.length_cons, List.length_cons]
    omega

theorem nextElement_closed (first : Bool) (rest : List Char) :
    nextElement first (']' :: rest) = .ok (.closed rest) := rfl

theorem nextElement_first (v : Value) (rest : List Char) :
    nextElement true (write v ++ rest) = .ok (.part (write v ++ rest)) := by
  obtain ⟨c, cs, hwrite, hblank, hc⟩ := exists_write v
  rw [hwrite, List.cons_append, nextElement, skipBlank_cons hblank]
  dsimp only
  rw [if_neg hc]
  rfl

theorem nextElement_further (v : Value) (rest : List Char) :
    nextElement false (',' :: (write v ++ rest)) = .ok (.part (write v ++ rest)) := by
  obtain ⟨c, cs, hwrite, hblank, hc⟩ := exists_write v
  rw [hwrite, List.cons_append, nextElement, skipBlank_cons (by decide)]
  dsimp only
  rw [if_neg (by decide), if_neg (by decide), if_pos rfl, skipBlank_cons hblank]
  dsimp only
  rw [if_neg hc]

/-- A reader reads these values back, whatever stands behind them. -/
def ReadsBack (element : Reader (Option Value)) (vs : List Value) : Prop :=
  ∀ v ∈ vs, ∀ rest, EndsNumeral rest → element (write v ++ rest) = .ok (some v, rest)

theorem readElements_further {element : Reader (Option Value)} (h : ReadsBack element vs)
    (hfuel : vs.length < fuel) (rest : List Char) :
    readElements element fuel false ((vs.map write).flatMap (',' :: ·) ++ ']' :: rest) =
      .ok (vs.map some, rest) := by
  induction vs generalizing fuel with
  | nil =>
    obtain ⟨fuel, rfl⟩ := Nat.exists_eq_add_one_of_ne_zero (Nat.ne_of_gt hfuel)
    rw [List.map_nil, List.flatMap_nil, List.nil_append, readElements, nextElement_closed]
    rfl
  | cons v vs ih =>
    obtain ⟨fuel, rfl⟩ := Nat.exists_eq_add_one_of_ne_zero (Nat.ne_of_gt (Nat.zero_lt_of_lt hfuel))
    have hv := h v List.mem_cons_self _ (endsNumeral_parts (vs.map write) (c := ']') (by decide) rest)
    have hrest := ih (fun w hw => h w (List.mem_cons_of_mem v hw)) (Nat.lt_of_succ_lt_succ hfuel)
    rw [List.map_cons, List.flatMap_cons, List.append_assoc, List.cons_append, readElements,
      nextElement_further]
    dsimp only
    rw [hv]
    dsimp only
    rw [hrest]
    rfl

/-- The elements of a list are read back. -/
theorem readElements_writeItems {element : Reader (Option Value)} (h : ReadsBack element vs)
    (rest : List Char) :
    readElements element ((writeItems vs ++ ']' :: rest).length + 1) true
      (writeItems vs ++ ']' :: rest) = .ok (vs.map some, rest) := by
  cases vs with
  | nil => rfl
  | cons v vs =>
    have hv := h v List.mem_cons_self _ (endsNumeral_parts (vs.map write) (c := ']') (by decide) rest)
    have hlen := length_le_parts (vs.map write)
    rw [writeItems_cons, List.append_assoc, readElements, nextElement_first]
    dsimp only
    rw [hv]
    dsimp only
    rw [readElements_further (fun w hw => h w (List.mem_cons_of_mem v hw))]
    · rfl
    · rw [List.length_append, List.length_append, List.length_cons]
      rw [List.length_map] at hlen
      omega

/-- **A value is read back from its text**, if it is nested no deeper than the budget allows and nothing
stands behind it that would carry a numeral on. -/
theorem readAny_write (hv : nestedWithin depth v = true) (hrest : EndsNumeral rest) :
    readAny depth (write v ++ rest) = .ok (some v, rest) := by
  induction depth generalizing v rest with
  | zero =>
    rw [readAny]
    exact readAnyWith_write hv hrest
  | succ depth ih =>
    rw [readAny]
    cases v with
    | list vs =>
      have hback : ReadsBack (readAny depth) vs := fun w hw rest hrest =>
        ih (List.all_eq_true.1 hv w hw) hrest
      rw [write, List.cons_append, List.cons_append, List.append_assoc, List.singleton_append]
      show (readElements (readAny depth) _ true (writeItems vs ++ ']' :: rest)).map _ = _
      rw [readElements_writeItems hback]
      exact congrArg (fun v => Except.ok (v, rest)) (ofElements?_map_some vs)
    | _ => exact readAnyWith_write rfl hrest

/-! ## What is read -/

theorem of_map_eq_ok {α β ε : Type} {o : Except ε α} {f : α → β} {b : β} (h : o.map f = .ok b) :
    ∃ a, o = .ok a ∧ f a = b := by
  cases o with
  | error e => cases h
  | ok a => exact ⟨a, rfl, Except.ok.inj h⟩

/-- What every element is, the elements of a list are. -/
theorem forall_of_readElements {α : Type} {element : Reader α} {P : α → Prop}
    (h : ∀ cs a rest, element cs = .ok (a, rest) → P a) {first : Bool} {as : List α}
    (hread : readElements element fuel first cs = .ok (as, rest)) : ∀ a ∈ as, P a := by
  induction fuel generalizing first cs as with
  | zero => cases hread
  | succ fuel ih =>
    rw [readElements] at hread
    split at hread
    · cases hread
    · cases hread
      exact List.forall_mem_nil _
    · split at hread
      · cases hread
      · rename_i helement
        split at hread
        · cases hread
        · rename_i helements
          cases hread
          exact List.forall_mem_cons.2 ⟨h _ _ _ helement, ih helements⟩

/-- What every member keeps is true of what is gathered from an object. -/
theorem of_readMembers {κ σ : Type} {key : Reader κ} {member : σ → κ → Reader σ} {P : σ → Prop}
    (h : ∀ s k cs s' rest, P s → member s k cs = .ok (s', rest) → P s') {first : Bool} {s s' : σ}
    (hs : P s) (hread : readMembers key member fuel first s cs = .ok (s', rest)) : P s' := by
  induction fuel generalizing first cs s with
  | zero => cases hread
  | succ fuel ih =>
    rw [readMembers] at hread
    split at hread
    · cases hread
    · cases hread
      exact hs
    · split at hread
      · cases hread
      · split at hread
        · cases hread
        · rename_i hmember
          exact ih (h _ _ _ _ _ hs hmember) hread

theorem eq_map_some_of_mapM {elements : List (Option Value)} (h : elements.mapM id = some vs) :
    elements = vs.map some := by
  induction elements generalizing vs with
  | nil =>
    rw [List.mapM_nil] at h
    obtain rfl := Option.some.inj h
    rfl
  | cons e es ih =>
    rw [List.mapM_cons] at h
    obtain ⟨w, he, hes⟩ := Option.bind_eq_some_iff.1 h
    obtain ⟨ws, hws, hvs⟩ := Option.bind_eq_some_iff.1 hes
    obtain rfl := Option.some.inj hvs
    rw [ih hws, List.map_cons]
    exact congrArg (· :: ws.map some) he

theorem scalar_of_ofNumeral? {numeral : Numeral} (h : ofNumeral? numeral = some v) :
    nestedWithin 0 v = true := by
  rcases numeral with ⟨negative | negative, n⟩ | - <;> rw [ofNumeral?] at h
  · split at h <;> cases h
    rfl
  · split at h <;> cases h
    rfl
  · cases h

/-- What is read is a scalar, or it is what lists and objects are read as. -/
theorem of_readAnyWith {P : Value → Prop} (scalar : ∀ v, nestedWithin 0 v = true → P v)
    (hlist : ∀ cs v rest, list cs = .ok (some v, rest) → P v)
    (hobject : ∀ cs v rest, object cs = .ok (some v, rest) → P v)
    (hread : readAnyWith list object cs = .ok (some v, rest)) : P v := by
  rw [readAnyWith] at hread
  split at hread
  · cases hread
  · rename_i c cs _
    split at hread
    · obtain ⟨r, -, hr⟩ := of_map_eq_ok hread
      cases hr
      exact scalar _ rfl
    split at hread
    · obtain ⟨r, -, hr⟩ := of_map_eq_ok hread
      cases hr
      exact scalar _ rfl
    split at hread
    · obtain ⟨r, -, hr⟩ := of_map_eq_ok hread
      cases hr
      exact scalar _ rfl
    split at hread
    · obtain ⟨r, -, hr⟩ := of_map_eq_ok hread
      exact scalar v (scalar_of_ofNumeral? (Prod.mk.inj hr).1)
    split at hread
    · obtain ⟨r, -, hr⟩ := of_map_eq_ok hread
      cases hr
      exact scalar _ rfl
    split at hread
    · exact hlist _ _ _ hread
    split at hread
    · exact hobject _ _ _ hread
    · cases hread

/-- **What is read is nested no deeper than the budget allows.** -/
theorem nestedWithin_of_readAny (hread : readAny depth cs = .ok (some v, rest)) :
    nestedWithin depth v = true := by
  induction depth generalizing v cs rest with
  | zero =>
    rw [readAny] at hread
    refine of_readAnyWith (fun v hv => hv) (fun cs v rest h => ?_) (fun cs v rest h => ?_) hread
    · cases h
    · cases h
  | succ depth ih =>
    rw [readAny] at hread
    refine of_readAnyWith (fun v hv => nestedWithin_of_scalar hv _) ?_ ?_ hread
    · intro cs v rest hlist
      obtain ⟨⟨elements, after⟩, helements, hv⟩ := of_map_eq_ok hlist
      obtain ⟨vs, hvs, rfl⟩ := Option.map_eq_some_iff.1 (Prod.mk.inj hv).1
      have hall := forall_of_readElements (P := fun a => ∀ v, a = some v → nestedWithin depth v = true)
        (fun cs a rest ha v hav => ih (hav ▸ ha)) helements
      refine List.all_eq_true.2 fun w hw => hall (some w) ?_ w rfl
      rw [show elements = vs.map some from eq_map_some_of_mapM hvs]
      exact List.mem_map_of_mem hw
    · -- the members of an object are passed over, and an object is no value
      intro cs v rest hobject
      have hnone := of_readMembers (P := fun s : Option Value => s = none) (fun s k cs s' rest hs h => ?_)
        rfl hobject
      · cases hnone
      · obtain ⟨r, -, hr⟩ := of_map_eq_ok h
        rw [← (Prod.mk.inj hr).1, hs]

theorem readValue_write (hv : nestedWithin depth v = true) (hrest : EndsNumeral rest) :
    readValue depth (write v ++ rest) = .ok (v, rest) := by
  rw [readValue, readAny_write hv hrest]

theorem nestedWithin_of_readValue (hread : readValue depth cs = .ok (v, rest)) :
    nestedWithin depth v = true := by
  rw [readValue] at hread
  split at hread
  · cases hread
  · cases hread
  · rename_i h
    cases hread
    exact nestedWithin_of_readAny h

end Containers.Json
