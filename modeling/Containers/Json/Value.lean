import Containers.Json.Numeral
import Containers.Json.Quoted
import Containers.Shape
import Containers.Value.Basic

/-!
# Values as JSON

* `write` is the compact JSON text of a value: no blanks, and no escapes but those that are needed.
  `shape` shows a value by that text, and `label` names it by its text, without quotes if it is one.
* `readAny` reads anything that is JSON and nested no deeper than its budget allows, and says which
  value it is.  Numbers other than the integers of 64 bits are no values, nor are objects, nor lists
  that hold such things.
* `readValue` asks for a value.  It reads all of what there is before it judges, so what is wrong
  anywhere inside of it comes before the fact that it is no value.
* `readOther` is for the place where something else was wanted: it finds out whether there is a
  value at all.  A scalar is read to its end first, so what is wrong inside of it comes before the
  fact that it is not what was wanted.
-/

set_option autoImplicit false

namespace Containers.Json

/-! ## Writing -/

/-- The decimal digits of a number. -/
def writeNat (n : Nat) : List Char := Nat.toDigits 10 n

/-- The decimal digits of an integer, with a sign if it is negative. -/
def writeInt (i : Int) : List Char :=
  if i < 0 then '-' :: writeNat i.natAbs else writeNat i.natAbs

mutual

/-- The compact JSON text of a value. -/
def write : Value → List Char
  | .null => ['n', 'u', 'l', 'l']
  | .bool true => ['t', 'r', 'u', 'e']
  | .bool false => ['f', 'a', 'l', 's', 'e']
  | .int i => writeInt i.toInt
  | .text s => quote s.toList
  | .list vs => '[' :: writeItems vs ++ [']']

/-- Values one after another, separated by commas. -/
def writeItems : List Value → List Char
  | [] => []
  | [v] => write v
  | v :: vs => write v ++ ',' :: writeItems vs

end

/-- The compact JSON text of a value as a string. -/
def writeString (v : Value) : String := String.ofList (write v)

/-- How a value shows itself: as its compact JSON text. -/
def shape (v : Value) : Shape := .atom (writeString v)

/-- What a value is called: a text by itself, and everything else by its compact JSON text. -/
def label : Value → String
  | .text s => s
  | v => writeString v

/-! ## Reading -/

/-- The value that a numeral stands for, if it stands for one. -/
def ofNumeral? : Numeral → Option Value
  | .integer false n => if n < 1 <<< 63 then some (.int (Int64.ofInt n)) else none
  | .integer true n => if n ≤ 1 <<< 63 then some (.int (Int64.ofInt (-n))) else none
  | .fractional => none

/-- The list of the given elements, if all of them are values. -/
def ofElements? (elements : List (Option Value)) : Option Value := (elements.mapM id).map .list

@[simp] theorem ofElements?_map_some (vs : List Value) :
    ofElements? (vs.map some) = some (.list vs) := by
  have h : (vs.map some).mapM id = some vs := by
    induction vs with
    | nil => rfl
    | cons v vs ih => rw [List.map_cons, List.mapM_cons, ih]; rfl
  rw [ofElements?, h]
  rfl

/-- The word that a numeral stands for. -/
def wordOfNumeral : Numeral → Except ReadFault UInt64
  | .integer false n => if n < 1 <<< 64 then .ok (UInt64.ofNat n) else .error .mismatched
  | _ => .error .mismatched

/-- Reads anything that is JSON, given how a list and an object are read after their opening
brackets. -/
def readAnyWith (list object : Reader (Option Value)) : Reader (Option Value) := fun cs =>
  match skipBlank cs with
  | [] => .error .unfinished
  | c :: rest =>
    if c = 'n' then (readKeyword ['u', 'l', 'l'] rest).map fun r => (some .null, r.2)
    else if c = 't' then (readKeyword ['r', 'u', 'e'] rest).map fun r => (some (.bool true), r.2)
    else if c = 'f' then
      (readKeyword ['a', 'l', 's', 'e'] rest).map fun r => (some (.bool false), r.2)
    else if c = '-' ∨ c.isDigit then
      (readNumeral (c :: rest)).map fun r => (ofNumeral? r.1, r.2)
    else if c = '"' then (readQuoted rest).map fun r => (some (.text (String.ofList r.1)), r.2)
    else if c = '[' then list rest
    else if c = '\x7b' then object rest
    else .error .malformed

/-- Reads anything that is JSON, and says which value it is, if it is one.  Each level of lists and
objects takes one from the budget; once the budget is used up, neither can begin. -/
def readAny : Nat → Reader (Option Value)
  | 0 => readAnyWith (fun _ => .error .malformed) (fun _ => .error .malformed)
  | budget + 1 =>
    readAnyWith
      (fun rest =>
        (readElements (readAny budget) (rest.length + 1) true rest).map fun r =>
          (ofElements? r.1, r.2))
      (fun rest =>
        readMembers readQuoted (fun s _ => skipMemberValue (readAny budget) s) (rest.length + 1)
          true none rest)

/-- Reads a value.  That something is no value turns out after the whole of it has been read. -/
def readValue (budget : Nat) : Reader Value := fun cs =>
  match readAny budget cs with
  | .error f => .error f
  | .ok (none, _) => .error .mismatched
  | .ok (some v, rest) => .ok (v, rest)

/-- Why the text does not begin with what was wanted, given that no value of another shape is. -/
def readOther (cs : List Char) : ReadFault :=
  match skipBlank cs with
  | [] => .unfinished
  | c :: rest =>
    let after {α : Type} : Reading α → ReadFault
      | .error f => f
      | .ok _ => .mismatched
    if c = 'n' then after (readKeyword ['u', 'l', 'l'] rest)
    else if c = 't' then after (readKeyword ['r', 'u', 'e'] rest)
    else if c = 'f' then after (readKeyword ['a', 'l', 's', 'e'] rest)
    else if c = '-' ∨ c.isDigit then after (readNumeral (c :: rest))
    else if c = '"' then after (readQuoted rest)
    else if c = '[' ∨ c = '\x7b' then .mismatched
    else .malformed

/-- Reads a number that fits a word and is not negative. -/
def readWord : Reader UInt64 := fun cs =>
  match skipBlank cs with
  | [] => .error .unfinished
  | c :: rest =>
    if c = '-' ∨ c.isDigit then
      match readNumeral (c :: rest) with
      | .error f => .error f
      | .ok (n, rest) => (wordOfNumeral n).map fun w => (w, rest)
    else .error (readOther (c :: rest))

end Containers.Json
