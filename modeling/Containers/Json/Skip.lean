import Containers.Json.Numeral
import Containers.Json.Quoted

/-!
# Passing over values

A document may have members that nobody asked for.  They have to be JSON, or else nobody could tell
where they end, but they need make no sense: any depth of nesting, any size of number and any number
of a character will do.

Being JSON is judged more briefly here.  A numeral that breaks off is malformed even where the text
ends.
-/

set_option autoImplicit false

namespace Containers.Json

/-- Passes over a value that is nested less deeply than the given depth. -/
def skipValue : Nat → Reader Unit
  | 0 => fun _ => .error .malformed
  | depth + 1 => fun cs =>
    match skipBlank cs with
    | [] => .error .unfinished
    | c :: rest =>
      if c = 'n' then readKeyword ['u', 'l', 'l'] rest
      else if c = 't' then readKeyword ['r', 'u', 'e'] rest
      else if c = 'f' then readKeyword ['a', 'l', 's', 'e'] rest
      else if c = '-' ∨ c.isDigit then skipNumeral (c :: rest)
      else if c = '"' then skipQuoted rest
      else if c = '[' then
        match readElements (skipValue depth) (rest.length + 1) true rest with
        | .error f => .error f
        | .ok (_, rest) => .ok ((), rest)
      else if c = '\x7b' then
        readMembers skipQuoted (fun s _ => skipMemberValue (skipValue depth) s) (rest.length + 1)
          true () rest
      else .error .malformed

/-- Passes over a value, however deeply nested. -/
def skipAny : Reader Unit := fun cs => skipValue (cs.length + 1) cs

end Containers.Json
