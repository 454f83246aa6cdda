import Containers.Json.Value

/-!
# Objects as JSON

Records and maps are written as objects.  `writeObject` writes members that have been written
already, and `readKey` reads the name of a member.

A document may be nested `nestingLimit` levels deep, counting the document itself.
-/

set_option autoImplicit false

namespace Containers.Json

/-- How deeply a document may be nested. -/
def nestingLimit : Nat := 127

/-- A member of an object: its name between quotes and its value, which has been written already. -/
def writeMember (m : String × List Char) : List Char := quote m.1.toList ++ ':' :: m.2

/-- An object of members whose values have been written already. -/
def writeObject (members : List (String × List Char)) : List Char :=
  '\x7b' :: ([','].intercalate (members.map writeMember) ++ ['\x7d'])

/-- Reads a key after its opening quote. -/
def readKey : Reader String := fun cs => (readQuoted cs).map fun r => (String.ofList r.1, r.2)

end Containers.Json
