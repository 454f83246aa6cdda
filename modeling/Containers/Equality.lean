/-!
# Equality of values

A map compares stored values only when it is asked to replace one conditionally, and it never
assumes that values can be compared at all: the test is attached when the map is built.  `Equality`
is that attachment.  It is used exactly as given, with the stored value first, so it need be neither
reflexive nor symmetric.
-/

set_option autoImplicit false

namespace Containers

/-- A test by which two values count as equal. -/
structure Equality (ν : Type) where
  /-- Whether the two values count as equal. -/
  holds : ν → ν → Bool

/-- The equality that a type has by itself, whether or not a value is always equal to itself. -/
def Equality.native {ν : Type} [BEq ν] : Equality ν := ⟨fun a b => a == b⟩

/-- How an equality shows itself: the test inside cannot be printed. -/
def Equality.describe {ν : Type} (_ : Equality ν) : String := "Equality(..)"

end Containers
