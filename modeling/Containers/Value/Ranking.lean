import Containers.Priority
import Containers.Equality
import Containers.Value.Basic

/-!
# Named comparisons of values

A container can be given any comparison of its values.  `Ranking` lists the priorities that can be
asked for by name and `Likeness` the equalities.  Some of them are orders and equivalences; others
are wrong on purpose — reflexive, cyclic, constant or asymmetric — because the containers promise to
stay intact under every comparison, and it has to be possible to hold them to it.

All arithmetic is on exact integers, so distances and absolute values are right at both ends of the
64-bit range, and remainders are never negative.
-/

set_option autoImplicit false

namespace Containers

/-- The priorities that can be asked for by name. -/
inductive Ranking where
  /-- The smallest value first. -/
  | min
  /-- The largest value first. -/
  | max
  /-- The smallest key first. -/
  | keyMin
  /-- The largest key first. -/
  | keyMax
  /-- The key nearest to zero first. -/
  | magnitude
  /-- The smallest last digit of the key first. -/
  | lastDigit
  /-- By key among keys that are not negative; a negative key is comparable with nothing. -/
  | nonNegative
  /-- Keys beat each other in a circle of three. -/
  | circle
  /-- Nothing precedes anything. -/
  | never
  /-- Everything precedes everything. -/
  | always
  /-- Every value precedes itself and all larger ones. -/
  | atMost
  /-- By key, except that a value with an odd key also precedes its equals. -/
  | oddReflexive
  deriving DecidableEq

/-- The priority that goes by a name. -/
def Ranking.ofName? : String → Option Ranking
  | "min" => some .min
  | "max" => some .max
  | "key_min" => some .keyMin
  | "key_max" => some .keyMax
  | "abs" => some .magnitude
  | "mod10" => some .lastDigit
  | "nonneg" => some .nonNegative
  | "rps" => some .circle
  | "never" => some .never
  | "always" => some .always
  | "le" => some .atMost
  | "odd_refl" => some .oddReflexive
  | _ => none

/-- Whether the first value leaves before the second. -/
def Ranking.less : Ranking → Priority Value
  | .min => minFirst
  | .max => maxFirst
  | .keyMin => fun a b => a.key < b.key
  | .keyMax => fun a b => b.key < a.key
  | .magnitude => fun a b => a.key.natAbs < b.key.natAbs
  | .lastDigit => fun a b => a.key % 10 < b.key % 10
  | .nonNegative => fun a b => 0 ≤ a.key && 0 ≤ b.key && a.key < b.key
  | .circle => fun a b => (b.key - a.key) % 3 = 1
  | .never => fun _ _ => false
  | .always => fun _ _ => true
  | .atMost => fun a b => (compare a b).isLE
  | .oddReflexive => fun a b => a.key < b.key || (a.key = b.key && a.key % 2 = 1)

/-- The equalities that can be asked for by name. -/
inductive Likeness where
  /-- The very same value. -/
  | same
  /-- No two values, not even a value and itself. -/
  | never
  /-- Any two values. -/
  | always
  /-- The first is at most the second. -/
  | atMost
  /-- Keys that differ by one at most. -/
  | near
  /-- Keys with the same last digit. -/
  | lastDigit
  /-- The same key. -/
  | key
  deriving DecidableEq

/-- The equality that goes by a name. -/
def Likeness.ofName? : String → Option Likeness
  | "native" => some .same
  | "never" => some .never
  | "always" => some .always
  | "le" => some .atMost
  | "near" => some .near
  | "mod10" => some .lastDigit
  | "key" => some .key
  | _ => none

/-- Whether the first value counts as equal to the second. -/
def Likeness.holds : Likeness → Value → Value → Bool
  | .same => fun a b => Equality.native.holds a b
  | .never => fun _ _ => false
  | .always => fun _ _ => true
  | .atMost => fun a b => (compare a b).isLE
  | .near => fun a b => (a.key - b.key).natAbs ≤ 1
  | .lastDigit => fun a b => a.key % 10 = b.key % 10
  | .key => fun a b => a.key = b.key

/-- A likeness as an equality that a map can be given. -/
def Likeness.equality (l : Likeness) : Equality Value := ⟨l.holds⟩

end Containers
