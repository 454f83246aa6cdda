/-!
# Faults

A call on a container can be cut short for three reasons only, and two more come from sifting a slot
that the caller has chosen and that is not there.  A fault is never a broken container: each
operation says what it leaves behind when it ends in one, and the container stays in use.
-/

set_option autoImplicit false

namespace Containers

/-- Why a call was cut short. -/
inductive Fault where
  /-- The priority of a heap lets the element just added precede itself. -/
  | reflexivePriority
  /-- A conditional replacement met a present key, and the map has no equality to judge it by. -/
  | missingEquality
  /-- More room was asked for than an array can take. -/
  | capacityOverflow
  /-- A slot was named whose children would have numbers that are no words. -/
  | slotOverflow
  /-- A slot was named that an array of this size does not have. -/
  | noSuchSlot (size slot : Nat)
  deriving DecidableEq

/-- What is reported about a fault. -/
def Fault.message : Fault → String
  | .reflexivePriority => "comparator is not irreflexive: less(x, x) returned true"
  | .missingEquality => "compare_and_swap called without an equality function"
  | .capacityOverflow => "capacity overflow"
  | .slotOverflow => "attempt to multiply with overflow"
  | .noSuchSlot size slot => s!"index out of bounds: the len is {size} but the index is {slot}"

end Containers
