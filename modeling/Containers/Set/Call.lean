/-!
# Calls on sets as data

`SetCall` is a question that every set understands and `SetReply` the answer to one.  The members in
a reply come in no particular order.
-/

set_option autoImplicit false

namespace Containers

/-- A call that every set understands. -/
inductive SetCall (κ : Type) where
  /-- Make something a member. -/
  | add (k : κ)
  /-- Let something be no member. -/
  | delete (k : κ)
  /-- Ask whether something is a member. -/
  | has (k : κ)
  /-- Count the members. -/
  | size
  /-- Ask whether there are no members. -/
  | isEmpty
  /-- Drop all members. -/
  | clear
  /-- Copy all members. -/
  | toArray

/-- The answer to a call on a set. -/
inductive SetReply (κ : Type) where
  /-- The call was carried out and has nothing to say. -/
  | done
  /-- Whether something is the case. -/
  | flag (b : Bool)
  /-- A number of members. -/
  | count (n : Nat)
  /-- Members. -/
  | members (ks : Array κ)
  deriving DecidableEq

end Containers
