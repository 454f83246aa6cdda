import Containers.PriorityQueue.Basic

/-!
# Elements that know their slot

A priority queue takes back, replaces and repairs elements by slot, but slots change with every
call.  Elements can keep up by recording their own slot, and a swap hook is enough to do it:
whenever two slots are exchanged, each of the two elements writes down where it is now.

A `TrackedQueue` is a priority queue used in this way.  The queue holds *handles*; what a handle
stands for — a name, a rank, the recorded slot — is kept in a table beside it, where a rank can also
be changed behind the queue's back.  A register finds the latest element of each name.

* `TrackedQueue.perform` puts a call to the queue, ordered by the present ranks, and then enters
  into the table what the hook was told.
* `TrackedQueue.add`, `setRank`, `fixByName`, `removeByName` and `replaceByName` are the uses that
  go by name.  All but the first answer `none` for a name that was never added.
* `TrackedQueue.takeMany` and `drain` take elements one after another, each as the table has it at
  that moment.
-/

set_option autoImplicit false

namespace Containers

/-- Where the table keeps an element. -/
abbrev Handle := Nat

/-- An element that knows its slot. -/
structure TrackedElement (ι ρ : Type) where
  /-- What the element is called. -/
  name : ι
  /-- What it is ordered by. -/
  rank : ρ
  /-- The slot it believes to be in. -/
  slot : Nat

/-- A slot that an element has moved to. -/
structure Placement where
  /-- The element. -/
  handle : Handle
  /-- Where it is now. -/
  slot : Nat

/-- The hook: after an exchange the elements of both slots have new places. -/
def Placement.hook : Heap.SwapHook Handle (List Placement) := fun i j handles =>
  (handles[i]?.map (Placement.mk · i)).toList ++ (handles[j]?.map (Placement.mk · j)).toList

/-- A priority queue whose elements record their slots. -/
structure TrackedQueue (ι ρ : Type) where
  /-- The queue of handles. -/
  queue : PriorityQueue Handle (List Placement)
  /-- Which of two ranks leaves first. -/
  order : Priority ρ
  /-- Every element there has ever been, by handle. -/
  elements : Array (TrackedElement ι ρ)
  /-- The latest element of each name, most recent first. -/
  register : List (ι × Handle)

namespace TrackedQueue

variable {ι ρ : Type}

/-- A queue of the given kind without elements. -/
def empty (kind : PriorityQueueKind) (order : Priority ρ) : TrackedQueue ι ρ :=
  ⟨(PriorityQueue.empty kind fun _ _ => false).withOnSwap Placement.hook, order, #[], []⟩

/-- Writes down a new slot. -/
def record (elements : Array (TrackedElement ι ρ)) (p : Placement) : Array (TrackedElement ι ρ) :=
  elements.modify p.handle fun e => { e with slot := p.slot }

/-- The order of handles by the ranks in a table.  A handle that is not in the table precedes
nothing. -/
def byRank (order : Priority ρ) (elements : Array (TrackedElement ι ρ)) : Priority Handle :=
  fun a b =>
    match elements[a]?, elements[b]? with
    | some a, some b => order a.rank b.rank
    | _, _ => false

/-- Puts a call to the queue under a given order of handles, and enters the new slots. -/
def performBy (less : Priority Handle) (c : IndexedCall Handle) (t : TrackedQueue ι ρ) :
    Except Fault (Reply Handle) × TrackedQueue ι ρ :=
  let o := (t.queue.withPriority less).run c
  let elements := o.log.foldl (fun es ps => ps.foldl record es) t.elements
  (o.answer, { t with queue := o.state, elements })

/-- Puts a call to the queue under the order of the present ranks, and enters the new slots. -/
def perform (c : IndexedCall Handle) (t : TrackedQueue ι ρ) :
    Except Fault (Reply Handle) × TrackedQueue ι ρ :=
  t.performBy (byRank t.order t.elements) c

/-- The number of queued elements. -/
def size (t : TrackedQueue ι ρ) : Nat := t.queue.toArray.size

/-- The element a handle stands for. -/
def element? (t : TrackedQueue ι ρ) (h : Handle) : Option (TrackedElement ι ρ) := t.elements[h]?

/-- The queued elements, slot by slot. -/
def toArray (t : TrackedQueue ι ρ) : Array (TrackedElement ι ρ) := t.queue.toArray.filterMap t.element?

/-- Enters a new element into the table and the register; the queue does not know it yet. -/
def enter (name : ι) (rank : ρ) (slot : Nat) (t : TrackedQueue ι ρ) : TrackedQueue ι ρ :=
  { t with
    elements := t.elements.push ⟨name, rank, slot⟩
    register := (name, t.elements.size) :: t.register }

/-- Adds a new element, which expects to be appended in the last slot. -/
def add (name : ι) (rank : ρ) (t : TrackedQueue ι ρ) :
    Except Fault (Reply Handle) × TrackedQueue ι ρ :=
  let handle := t.elements.size
  (t.enter name rank t.size).perform (.plain (.push handle))

/-- Takes up to `n` elements; each is listed as the table has it right after it was taken. -/
def takeMany : Nat → TrackedQueue ι ρ → List (TrackedElement ι ρ) × TrackedQueue ι ρ
  | 0, t => ([], t)
  | n + 1, t =>
    match t.perform (.plain .pop) with
    | (.ok (.item (some h)), t) =>
      let rest := takeMany n t
      ((t.element? h).toList ++ rest.1, rest.2)
    | (_, t) => ([], t)

/-- Takes all elements. -/
def drain (t : TrackedQueue ι ρ) : List (TrackedElement ι ρ) × TrackedQueue ι ρ := t.takeMany t.size

variable [DecidableEq ι]

/-- The latest element of a name. -/
def find? (name : ι) (t : TrackedQueue ι ρ) : Option Handle := t.register.lookup name

/-- The slot that the latest element of a name has recorded. -/
def slotOf? (name : ι) (t : TrackedQueue ι ρ) : Option Nat := do
  let handle ← t.find? name
  let e ← t.element? handle
  return e.slot

/-- Changes the rank of an element and repairs nothing. -/
def setRank (name : ι) (rank : ρ) (t : TrackedQueue ι ρ) : Option (TrackedQueue ι ρ) := do
  let handle ← t.find? name
  return { t with elements := t.elements.modify handle fun e => { e with rank } }

/-- Repairs the order around the slot that an element has recorded. -/
def fixByName (name : ι) (t : TrackedQueue ι ρ) :
    Option (Except Fault (Reply Handle) × TrackedQueue ι ρ) := do
  let slot ← t.slotOf? name
  return t.perform (.fix slot)

/-- Takes whatever is in the slot that an element has recorded. -/
def removeByName (name : ι) (t : TrackedQueue ι ρ) :
    Option (Except Fault (Reply Handle) × TrackedQueue ι ρ) := do
  let slot ← t.slotOf? name
  return t.perform (.removeAt slot)

/-- Replaces whatever is in the slot that an element has recorded by a new element, which is entered
whether or not there is such a slot. -/
def replaceByName (old new : ι) (rank : ρ) (t : TrackedQueue ι ρ) :
    Option (Except Fault (Reply Handle) × TrackedQueue ι ρ) := do
  let slot ← t.slotOf? old
  let handle := t.elements.size
  return (t.enter new rank slot).perform (.updateAt slot handle)

end TrackedQueue

end Containers
