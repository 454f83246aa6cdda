import Containers.Priority

/-!
# Storage of a heap

The heap algorithms see their elements through four accesses only: compare two slots, exchange two
slots, append an element, drop the last slot.  A `Storage` is the array they work on together with a
log of those accesses, and `Rules` says how the storage compares and what it writes down.

Keeping the log apart from the array is what lets one definition of each algorithm serve three
readers: a container that wants no log at all (`Probe.silent`), a container whose swap hook has to
be told of every exchange (`Probe.ofHook`), and whoever wants to see every access in order
(`Probe.accesses`).  What is written down never influences the array.

An index that names no slot does no harm: comparing it answers `false`, exchanging it does nothing.
-/

set_option autoImplicit false

namespace Containers.Heap

/-! ## Places in the tree

The array is read as a tree level by level: slot `0` is the root, and the children of slot `i` are
the slots `2 * i + 1` and `2 * i + 2`. -/

/-- The slot above slot `i`.  The root counts as its own parent. -/
def parent (i : Nat) : Nat := (i - 1) / 2

/-- The first of the two slots below slot `i`. -/
def leftChild (i : Nat) : Nat := 2 * i + 1

/-- Slots are numbered by words, so every number of a slot is less than this. -/
def slotLimit : Nat := 1 <<< 64

theorem parent_lt {i : Nat} (h : 0 < i) : parent i < i := by
  unfold parent
  omega

/-- The first child has a number as long as twice the number of its parent is a word. -/
theorem leftChild_lt_slotLimit {i : Nat} : leftChild i < slotLimit ↔ 2 * i < slotLimit := by
  unfold leftChild slotLimit
  omega

theorem lt_leftChild (i : Nat) : i < leftChild i := by
  unfold leftChild
  omega

@[simp] theorem parent_leftChild (i : Nat) : parent (leftChild i) = i := by
  unfold parent leftChild
  omega

@[simp] theorem parent_leftChild_succ (i : Nat) : parent (leftChild i + 1) = i := by
  unfold parent leftChild
  omega

/-- No element precedes the one above it: the state that heap operations maintain. -/
def Ordered {α : Type} (less : Priority α) (items : Array α) : Prop :=
  ∀ i a b, 0 < i → items[i]? = some a → items[parent i]? = some b → less a b = false

/-! ## What is written down -/

/-- One access to a storage. -/
inductive Access (α : Type) where
  /-- Slots `i` and `j` were compared, with this answer. -/
  | compare (i j : Nat) (answer : Bool)
  /-- Slots `i` and `j` were exchanged. -/
  | swap (i j : Nat)
  /-- An element was appended. -/
  | append (x : α)
  /-- The last slot was dropped. -/
  | drop
  deriving DecidableEq

/-- Which entry of a log, if any, each access leaves. -/
structure Probe (α ε : Type) where
  /-- The entry of a comparison of two slots, given its answer. -/
  compared : Nat → Nat → Bool → Option ε
  /-- The entry of an exchange of two slots, given the array after it. -/
  swapped : Nat → Nat → Array α → Option ε
  /-- The entry of an append. -/
  appended : α → Option ε
  /-- The entry of a drop. -/
  dropped : Option ε

/-- A swap hook: told of two slots that have just been exchanged, and of the array after that. -/
abbrev SwapHook (α ε : Type) := Nat → Nat → Array α → ε

namespace Probe

variable {α ε : Type}

/-- Nothing is written down. -/
def silent : Probe α ε := ⟨fun _ _ _ => none, fun _ _ _ => none, fun _ => none, none⟩

/-- Exchanges are reported to the hook, if there is one, and nothing else is. -/
def ofHook (hook : Option (SwapHook α ε)) : Probe α ε :=
  { silent with swapped := fun i j items => hook.map fun tell => tell i j items }

/-- Every access is written down as it is. -/
def accesses : Probe α (Access α) where
  compared i j answer := some (.compare i j answer)
  swapped i j _ := some (.swap i j)
  appended x := some (.append x)
  dropped := some .drop

end Probe

/-- How a storage compares elements and what it writes down. -/
structure Rules (α ε : Type) where
  /-- Which of two elements leaves first. -/
  less : Priority α
  /-- What each access leaves in the log. -/
  probe : Probe α ε

/-- The elements of a heap in the making, and the log of the accesses to them. -/
structure Storage (α ε : Type) where
  /-- The elements, slot by slot. -/
  items : Array α
  /-- What has been written down so far. -/
  log : Array ε

namespace Storage

variable {α ε : Type}

/-- Elements that nothing has been written about. -/
def ofArray (items : Array α) : Storage α ε := ⟨items, #[]⟩

/-- The number of slots. -/
def size (s : Storage α ε) : Nat := s.items.size

/-- Puts an entry into the log. -/
def note (s : Storage α ε) : Option ε → Storage α ε
  | none => s
  | some e => ⟨s.items, s.log.push e⟩

/-- Whether the element in slot `i` precedes the one in slot `j`. -/
def precedes (less : Priority α) (items : Array α) (i j : Nat) : Bool :=
  match items[i]?, items[j]? with
  | some a, some b => less a b
  | _, _ => false

/-- Compares slot `i` with slot `j`. -/
def compareAt (r : Rules α ε) (i j : Nat) (s : Storage α ε) : Bool × Storage α ε :=
  let answer := precedes r.less s.items i j
  (answer, s.note (r.probe.compared i j answer))

/-- Exchanges slot `i` and slot `j`. -/
def swapAt (r : Rules α ε) (i j : Nat) (s : Storage α ε) : Storage α ε :=
  match s with
  | ⟨items, log⟩ =>
    let items := items.swapIfInBounds i j
    let entry := r.probe.swapped i j items
    Storage.note ⟨items, log⟩ entry

/-- Appends an element in a new last slot. -/
def append (r : Rules α ε) (x : α) (s : Storage α ε) : Storage α ε :=
  match s with
  | ⟨items, log⟩ => Storage.note ⟨items.push x, log⟩ (r.probe.appended x)

/-- Drops the last slot and hands out what it held. -/
def dropLast (r : Rules α ε) (s : Storage α ε) : Option α × Storage α ε :=
  match s with
  | ⟨items, log⟩ =>
    let item := items.back?
    (item, Storage.note ⟨items.pop, log⟩ r.probe.dropped)

/-- Overwrites a slot, which is no access of the algorithms; without such a slot nothing happens. -/
def set (i : Nat) (x : α) (s : Storage α ε) : Storage α ε :=
  match s with
  | ⟨items, log⟩ => ⟨items.setIfInBounds i x, log⟩

@[simp] theorem items_note (s : Storage α ε) (e : Option ε) : (s.note e).items = s.items := by
  cases e <;> rfl

@[simp] theorem compareAt_fst (r : Rules α ε) (i j : Nat) (s : Storage α ε) :
    (s.compareAt r i j).1 = precedes r.less s.items i j := rfl

/-- Comparing leaves the elements where they are. -/
@[simp] theorem items_compareAt (r : Rules α ε) (i j : Nat) (s : Storage α ε) :
    (s.compareAt r i j).2.items = s.items := by
  simp [compareAt]

@[simp] theorem items_swapAt (r : Rules α ε) (i j : Nat) (s : Storage α ε) :
    (s.swapAt r i j).items = s.items.swapIfInBounds i j := by
  simp [swapAt]

@[simp] theorem items_append (r : Rules α ε) (x : α) (s : Storage α ε) :
    (s.append r x).items = s.items.push x := by
  simp [append]

@[simp] theorem dropLast_fst (r : Rules α ε) (s : Storage α ε) :
    (s.dropLast r).1 = s.items.back? := rfl

@[simp] theorem items_dropLast (r : Rules α ε) (s : Storage α ε) :
    (s.dropLast r).2.items = s.items.pop := by
  simp [dropLast]

@[simp] theorem items_set (i : Nat) (x : α) (s : Storage α ε) :
    (s.set i x).items = s.items.setIfInBounds i x := rfl

end Storage

end Containers.Heap
