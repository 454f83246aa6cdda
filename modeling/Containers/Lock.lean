import Containers.Outcome

/-!
# Locks

Every container keeps its storage behind one lock and reaches it through closures only: a closure
that reads is handed the contents, a closure that writes hands back what they become.  Which kind of
lock it is decides who may work at the same time, and nothing else; in one line of control both
kinds give the same answers.
-/

set_option autoImplicit false

namespace Containers

/-- The kinds of lock. -/
inductive LockKind where
  /-- One holder at a time, whether it reads or writes. -/
  | exclusive
  /-- Any number of readers, or one writer. -/
  | readWrite
  deriving DecidableEq

/-- How a kind of lock is called. -/
def LockKind.name : LockKind → String
  | .exclusive => "mutex"
  | .readWrite => "rwlock"

/-- The kind of lock that goes by a name. -/
def LockKind.ofName? : String → Option LockKind
  | "mutex" => some .exclusive
  | "rwlock" => some .readWrite
  | _ => none

@[simp] theorem LockKind.ofName?_name (kind : LockKind) :
    LockKind.ofName? kind.name = some kind := by
  cases kind <;> rfl

/-- Contents behind a lock. -/
structure Locked (α : Type) where
  /-- The kind of lock. -/
  kind : LockKind
  /-- What the lock guards. -/
  contents : α

namespace Locked

variable {α β ε : Type}

/-- Looks at the contents. -/
def read (l : Locked α) (f : α → β) : β := f l.contents

/-- Works on the contents. -/
def write (l : Locked α) (f : α → β × α) : β × Locked α :=
  match l with
  | ⟨kind, contents⟩ =>
    match f contents with
    | (answer, contents) => (answer, ⟨kind, contents⟩)

/-- Changes the contents and answers nothing. -/
def modify (l : Locked α) (f : α → α) : Locked α :=
  match l with
  | ⟨kind, contents⟩ => ⟨kind, f contents⟩

/-- Works on the contents by a call that may fault and may tell observers. -/
def call (l : Locked α) (f : α → Outcome α ε β) : Outcome (Locked α) ε β :=
  match l with
  | ⟨kind, contents⟩ => (f contents).mapState fun contents => ⟨kind, contents⟩

/-- Whoever owns the lock itself reaches the contents without taking it. -/
def ownerModify (l : Locked α) (f : α → α) : Locked α := l.modify f

@[simp] theorem read_mk (kind : LockKind) (a : α) (f : α → β) : (Locked.mk kind a).read f = f a :=
  rfl

@[simp] theorem kind_modify (l : Locked α) (f : α → α) : (l.modify f).kind = l.kind := rfl

@[simp] theorem contents_modify (l : Locked α) (f : α → α) :
    (l.modify f).contents = f l.contents := rfl

/-- A write answers what the closure answers. -/
@[simp] theorem write_fst (l : Locked α) (f : α → β × α) : (l.write f).1 = (f l.contents).1 := rfl

/-- A write leaves what the closure leaves, behind the same kind of lock. -/
@[simp] theorem write_snd (l : Locked α) (f : α → β × α) :
    (l.write f).2 = ⟨l.kind, (f l.contents).2⟩ := rfl

@[simp] theorem call_eq (l : Locked α) (f : α → Outcome α ε β) :
    l.call f = (f l.contents).mapState fun contents => ⟨l.kind, contents⟩ := rfl

end Locked

end Containers
