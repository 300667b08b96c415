/-
  Protobuf.Container.Repeated — a list that keeps removed elements for reuse.

  `active` is the list. Truncating it moves the rest to the front of the reserve, and adding takes
  an element from there, reset, before making a fresh one. Popping hands the element out and keeps
  nothing.
-/

namespace Protobuf

structure Repeated (α : Type) where
  active : List α := []
  reserve : List α := []
  deriving DecidableEq, Repr

namespace Repeated

variable {α β : Type}

def empty : Repeated α := ⟨[], []⟩

instance : Inhabited (Repeated α) := ⟨empty⟩

def ofList (items : List α) : Repeated α := ⟨items, []⟩

def size (xs : Repeated α) : Nat := xs.active.length

/-- Elements held, active or not. -/
def held (xs : Repeated α) : Nat := xs.active.length + xs.reserve.length

def push (xs : Repeated α) (value : α) : Repeated α := ⟨xs.active ++ [value], xs.reserve.drop 1⟩

/-- The last element and the list without it. -/
def pop (xs : Repeated α) : Option α × Repeated α := (xs.active.getLast?, ⟨xs.active.dropLast, xs.reserve⟩)

def truncate (xs : Repeated α) (size : Nat) : Repeated α :=
  ⟨xs.active.take size, xs.active.drop size ++ xs.reserve⟩

def clear (xs : Repeated α) : Repeated α := xs.truncate 0

/-- The element that `add` appends: the first in reserve, reset, else a fresh one. -/
def spare (reset : α → α) (fresh : α) (xs : Repeated α) : α :=
  match xs.reserve with
  | kept :: _ => reset kept
  | [] => fresh

/-- Appends an empty element. -/
def add (reset : α → α) (fresh : α) (xs : Repeated α) : Repeated α := xs.push (xs.spare reset fresh)

/-- Changes the elements in place. -/
def modify (f : List α → List α) (xs : Repeated α) : Repeated α := { xs with active := f xs.active }

/-- Replaces the last element. -/
def setLast (xs : Repeated α) (value : α) : Repeated α := xs.modify fun items => items.dropLast ++ [value]

def mapParts (active idle : α → β) (xs : Repeated α) : Repeated β := ⟨xs.active.map active, xs.reserve.map idle⟩

/-- A copy, which has no reserve. -/
def copy (xs : Repeated α) : Repeated α := ofList xs.active

@[simp] theorem active_ofList (items : List α) : (ofList items).active = items := rfl

@[simp] theorem active_push (xs : Repeated α) (value : α) : (xs.push value).active = xs.active ++ [value] := rfl

@[simp] theorem active_pop (xs : Repeated α) : xs.pop.2.active = xs.active.dropLast := rfl

@[simp] theorem pop_fst (xs : Repeated α) : xs.pop.1 = xs.active.getLast? := rfl

@[simp] theorem active_truncate (xs : Repeated α) (size : Nat) :
    (xs.truncate size).active = xs.active.take size := rfl

@[simp] theorem active_clear (xs : Repeated α) : xs.clear.active = [] := by simp [clear]

@[simp] theorem active_modify (f : List α → List α) (xs : Repeated α) : (xs.modify f).active = f xs.active := rfl

@[simp] theorem active_mapParts (active idle : α → β) (xs : Repeated α) :
    (xs.mapParts active idle).active = xs.active.map active := rfl

@[simp] theorem active_copy (xs : Repeated α) : xs.copy.active = xs.active := rfl

end Repeated

end Protobuf
