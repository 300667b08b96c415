/-
  Protobuf.Container.Singular — a value that may be absent, with what it held before.

  Clearing keeps the last value aside; giving the container a value again starts from that one,
  reset. What is kept never shows: `get?` is the view, and every operation below is the one on
  `Option` through it.
-/

namespace Protobuf

inductive Singular (α : Type) where
  | absent (kept : Option α)
  | present (value : α)
  deriving DecidableEq, Repr

namespace Singular

variable {α β : Type}

def empty : Singular α := absent none

instance : Inhabited (Singular α) := ⟨empty⟩

def ofOption : Option α → Singular α
  | some value => present value
  | none => empty

def get? : Singular α → Option α
  | present value => some value
  | absent _ => none

def isPresent (s : Singular α) : Bool := s.get?.isSome

def set (_ : Singular α) (value : α) : Singular α := present value

def clear : Singular α → Singular α
  | present value => absent (some value)
  | absent kept => absent kept

/-- The value, which is given up, and what is left. -/
def take : Singular α → Option α × Singular α
  | present value => (some value, empty)
  | absent kept => (none, absent kept)

/-- The value to work on: the present one, else the kept one reset, else a fresh one. -/
def getOrInit (reset : α → α) (fresh : α) : Singular α → α
  | present value => value
  | absent (some kept) => reset kept
  | absent none => fresh

/-- Changes the value if there is one. -/
def modify (f : α → α) : Singular α → Singular α
  | present value => present (f value)
  | absent kept => absent kept

/-- The present value through one function, a kept one through another. -/
def mapParts (active idle : α → β) : Singular α → Singular β
  | present value => present (active value)
  | absent kept => absent (kept.map idle)

/-- A copy, which keeps nothing aside. -/
def copy (s : Singular α) : Singular α := ofOption s.get?

@[simp] theorem get?_ofOption (o : Option α) : (ofOption o).get? = o := by cases o <;> rfl

@[simp] theorem get?_set (s : Singular α) (value : α) : (s.set value).get? = some value := rfl

@[simp] theorem get?_clear (s : Singular α) : s.clear.get? = none := by cases s <;> rfl

@[simp] theorem take_fst (s : Singular α) : s.take.1 = s.get? := by cases s <;> rfl

@[simp] theorem get?_take (s : Singular α) : s.take.2.get? = none := by cases s <;> rfl

@[simp] theorem get?_modify (f : α → α) (s : Singular α) : (s.modify f).get? = s.get?.map f := by
  cases s <;> rfl

@[simp] theorem get?_mapParts (active idle : α → β) (s : Singular α) :
    (s.mapParts active idle).get? = s.get?.map active := by cases s <;> rfl

@[simp] theorem get?_copy (s : Singular α) : s.copy.get? = s.get? := get?_ofOption _

end Singular

end Protobuf
