/-
  Protobuf.Naming.Scope — the names taken in one place, and new ones next to them.

  A claim gets the name it asks for if that is free, else the name with the smallest number from 2
  on that is. Among one more numbers than there are names taken, one is free.
-/

namespace Protobuf.Naming

structure Scope where
  taken : List String := []
  deriving DecidableEq, Repr, Inhabited

namespace Scope

def isTaken (scope : Scope) (name : String) : Bool := scope.taken.contains name

/-- Takes a name, if it is not taken. -/
def insert (scope : Scope) (name : String) : Scope :=
  if scope.isTaken name then scope else ⟨name :: scope.taken⟩

def insertAll (scope : Scope) (names : List String) : Scope := names.foldl insert scope

/-- `base` with the number of the `i`-th attempt behind it. -/
def numbered (base separator : String) (i : Nat) : String := base ++ separator ++ Nat.repr (i + 2)

/-- The name a claim of `base` gets. Numbers behind it have no bound; 32 bits hold them all in a scope of no more than
    2^31 - 2 names. -/
def fresh (scope : Scope) (base separator : String) : String :=
  if scope.isTaken base then
    let attempts := (List.range (scope.taken.length + 1)).map (numbered base separator)
    (attempts.find? fun name => !scope.isTaken name).getD base
  else base

/-- Claims a name like `base` and takes it. -/
def claim (scope : Scope) (base separator : String) : String × Scope :=
  let name := scope.fresh base separator
  (name, scope.insert name)

end Scope

end Protobuf.Naming
