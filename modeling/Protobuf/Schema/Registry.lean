/-
  Protobuf.Schema.Registry — every type declared in a set of files, by full name.

  Registering a type fixes where its code goes. Names are claimed in the scope of one module in a
  fixed order: package modules of all files, then per scope the messages, the enums and the modules
  of messages, then the scopes inside, and last the choices of a message in its module. So two
  declarations never share a path, whatever their names map to.
-/

import Protobuf.Descriptor
import Protobuf.Naming.Identifier
import Protobuf.Naming.Scope
import Protobuf.Schema.Basic
import Protobuf.Schema.Error

namespace Protobuf.Schema

open Naming (Scope)

inductive Declaration where
  | message (message : Descriptor.Message)
  | enum (enum : Descriptor.Enum)
  deriving Repr, Inhabited

structure Registered where
  path : ItemPath
  /-- The module for what is declared inside. -/
  module : String
  declaration : Declaration
  deriving Repr, Inhabited

structure Registry where
  types : List (String × Registered) := []
  /-- Type names of choices, by message and position. -/
  oneofs : List ((String × Nat) × String) := []
  deriving Repr, Inhabited

namespace Registry

def get? (registry : Registry) (fullName : String) : Option Registered := registry.types.lookup fullName

def oneofName? (registry : Registry) (message : String) (index : Nat) : Option String :=
  registry.oneofs.lookup (message, index)

/-- A scope and all around it, innermost first; the last is the empty one. -/
def outwards (scope : String) : List String :=
  let parts := Text.splitOn '.' scope
  ((List.range parts.length).map fun i => ".".intercalate (parts.take (parts.length - i))) ++ [""]

/-- The type that a name means inside `scope`: with a dot in front the full name, else the first
    found from the scope outwards. -/
def find? (registry : Registry) (typeName scope : String) : Option (String × Registered) :=
  match typeName.toList with
  | '.' :: full =>
    let name := String.ofList full
    (registry.get? name).map fun entry => (name, entry)
  | _ =>
    (outwards scope).findSome? fun outer =>
      let name := qualify outer typeName
      (registry.get? name).map fun entry => (name, entry)

/-! ## Registering -/

/-- Types registered so far, and the names taken in each module. -/
structure Draft where
  registry : Registry := {}
  scopes : List (List String × Scope) := []

abbrev Register := StateT Draft (Except SchemaError)

def Draft.scope (draft : Draft) (modules : List String) : Scope := (draft.scopes.lookup modules).getD {}

def Draft.setScope (draft : Draft) (modules : List String) (scope : Scope) : Draft :=
  { draft with scopes := (modules, scope) :: draft.scopes.filter fun entry => entry.1 ≠ modules }

def claim (modules : List String) (base separator : String) : Register String := do
  let (name, scope) := (← get).scope modules |>.claim base separator
  modify fun draft => draft.setScope modules scope
  return name

def insert (fullName : String) (entry : Registered) : Register Unit := do
  let draft ← get
  if (draft.registry.get? fullName).isSome then
    throw (.duplicateType fullName)
  set { draft with registry := { draft.registry with types := (fullName, entry) :: draft.registry.types } }

/-- Takes the modules of a package in the scopes around them. -/
def reserveModules (draft : Draft) (modules : List String) : Draft :=
  modules.zipIdx.foldl (fun draft (name, depth) =>
    let outer := modules.take depth
    draft.setScope outer ((draft.scope outer).insert name)) draft

/-- A message's type name; a map entry is never generated and takes none. -/
def claimType (modules : List String) (message : Descriptor.Message) : Register String :=
  let base := Naming.typeName message.nameText
  if message.isMapEntry then pure base else claim modules base ""

def claimModule (modules : List String) (message : Descriptor.Message) : Register String :=
  let base := Naming.typeName (Naming.snake message.nameText)
  if message.needsModule then claim modules base "_" else pure base

def registerEnum (modules : List String) (outer : String) (enum : Descriptor.Enum) : Register Unit := do
  let name ← claim modules (Naming.typeName enum.nameText) ""
  insert (qualify outer enum.nameText) ⟨⟨modules, name⟩, "", .enum enum⟩

/-- Registers the enums of a scope and returns the names of its messages and of their modules. -/
def openScope (modules : List String) (outer : String) (messages : List Descriptor.Message)
    (enums : List Descriptor.Enum) : Register (List (String × String)) := do
  let names ← messages.mapM (claimType modules)
  enums.forM (registerEnum modules outer)
  let inner ← messages.mapM (claimModule modules)
  return names.zip inner

/-- Names the type of a choice; one already taken gets `Oneof` behind it. -/
def registerOneof (modules : List String) (message : String) (index : Nat) (oneof : Descriptor.Oneof) :
    Register Unit := do
  let base := Naming.typeName (Naming.pascal oneof.nameText)
  let base := if ((← get).scope modules).isTaken base then base ++ "Oneof" else base
  let name ← claim modules base ""
  modify fun draft =>
    { draft with registry := { draft.registry with oneofs := ((message, index), name) :: draft.registry.oneofs } }

mutual

/-- Registers a message under its name and module, and all inside it. -/
def registerMessage (modules : List String) (outer : String) (names : String × String) :
    Descriptor.Message → Register Unit
  | .mk name fields nested enums oneofs mapEntry => do
    let message := Descriptor.Message.mk name fields nested enums oneofs mapEntry
    let fullName := qualify outer message.nameText
    let inside := modules ++ [names.2]
    insert fullName ⟨⟨modules, names.1⟩, names.2, .message message⟩
    let inner ← openScope inside fullName nested enums
    registerMessages inside fullName inner nested
    message.realOneofs.forM fun (index, oneof) => registerOneof inside fullName index oneof

def registerMessages (modules : List String) (outer : String) :
    List (String × String) → List Descriptor.Message → Register Unit
  | names :: more, message :: rest => do
    registerMessage modules outer names message
    registerMessages modules outer more rest
  | _, _ => pure ()

end

def registerFile (file : Descriptor.File) : Register Unit := do
  let modules := Naming.packageModules file.packageText
  let names ← openScope modules file.packageText file.messages file.enums
  registerMessages modules file.packageText names file.messages

/-- Registers every type of `files`. -/
def ofFiles (files : List Descriptor.File) : Except SchemaError Registry := do
  let draft := files.foldl (fun draft file => reserveModules draft (Naming.packageModules file.packageText)) {}
  let ((), draft) ← (files.forM registerFile).run draft
  return draft.registry

end Registry

end Protobuf.Schema
