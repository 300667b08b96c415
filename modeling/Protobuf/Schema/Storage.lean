/-
  Protobuf.Schema.Storage — the names under which a message stores its fields and choices.

  A choice is stored as a variant for each of its members, named after the member and numbered when
  two names meet. One with messages among its members has a second place, for a message put aside.
-/

import Protobuf.Naming.Identifier
import Protobuf.Naming.Scope
import Protobuf.Schema.Strategy

namespace Protobuf.Schema

def Field.storageName (field : Field) : String := Naming.fieldName field.member

def Oneof.storageName (oneof : Oneof) : String := Naming.fieldName oneof.member

namespace MessageType

/-- Names of the variants of a choice, by position of the field. -/
def variantsOf (type : MessageType) (oneof : Oneof) : List (Nat × String) :=
  (oneof.fields.foldl (fun (names, scope) index =>
    let fieldName := (type.fields[index]?.map Field.name).getD ""
    let (name, scope) := Naming.Scope.claim scope (Naming.typeName (Naming.pascal fieldName)) ""
    (names ++ [(index, name)], scope)) (([], {}) : List (Nat × String) × Naming.Scope)).1

/-- The variants of all choices. -/
def variants (type : MessageType) : List (Nat × String) := type.oneofs.flatMap type.variantsOf

/-- The variant of a member. -/
def variantName (type : MessageType) (index : Nat) : String := (type.variants.lookup index).getD ""

/-- The members of a choice that are messages. -/
def messageMembers (type : MessageType) (oneof : Oneof) : List Nat :=
  oneof.fields.filter fun index =>
    match type.fields[index]?.map Field.strategy with
    | some (.member _ (.message _)) => true
    | _ => false

/-- The place for a message put aside, if the choice has messages. -/
def spareName? (type : MessageType) (oneof : Oneof) : Option String :=
  if (type.messageMembers oneof).isEmpty then none else some ("_" ++ oneof.member ++ "_spare")

end MessageType

end Protobuf.Schema
