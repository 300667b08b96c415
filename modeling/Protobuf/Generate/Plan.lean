/-
  Protobuf.Generate.Plan — what the parts of a message's code share.

  Fields with their storage names, the variants of each choice, and the statements that select a
  message in a choice or put the selected one aside. A choice with messages among its members has
  a spare slot that keeps the last one put aside.
-/

import Protobuf.Generate.Value
import Protobuf.Schema.Comments
import Protobuf.Schema.Storage

namespace Protobuf.Generate

open Code Schema

/-- The generated code of one message type. -/
structure Plan where
  type : MessageType
  root : Root

namespace Plan

/-- Fields with their positions. -/
def fields (plan : Plan) : List (Nat × Field) := plan.type.fields.zipIdx.map fun (field, index) => (index, field)

/-- Choices with their positions. -/
def oneofs (plan : Plan) : List (Nat × Oneof) := plan.type.oneofs.zipIdx.map fun (oneof, index) => (index, oneof)

def oneofAt (plan : Plan) (slot : Nat) : Oneof := plan.type.oneofs[slot]?.getD default

/-- The path of a member's variant. -/
def variantPath (plan : Plan) (slot index : Nat) : Path :=
  (itemPath plan.root (plan.oneofAt slot).path).child (plan.type.variantName index)

def messageMembers (plan : Plan) (slot : Nat) : List Nat := plan.type.messageMembers (plan.oneofAt slot)

def spareName? (plan : Plan) (slot : Nat) : Option String := plan.type.spareName? (plan.oneofAt slot)

def codeType (plan : Plan) (type : ValueType) : Ty := valueCodeType plan.root type

/-! ## Presence bits -/

/-- A bit's word and its mask there. -/
structure Bit where
  word : Nat
  mask : Nat

def bit? (field : Field) : Option Bit := field.presenceBit.map fun bit => ⟨bit / 32, Nat.pow 2 (bit % 32)⟩

namespace Bit

def place (bit : Bit) : Expr := .index (own "_has_bits") (num bit.word)

def masked (bit : Bit) : Expr := .paren (.binary .bitAnd bit.place (num bit.mask))

def isSet (bit : Bit) : Expr := .binary .ne bit.masked (num 0)

def isUnset (bit : Bit) : Expr := .binary .eq bit.masked (num 0)

def set (bit : Bit) : Stmt := .run (.binary .orAssign bit.place (num bit.mask))

def unset (bit : Bit) : Stmt := .run (.binary .andAssign bit.place (.unary .not (num bit.mask)))

end Bit

/-! ## Choices -/

def valueVariant (path : Path) (pattern : Pat) : Pat := somePat (.variant path [pattern])

/-- Puts the selected member aside if it is a message; nothing is selected then. -/
def stash (plan : Plan) (slot : Nat) (spare : String) : Stmt :=
  let storage := own (plan.oneofAt slot).storageName
  let patterns := (plan.messageMembers slot).map fun index =>
    Pat.variant (plan.variantPath slot index) [wildcard]
  let pattern :=
    match patterns with
    | [single] => single
    | several => .either several
  .value (.iteLet (somePat (.bind "value" pattern)) (.method storage "take" [])
    [.run (assign (own spare) (wrapSome (var "value")))])

/-- Leaves nothing selected in a choice. -/
def deselect (plan : Plan) (slot : Nat) : Stmt :=
  match plan.spareName? slot with
  | some spare => plan.stash slot spare
  | none => .run (assign (own (plan.oneofAt slot).storageName) noneValue)

/-- Selects a message, emptied, unless it is selected already. -/
def selectMessage (plan : Plan) (slot index : Nat) : List Stmt :=
  match plan.spareName? slot with
  | none => []
  | some spare =>
    let storage := own (plan.oneofAt slot).storageName
    let variant := plan.variantPath slot index
    let reuse := Expr.block [
      .run (callPath (support ["Clear", "clear"]) [refMut (deref (var "value"))]),
      .value (var "value")]
    let fresh := Expr.block [
      .run (assign (own spare) (var "other")),
      .value (crateCall ["std", "boxed", "Box", "default"])]
    [.value (.ite (.unary .not (.hasForm storage (valueVariant variant wildcard))) [
      plan.stash slot spare,
      .bind false "value" none (.switch (.method (own spare) "take" []) [
        .mk (valueVariant variant (.mutable "value")) reuse false,
        .mk (namePat "other") fresh false]),
      .run (assign storage (wrapSome (callPath variant [var "value"])))])]

end Plan

end Protobuf.Generate
