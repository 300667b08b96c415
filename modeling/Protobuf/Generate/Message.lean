/-
  Protobuf.Generate.Message — the code of a message type.

  The structure, its methods, the traits it has, and a module with the types inside it: nested
  messages, enums, and an enum for each choice.
-/

import Protobuf.Generate.Accessors
import Protobuf.Generate.Codec
import Protobuf.Generate.Enum

namespace Protobuf.Generate

open Code Schema

namespace Plan

/-! ## Storage -/

/-- The type a field is stored in; members of a choice are stored by the choice. -/
def storageType? (plan : Plan) (field : Field) : Option Ty :=
  match field.strategy with
  | .singular type _ => some (plainCodeType plan.root type)
  | .message target => some (supportType "MessageField" [plan.codeType (.message target)])
  | .repeated type | .packed type => some (vecType (plainCodeType plan.root type))
  | .texts type => some (supportType "RepeatedField" [plainCodeType plan.root type])
  | .messages target => some (supportType "RepeatedField" [plan.codeType (.message target)])
  | .map key value => some (mapType (scalarCodeType key) (plan.codeType value))
  | .member _ _ => none

def structFields (plan : Plan) : List (String × Ty) :=
  let stored := plan.type.fields.filterMap fun field =>
    (plan.storageType? field).map fun type => (field.storageName, type)
  let choices := plan.oneofs.flatMap fun (slot, oneof) =>
    let type := optionType (.path (itemPath plan.root oneof.path) [])
    (oneof.storageName, type) :: (plan.spareName? slot).toList.map fun spare => (spare, type)
  let bits :=
    if plan.type.presenceWords = 0 then [] else [("_has_bits", Ty.array (named "u32") plan.type.presenceWords)]
  let unknown := if plan.type.keepsUnknown then [("_unknown", supportType "UnknownFields" [])] else []
  stored ++ choices ++ bits ++ [("_cached_size", supportType "CachedSize" [])] ++ unknown

def noBits (plan : Plan) : Expr := .repeated (num 0) plan.type.presenceWords

def initialStorage? (field : Field) : Option Expr :=
  match field.strategy with
  | .singular type _ => some (initialValue type (startValue field type))
  | .message _ => some (callPath (support ["MessageField", "new"]) [])
  | .repeated _ | .packed _ => some (crateCall ["std", "vec", "Vec", "new"])
  | .texts _ | .messages _ => some (callPath (support ["RepeatedField", "new"]) [])
  | .map _ _ => some (crateCall ["std", "collections", "HashMap", "new"])
  | .member _ _ => none

def constructor (plan : Plan) : Fn :=
  let stored := plan.type.fields.filterMap fun field =>
    (initialStorage? field).map fun value => Init.mk (field.storageName) value
  let choices := plan.oneofs.flatMap fun (slot, oneof) =>
    (oneof.storageName :: (plan.spareName? slot).toList).map fun name => Init.mk name noneValue
  let bits := if plan.type.presenceWords = 0 then [] else [Init.mk "_has_bits" plan.noBits]
  let size := [Init.mk "_cached_size" (callPath (support ["CachedSize", "new"]) [])]
  let unknown :=
    if plan.type.keepsUnknown then [Init.mk "_unknown" (callPath (support ["UnknownFields", "new"]) [])] else []
  { isPublic := true
    name := "new"
    result := some selfType
    body := [.value (.struct (.ofNames ["Self"]) (stored ++ choices ++ bits ++ size ++ unknown))] }

/-! ## Traits -/

def clear (plan : Plan) : Fn :=
  let stored := plan.type.fields.flatMap fun field =>
    match field.strategy with
    | .singular type _ => resetValue (field.storageName) type (startValue field type)
    | .member _ _ => []
    | _ => [clearOwn (field.storageName)]
  let choices := plan.oneofs.map fun (slot, _) => plan.deselect slot
  let bits := if plan.type.presenceWords = 0 then [] else [Stmt.run (assign (own "_has_bits") plan.noBits)]
  let unknown := if plan.type.keepsUnknown then [clearOwn "_unknown"] else []
  { name := "clear"
    receiver := .refMut
    body := stored ++ choices ++ bits ++ unknown }

/-- Names of what is compared and hashed, presence bits apart. -/
def comparedNames (plan : Plan) : List String :=
  let stored := (plan.type.fields.filter fun field => (initialStorage? field).isSome).map Field.storageName
  let unknown := if plan.type.keepsUnknown then ["_unknown"] else []
  stored ++ plan.type.oneofs.map Oneof.storageName ++ unknown

def equality (plan : Plan) : Fn :=
  let names := plan.comparedNames ++ if plan.type.presenceWords = 0 then [] else ["_has_bits"]
  let same := names.map fun name => Expr.binary .eq (own name) (.field (var "other") name)
  let (param, body) :=
    match same with
    | [] => ("_other", var "true")
    | first :: rest => ("other", rest.foldl (Expr.binary .and) first)
  { name := "eq"
    receiver := .ref
    params := [(param, .ref selfType)]
    result := some (named "bool")
    body := [.value body] }

def hashCall (value : Expr) : Stmt := .run (callPath (support ["FieldHash", "field_hash"]) [value, var "state"])

def hashFn (name param : String) (body : List Stmt) : Fn where
  name := name
  generic := some ("H", hasherType)
  receiver := .ref
  params := [(param, .refMut (named "H"))]
  body := body

def fieldHash (plan : Plan) : Fn :=
  let stored := plan.comparedNames.map fun name => hashCall (ref (own name))
  let bits :=
    if plan.type.presenceWords = 0 then []
    else [Stmt.run (callPath (.ofCrate ["core", "hash", "Hash", "hash"]) [ref (own "_has_bits"), var "state"])]
  hashFn "field_hash" (if (stored ++ bits).isEmpty then "_state" else "state") (stored ++ bits)

def protobufMembers (plan : Plan) : List ImplItem :=
  [ .constant {
      name := "NAME", type := .refStatic (named "str"), value := .literal (.text plan.type.fullName) },
    .fn plan.computeSize,
    .fn {
      name := "cached_size"
      receiver := .ref
      result := some (named "usize")
      body := [.value (.method (own "_cached_size") "get" [])] },
    .fn plan.encodeRaw,
    .fn plan.mergeFrom ] ++ plan.isInitialized?.toList.map .fn

/-- The structure with its methods and traits. -/
def items (plan : Plan) : List Item :=
  let name := plan.type.path.name
  let target := named name
  [ .struct (Comments.docLines plan.type.comment) [⟨"derive", ["Clone", "Debug"]⟩] name plan.structFields,
    .impl none target ((plan.constructor :: plan.accessors).map .fn),
    .impl (some (crateType ["core", "default", "Default"] [])) target [.fn {
      name := "default"
      result := some selfType
      body := [.value (callPath (.ofNames ["Self", "new"]) [])] }],
    .impl (some (supportType "Clear" [])) target [.fn plan.clear],
    .impl (some (crateType ["core", "cmp", "PartialEq"] [])) target [.fn plan.equality],
    .impl (some (supportType "FieldHash" [])) target [.fn plan.fieldHash],
    .impl (some (crateType ["core", "hash", "Hash"] [])) target [.fn (hashFn "hash" "state" [hashCall self])],
    .impl (some (supportType "Protobuf" [])) target plan.protobufMembers ]

/-! ## Choices -/

/-- The members of a choice that its type has variants for. -/
def memberTypes (plan : Plan) (oneof : Oneof) : List (Nat × Field × ValueType) :=
  oneof.fields.filterMap fun index =>
    match plan.type.fields[index]? with
    | none => none
    | some field =>
      match field.strategy with
      | .member _ type => some (index, field, type)
      | _ => none

def oneofItems (plan : Plan) (oneof : Oneof) : List Item :=
  let members := plan.memberTypes oneof
  let nameOf := plan.type.variantName
  let variants := members.map fun (index, field, type) => {
    docs := Comments.docLines field.comment
    name := nameOf index
    payload := some (if type.isMessage then boxType (plan.codeType type) else plan.codeType type) : Variant }
  let arms := members.map fun (index, field, _) =>
    Arm.mk (.variant (.ofNames ["Self", nameOf index]) [namePat "value"]) (.block [
      .run (.method (var "state") "write_u32" [num field.number]),
      hashCall (var "value")]) false
  [ .enum (Comments.docLines oneof.comment) [⟨"derive", ["Clone", "Debug", "PartialEq"]⟩] oneof.path.name variants,
    .impl (some (supportType "FieldHash" [])) (named oneof.path.name) [
      .fn (hashFn "field_hash" "state" [.value (.switch self arms)])] ]

end Plan

mutual

/-- All items of a message type, its module last. -/
def messageItems (root : Root) : MessageTree → List Item
  | ⟨type, nested⟩ =>
    let plan : Plan := ⟨type, root⟩
    let inside := messagesItems root nested ++ type.enums.flatMap enumItems ++ type.oneofs.flatMap plan.oneofItems
    let module :=
      if nested.isEmpty && type.enums.isEmpty && type.oneofs.isEmpty then [] else [Item.module type.module inside]
    plan.items ++ module

def messagesItems (root : Root) : List MessageTree → List Item
  | [] => []
  | tree :: rest => messageItems root tree ++ messagesItems root rest

end

end Protobuf.Generate
