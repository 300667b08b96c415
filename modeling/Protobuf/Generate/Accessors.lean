/-
  Protobuf.Generate.Accessors — methods that get, set and clear the fields of a message.
-/

import Protobuf.Generate.Plan

namespace Protobuf.Generate

open Code Schema

namespace Plan

def returnSelf : Stmt := .value self

def clearOwn (name : String) : Stmt := .run (.method (own name) "clear" [])

def getter (docs : List String) (name : String) (result : Ty) (value : Expr) : Fn where
  docs := docs
  isPublic := true
  name := name
  receiver := .ref
  result := some result
  body := [.value value]

/-- A method that hands out a reference for changes. -/
def mutator (docs : List String) (member : String) (result : Ty) (body : List Stmt) : Fn where
  docs := docs
  isPublic := true
  name := member ++ "_mut"
  receiver := .refMut
  result := some (.refMut result)
  body := body

/-- A method that takes a value and returns the message. -/
def setter (docs : List String) (name : String) (param : Ty) (body : List Stmt) : Fn where
  docs := docs
  isPublic := true
  name := name
  receiver := .refMut
  params := [("value", param)]
  result := some (.refMut selfType)
  body := body ++ [returnSelf]

def clearer (member : String) (body : List Stmt) : Fn where
  isPublic := true
  name := "clear_" ++ member
  receiver := .refMut
  body := body

def tester (member : String) (value : Expr) : Fn := getter [] ("has_" ++ member) (named "bool") value

/-- The parameter of a setter, and the value it stores. -/
def copiedParam (type : PlainType) (code : Ty) : Ty × Expr :=
  match type with
  | .enum _ => (intoType code, .method (var "value") "into" [])
  | .scalar _ => (code, var "value")

def singularAccessors (plan : Plan) (field : Field) (type : PlainType) : List Fn :=
  let name := field.storageName
  let member := field.member
  let docs := Comments.docLines field.comment
  let code := plainCodeType plan.root type
  let mark := (bit? field).toList.map Bit.set
  let access :=
    match holding type with
    | .text => [
        getter docs name (.ref (named "str")) (ref (own name)),
        mutator [] member stringType (mark ++ [.value (refMut (own name))]),
        setter [] ("set_" ++ member) (.ref (named "str"))
          ([clearOwn name, .run (.method (own name) "push_str" [var "value"])] ++ mark)]
    | .bytes => [
        getter docs name (.ref (.slice (named "u8"))) (ref (own name)),
        mutator [] member (vecType (named "u8")) (mark ++ [.value (refMut (own name))]),
        setter [] ("set_" ++ member) (.ref (.slice (named "u8")))
          ([clearOwn name, .run (.method (own name) "extend_from_slice" [var "value"])] ++ mark)]
    | .copied =>
      let (param, value) := copiedParam type code
      [ getter docs name code (own name),
        setter [] ("set_" ++ member) param ([.run (assign (own name) value)] ++ mark)]
  let test := (bit? field).toList.map fun bit => tester member bit.isSet
  let unmark := (bit? field).toList.map Bit.unset
  access ++ test ++ [clearer member (resetValue name type (startValue field type) ++ unmark)]

def messageAccessors (plan : Plan) (field : Field) (target : TypeRef) : List Fn :=
  let name := field.storageName
  let member := field.member
  let code := plan.codeType (.message target)
  [ getter (Comments.docLines field.comment) name (optionType (.ref code)) (.method (own name) "get" []),
    mutator [" Returns the sub-message, setting it to an empty message if absent."] member code
      [.value (.method (own name) "get_or_init" [])],
    setter [] ("set_" ++ member) code [.run (.method (own name) "set" [var "value"])],
    tester member (.method (own name) "is_some" []),
    clearer member [clearOwn name]]

def numbersAccessors (plan : Plan) (field : Field) (type : PlainType) : List Fn :=
  let name := field.storageName
  let member := field.member
  let code := plainCodeType plan.root type
  let (param, value) := copiedParam type code
  [ getter (Comments.docLines field.comment) name (.ref (.slice code)) (ref (own name)),
    mutator [] member (vecType code) [.value (refMut (own name))],
    setter [] ("add_" ++ member) param [.run (.method (own name) "push" [value])],
    clearer member [clearOwn name]]

def elementsAccessors (plan : Plan) (field : Field) (type : ValueType) : List Fn :=
  let name := field.storageName
  let member := field.member
  let code := plan.codeType type
  [ getter (Comments.docLines field.comment) name (.ref (.slice code)) (ref (own name)),
    mutator [] member (supportType "RepeatedField" [code]) [.value (refMut (own name))],
    { docs := [" Appends an empty element and returns it."]
      isPublic := true
      name := "add_" ++ member
      receiver := .refMut
      result := some (.refMut code)
      body := [.value (.method (own name) "add" [])] },
    clearer member [clearOwn name]]

def mapAccessors (plan : Plan) (field : Field) (key : ScalarType) (value : ValueType) : List Fn :=
  let name := field.storageName
  let member := field.member
  let code := mapType (scalarCodeType key) (plan.codeType value)
  [ getter (Comments.docLines field.comment) name (.ref code) (ref (own name)),
    mutator [] member code [.value (refMut (own name))],
    clearer member [clearOwn name]]

/-- For a member of a choice: what the getter returns and how, what the setter takes and stores. -/
def memberForms (plan : Plan) (type : ValueType) : Ty × Expr × Ty × Expr :=
  let code := plan.codeType type
  let value := var "value"
  match type with
  | .message _ =>
    (.ref code, unboxed "value", code, callPath (.ofCrate ["std", "boxed", "Box", "new"]) [value])
  | .plain type =>
    match holding type with
    | .text =>
      (.ref (named "str"), .method value "as_str" [], .ref (named "str"),
        callPath (.ofCrate ["std", "string", "String", "from"]) [value])
    | .bytes =>
      let slice := Ty.ref (.slice (named "u8"))
      (slice, .method value "as_slice" [], slice, .method value "to_vec" [])
    | .copied =>
      let (param, stored) := copiedParam type code
      (code, deref value, param, stored)

def memberAccessors (plan : Plan) (index : Nat) (field : Field) (slot : Nat) (type : ValueType) : List Fn :=
  let storage := own ((plan.oneofAt slot).storageName)
  let member := field.member
  let variant := plan.variantPath slot index
  let bound := valueVariant variant (namePat "value")
  let (result, value, param, stored) := plan.memberForms type
  let deselect :=
    match plan.spareName? slot, type with
    | some spare, .message _ => assign (own spare) (.method storage "take" [])
    | _, _ => assign storage noneValue
  let mutable :=
    if type.isMessage then
      [mutator [" Selects this member, starting from an empty message unless it is", " already selected."]
        member (plan.codeType type)
        (plan.selectMessage slot index ++ [.value (.switch (refMut storage) [
          .mk bound (unboxedMut "value") true,
          .mk wildcard .unreachable true])])]
    else []
  [ getter (Comments.docLines field.comment) (field.storageName) (optionType result)
      (.switch (ref storage) [.mk bound (wrapSome value) true, .mk wildcard noneValue true]),
    setter [" Selects this member, clearing any other member of the oneof."] ("set_" ++ member) param
      [.run (assign storage (wrapSome (callPath variant [stored])))],
    tester member (.hasForm storage (valueVariant variant wildcard)),
    clearer member [.value (.ite (.method self ("has_" ++ member) []) [.run deselect])]] ++ mutable

def fieldAccessors (plan : Plan) (index : Nat) (field : Field) : List Fn :=
  match field.strategy with
  | .singular type _ => plan.singularAccessors field type
  | .message target => plan.messageAccessors field target
  | .repeated type | .packed type => plan.numbersAccessors field type
  | .texts type => plan.elementsAccessors field (.plain type)
  | .messages target => plan.elementsAccessors field (.message target)
  | .map key value => plan.mapAccessors field key value
  | .member slot type => plan.memberAccessors index field slot type

def oneofAccessors (plan : Plan) (slot : Nat) (oneof : Oneof) : List Fn :=
  let name := oneof.storageName
  let code := Ty.path (itemPath plan.root oneof.path) []
  [ getter (Comments.docLines oneof.comment) name (optionType (.ref code)) (.method (own name) "as_ref" []),
    mutator [] oneof.member (optionType code) [.value (refMut (own name))],
    clearer oneof.member [plan.deselect slot]]

/-- The methods of all fields, then those of the choices. -/
def accessors (plan : Plan) : List Fn :=
  (plan.fields.flatMap fun (index, field) => plan.fieldAccessors index field) ++
    plan.oneofs.flatMap fun (slot, oneof) => plan.oneofAccessors slot oneof

end Plan

end Protobuf.Generate
