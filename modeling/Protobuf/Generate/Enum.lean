/-
  Protobuf.Generate.Enum — the code of an enum type.

  A type with one variant for each number, the constants for further names, and the maps between
  numbers, names and variants both ways.
-/

import Protobuf.Generate.Vocabulary
import Protobuf.Schema.Basic
import Protobuf.Schema.Comments

namespace Protobuf.Generate

open Code Schema

namespace EnumCode

def selfVariant (name : String) : Expr := .path (.ofNames ["Self", name])

def variants (type : EnumType) : List Variant :=
  type.values.zipIdx.map fun (value, index) => {
    docs := Comments.docLines value.comment
    attributes := if index = 0 then [{ name := "default" }] else []
    name := value.variant
    discriminant := some (literal (.enum value.number)) }

/-- The list of all values, unless a name of the schema takes its place. -/
def valuesConstant (type : EnumType) : List ImplItem :=
  if type.aliases.any (·.name == "VALUES") then []
  else [.constant {
    docs := [" Every declared value, in declaration order."]
    isPublic := true
    name := "VALUES"
    type := .refStatic (.slice selfType)
    value := ref (.array (type.values.map fun value => selfVariant value.variant)) }]

def aliasConstants (type : EnumType) : List ImplItem :=
  type.aliases.map fun extra => .constant {
    docs := Comments.docLines extra.comment
    isPublic := true
    name := Naming.typeName extra.name
    type := selfType
    value := selfVariant extra.target }

def fromNumber (type : EnumType) : Fn where
  name := "from_number"
  params := [("number", named "i32")]
  result := some (optionType selfType)
  body := [.value (.switch (var "number")
    (type.values.map (fun value => .mk (numberPat value.number) (wrapSome (selfVariant value.variant)) true) ++
      [.mk wildcard noneValue true]))]

def number : Fn where
  name := "number"
  receiver := .owned
  result := some (named "i32")
  body := [.value (.cast self (named "i32"))]

def name (type : EnumType) : Fn where
  name := "name"
  receiver := .owned
  result := some (.refStatic (named "str"))
  body := [.value (.switch self (type.values.map fun value =>
    .mk (.path (.ofNames ["Self", value.variant])) (.literal (.text value.name)) true))]

/-- Every name with its variant, further names last. -/
def namesOf (type : EnumType) : List (String × String) :=
  type.values.map (fun value => (value.name, value.variant)) ++
    type.aliases.map fun extra => (extra.name, extra.target)

def fromName (type : EnumType) : Fn where
  name := "from_name"
  params := [("name", .ref (named "str"))]
  result := some (optionType selfType)
  body := [.value (.switch (var "name")
    ((namesOf type).map (fun (name, variant) => .mk (.literal (.text name)) (wrapSome (selfVariant variant)) true) ++
      [.mk wildcard noneValue true]))]

def conversion (type : EnumType) : Fn where
  name := "from"
  params := [("value", named type.path.name)]
  result := some (named "i32")
  body := [.value (.cast (var "value") (named "i32"))]

end EnumCode

open EnumCode in
/-- All items of an enum type. -/
def enumItems (type : EnumType) : List Item :=
  let target := named type.path.name
  let derives := ["Clone", "Copy", "Debug", "Default", "PartialEq", "Eq", "Hash", "PartialOrd", "Ord"]
  [ .enum (Comments.docLines type.comment) [⟨"derive", derives⟩, ⟨"repr", ["i32"]⟩] type.path.name
      (variants type),
    .impl none target (valuesConstant type ++ aliasConstants type),
    .impl (some (supportType "ProtoEnum" [])) target [
      .constant { name := "NAME", type := .refStatic (named "str"), value := .literal (.text type.fullName) },
      .fn (fromNumber type), .fn number, .fn (name type), .fn (fromName type)],
    .impl (some (crateType ["core", "convert", "From"] [target])) (named "i32") [.fn (conversion type)] ]

end Protobuf.Generate
