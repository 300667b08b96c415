/-
  Protobuf.Schema.Enumeration — enum values by number and by name.

  Each number has one value; further names for it lead to the same value. A number without a value
  is kept as it is and shown as a number.
-/

import Protobuf.Schema.Basic

namespace Protobuf.Schema.EnumType

def ofNumber? (type : EnumType) (number : Int32) : Option EnumValue :=
  type.values.find? fun value => value.number == number

/-- The value that a name or a further name stands for. -/
def ofName? (type : EnumType) (name : String) : Option EnumValue :=
  match type.values.find? fun value => value.name == name with
  | some value => some value
  | none =>
    (type.aliases.find? fun extra => extra.name == name).bind fun extra =>
      type.values.find? fun value => value.variant == extra.target

/-- The value a new field starts from when nothing else is said. -/
def first? (type : EnumType) : Option EnumValue := type.values.head?

/-- The name of a number, or the number. -/
def shown (type : EnumType) (number : Int32) : String :=
  match type.ofNumber? number with
  | some value => value.name
  | none => toString number.toInt

end Protobuf.Schema.EnumType
