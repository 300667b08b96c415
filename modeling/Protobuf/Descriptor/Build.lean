/-
  Protobuf.Descriptor.Build — declarations written by hand.

  Full type names start with a dot. A map is a repeated message field, its type one of `entryOf`.
-/

import Protobuf.Descriptor

namespace Protobuf.Descriptor

namespace Field

def scalar (name : String) (number : Int32) (type : ScalarType) : Field :=
  { name := some name, number := some number, type := some (.scalar type), label := some .optional }

def message (name : String) (number : Int32) (typeName : String) : Field :=
  { name := some name, number := some number, type := some .message, label := some .optional,
    typeName := some typeName }

def enum (name : String) (number : Int32) (typeName : String) : Field :=
  { name := some name, number := some number, type := some .enum, label := some .optional,
    typeName := some typeName }

def repeated (field : Field) : Field := { field with label := some .repeated }

def required (field : Field) : Field := { field with label := some .required }

def withDefault (field : Field) (text : String) : Field := { field with default := some text }

def packedAs (field : Field) (packed : Bool) : Field := { field with packed := some packed }

def inOneof (field : Field) (index : Int32) : Field := { field with oneofIndex := some index }

/-- With presence of its own, in the choice of one made for it. -/
def tracked (field : Field) (index : Int32) : Field :=
  { field with oneofIndex := some index, tracksPresence := some true }

end Field

def Enum.of (name : String) (values : List (String × Int32)) : Enum :=
  { name := some name, values := values.map fun (name, number) => { name := some name, number := some number } }

namespace Message

def of (name : String) (fields : List Field) : Message := mk (some name) fields [] [] [] none

def withNested : Message → List Message → Message
  | mk name fields nested enums oneofs entry, more => mk name fields (nested ++ more) enums oneofs entry

def withEnums : Message → List Enum → Message
  | mk name fields nested enums oneofs entry, more => mk name fields nested (enums ++ more) oneofs entry

def withOneofs : Message → List String → Message
  | mk name fields nested enums oneofs entry, more =>
    mk name fields nested enums (oneofs ++ more.map fun name => { name := some name }) entry

/-- The entries of a map, whose values are of the type `value` is declared with. -/
def entryOf (name : String) (key : ScalarType) (value : Field) : Message :=
  mk (some name) [.scalar "key" 1 key, { value with name := some "value", number := some 2 }] [] [] [] (some true)

end Message

end Protobuf.Descriptor
