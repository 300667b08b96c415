/-
  Protobuf.Schema.Table — the types a message can refer to, by full name.
-/

import Protobuf.Schema.Strategy

namespace Protobuf.Schema

structure TypeTable where
  messages : List MessageType := []
  enums : List EnumType := []
  deriving Repr, Inhabited

namespace TypeTable

def ofFile (file : File) : TypeTable := ⟨file.messageTypes, file.enumTypes⟩

/-- The type of this full name; one that is not in the table counts as having no fields. -/
def message (table : TypeTable) (fullName : String) : MessageType :=
  (table.messages.find? fun type => type.fullName == fullName).getD default

def enum (table : TypeTable) (fullName : String) : EnumType :=
  (table.enums.find? fun type => type.fullName == fullName).getD default

/-- The type of the messages in a field. -/
def child (table : TypeTable) (field : Field) : MessageType :=
  match field.type with
  | .value (.message ref) | .map _ (.message ref) _ => table.message ref.fullName
  | _ => default

/-- The type of the messages in the field at a position. -/
def childAt (table : TypeTable) (type : MessageType) (index : Nat) : MessageType :=
  table.child (type.fields[index]?.getD default)

end TypeTable

/-- The bytes of the tag a field is written with. -/
def Field.tagBytes (field : Field) : Bytes := Tag.encode (Tag.make field.number field.strategy.wireType)

/-- What a field of single values holds when it is not set. -/
def Field.initial (field : Field) (type : PlainType) : Scalar := field.default.getD (.zero type.kind)

end Protobuf.Schema
