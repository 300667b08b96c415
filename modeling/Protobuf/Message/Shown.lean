/-
  Protobuf.Message.Shown — messages as text for people.

  A message is its name and, in braces, all that it stores: fields, choices with what they put aside,
  presence words, the remembered size and how many unknown bytes there are.
-/

import Protobuf.Binary.Decimal
import Protobuf.Message.Typed
import Protobuf.Schema.Enumeration
import Protobuf.Schema.Storage
import Protobuf.Text.Quoted

namespace Protobuf

open Schema

namespace Shown

def list (parts : List String) : String := "[" ++ ", ".intercalate parts ++ "]"

def option : Option String → String
  | some text => "Some(" ++ text ++ ")"
  | none => "None"

def unknown (bytes : Bytes) : String := "UnknownFields(" ++ Nat.repr bytes.length ++ " bytes)"

/-- A value; an enum's number is shown by its type. -/
def scalar (enum : EnumType) : Scalar → String
  | .int32 v | .sint32 v | .sfixed32 v => toString v.toInt
  | .int64 v | .sint64 v | .sfixed64 v => toString v.toInt
  | .uint32 v | .fixed32 v => Nat.repr v.toNat
  | .uint64 v | .fixed64 v => Nat.repr v.toNat
  | .float bits => Binary.Format.single.text Binary.Decimal.general bits.toNat
  | .double bits => Binary.Format.double.text Binary.Decimal.general bits.toNat
  | .bool v => if v then "true" else "false"
  | .string v => Text.shown v
  | .bytes v => list (v.map fun b => Nat.repr b.toNat)
  | .enum n => enum.shown n

/-- The enum type of the values in a field. -/
def enumOf (table : TypeTable) (field : Field) : EnumType :=
  match field.type with
  | .value (.plain (.enum ref)) | .map _ (.plain (.enum ref)) _ => table.enum ref.fullName
  | _ => default

def value (enum : EnumType) : Value String → String
  | .scalar v => scalar enum v
  | .message text => text

def slot (table : TypeTable) (field : Field) : Slot String → Option String
  | .scalar v => some (scalar (enumOf table field) v)
  | .scalars values => some (list (values.map (scalar (enumOf table field))))
  | .texts values => some (list (values.active.map (scalar (enumOf table field))))
  | .message v => some (option v.get?)
  | .messages values => some (list values.active)
  | .map entries =>
    some ("\x7b" ++ ", ".intercalate (entries.map fun entry =>
      scalar default entry.key ++ ": " ++ value (enumOf table field) entry.value) ++ "\x7d")
  | .member => none

def member (table : TypeTable) (type : MessageType) (m : Member String) : String :=
  let field := type.fields[m.field]?.getD default
  type.variantName m.field ++ "(" ++ value (enumOf table field) m.value ++ ")"

/-- A name without the mark of a raw identifier. -/
def label (name : String) : String :=
  match name.toList with
  | 'r' :: '#' :: rest => String.ofList rest
  | _ => name

/-- The parts of a choice: what is selected, and what was put aside if it keeps messages. -/
def choice (table : TypeTable) (type : MessageType) (oneof : Oneof) (c : Choice String) : List (String × String) :=
  (oneof.storageName, option (c.selected.map (member table type))) ::
    (type.spareName? oneof).toList.map fun name => (name, option (c.spare.map (member table type)))

def body (table : TypeTable) (type : MessageType) (b : Body String) : String :=
  let fields := (type.fields.zip b.slots).filterMap fun (field, s) =>
    (slot table field s).map fun text => (field.storageName, text)
  let choices := (type.oneofs.zip b.choices).flatMap fun (oneof, c) => choice table type oneof c
  let bits := if b.presence.isEmpty then [] else [("_has_bits", list (b.presence.map fun w => Nat.repr w.toNat))]
  let kept := if type.keepsUnknown then [("_unknown", unknown b.unknown)] else []
  let parts := fields ++ choices ++ bits ++ [("_cached_size", Nat.repr b.cachedSize)] ++ kept
  type.path.name ++ " \x7b " ++ ", ".intercalate (parts.map fun (name, text) => label name ++ ": " ++ text) ++
    " \x7d"

end Shown

/-- A message as text. -/
def Message.shown (table : TypeTable) (type : MessageType) (m : Message) : String :=
  m.foldTyped table type (Shown.body table)

end Protobuf
