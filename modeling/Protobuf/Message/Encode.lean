/-
  Protobuf.Message.Encode — writing messages in two passes.

  A message in front of which its length stands has to be measured before it is written. `measure`
  remembers the size of every message in use, innermost first; `encodeRaw` then writes the lengths
  from what was remembered. A length is written as a number of 32 bits.

  Fields are written in declaration order and the bytes of unknown fields last.
-/

import Protobuf.Message.Typed

namespace Protobuf

open Schema

namespace Schema.Field

/-- Whether a single value is written: if it is marked present, or, without a mark, is not zero. -/
def isWritten (field : Field) (presence : PresenceBits) (value : Scalar) : Bool :=
  match field.presenceBit with
  | some bit => presence.isSet bit
  | none => !value.isZero

def isPacked (field : Field) : Bool :=
  match field.strategy with
  | .packed _ => true
  | _ => false

/-- Bytes of the tag. -/
def tagSize (field : Field) : Nat := Tag.size field.number

end Schema.Field

/-! ## Measuring -/

/-- The size of a value, a message being given by its own. -/
def Value.size : Value Nat → Nat
  | scalar value => value.size
  | message size => Frame.size size

/-- The size of a map entry, whose two tags take a byte each. -/
def Entry.size (entry : Entry Nat) : Nat := 2 + entry.key.size + entry.value.size

def Slot.size (field : Field) (presence : PresenceBits) : Slot Nat → Nat
  | scalar value => if field.isWritten presence value then field.tagSize + value.size else 0
  | scalars values =>
    if field.isPacked then
      if values.isEmpty then 0 else field.tagSize + Frame.size (Scalar.sizeAll values)
    else field.tagSize * values.length + Scalar.sizeAll values
  | texts values => total (fun value => field.tagSize + value.size) values.active
  | message value => (value.get?.map fun size => field.tagSize + Frame.size size).getD 0
  | messages values => total (fun size => field.tagSize + Frame.size size) values.active
  | map entries => total (fun entry => field.tagSize + Frame.size entry.size) entries
  | member => 0

def Choice.size (type : MessageType) (choice : Choice Nat) : Nat :=
  match choice.selected with
  | some ⟨index, value⟩ => (type.fields[index]?.getD default).tagSize + value.size
  | none => 0

/-- The size of a message from the sizes of its sub-messages. -/
def Body.size (type : MessageType) (body : Body Nat) : Nat :=
  total (fun (field, slot) => Slot.size field body.presence slot) (type.fields.zip body.slots) +
    total (Choice.size type) body.choices + body.unknown.length

namespace Message

def cachedSize (m : Message) : Nat := m.body.cachedSize

/-- The message as it was, and measured. -/
def measureStep (type : MessageType) (body : Body (Message × Message)) : Message × Message :=
  let fresh := body.mapParts Prod.snd Prod.fst
  (mk (body.map Prod.fst), mk { fresh with cachedSize := (fresh.map cachedSize).size type })

/-- Remembers the size of the message and of every message in use in it. -/
def measure (table : TypeTable) (type : MessageType) (m : Message) : Message :=
  (m.foldTyped table type measureStep).2

/-- The size of the message as it is now. -/
def size (table : TypeTable) (type : MessageType) (m : Message) : Nat := (m.measure table type).cachedSize

end Message

/-! ## Writing -/

/-- A length as it is written. -/
def lengthBytes (n : Nat) : Bytes := Varint.encode (n % 0x100000000)

/-- A written message with the size it remembers. -/
structure Written where
  bytes : Bytes
  size : Nat

/-- Behind its remembered length. -/
def Written.framed (written : Written) : Bytes := lengthBytes written.size ++ written.bytes

def Value.encode : Value Written → Bytes
  | scalar value => value.encode
  | message written => written.framed

/-- The wire type of a value inside an entry. -/
def Value.wireType {M : Type} : Value M → WireType
  | scalar value => value.kind.wireType
  | message _ => .lengthDelimited

def Entry.encode (entry : Entry Written) : Bytes :=
  lengthBytes (entry.map Written.size).size ++
    Tag.encode (Tag.make 1 entry.key.kind.wireType) ++ entry.key.encode ++
    Tag.encode (Tag.make 2 entry.value.wireType) ++ entry.value.encode

/-- The selected member, if it is the field at this position. -/
def Body.memberAt {M : Type} (body : Body M) (field : Field) (index : Nat) : Option (Value M) :=
  match field.oneof with
  | none => none
  | some slot =>
    ((body.choices[slot]?.bind Choice.selected).filter fun member => member.field == index).map Member.value

def Body.encodeSlot (body : Body Written) (field : Field) (index : Nat) : Slot Written → Bytes
  | .scalar value => if field.isWritten body.presence value then field.tagBytes ++ value.encode else []
  | .scalars values =>
    if field.isPacked then
      if values.isEmpty then []
      else field.tagBytes ++ lengthBytes (Scalar.sizeAll values) ++ Scalar.encodeAll values
    else values.flatMap fun value => field.tagBytes ++ value.encode
  | .texts values => values.active.flatMap fun value => field.tagBytes ++ value.encode
  | .message value => (value.get?.map fun written => field.tagBytes ++ written.framed).getD []
  | .messages values => values.active.flatMap fun written => field.tagBytes ++ written.framed
  | .map entries => entries.flatMap fun entry => field.tagBytes ++ entry.encode
  | .member => ((body.memberAt field index).map fun value => field.tagBytes ++ value.encode).getD []

/-- What is written one after the other: the fields, then the unknown ones. -/
def Body.pieces (type : MessageType) (body : Body Written) : List Bytes :=
  ((type.fields.zip body.slots).mapIdx fun index (field, slot) => body.encodeSlot field index slot) ++ [body.unknown]

namespace Message

def writeStep (type : MessageType) (body : Body Written) : Written where
  bytes := (body.pieces type).flatten
  size := body.cachedSize

/-- The bytes of a measured message. -/
def encodeRaw (table : TypeTable) (type : MessageType) (m : Message) : Bytes :=
  (m.foldTyped table type writeStep).bytes

/-- The bytes of a message. -/
def encode (table : TypeTable) (type : MessageType) (m : Message) : Bytes :=
  (m.measure table type).encodeRaw table type

/-- Writes a message to an output that already holds `out`, piece by piece. -/
def encodeOnto (table : TypeTable) (type : MessageType) (m : Message) (out : Bytes) : Bytes :=
  let body := (m.measure table type).body.mapTyped table type fun type m => m.foldTyped table type writeStep
  (body.pieces type).foldl (fun out piece => out ++ piece) out

end Message

end Protobuf
