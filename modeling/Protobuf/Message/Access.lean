/-
  Protobuf.Message.Access — getting, setting and clearing the fields of a message.

  Fields are given with their positions, choices by their own. Setting marks a field present; what a
  message field held is replaced, and in a choice whatever was selected.
-/

import Protobuf.Message.Encode
import Protobuf.Message.Merge

namespace Protobuf.Message

open Schema

/-- Marks a field absent, if it has a mark. -/
def unmark (m : Message) (field : Field) : Message :=
  match field.presenceBit with
  | some bit => m.update fun body => { body with presence := body.presence.unset bit }
  | none => m

/-- Whether a field is set: by its mark, by holding a message, or by being selected. -/
def has (m : Message) (field : Field) (index : Nat) : Bool :=
  match field.presenceBit, field.oneof, m.slotAt index with
  | some bit, _, _ => m.body.presence.isSet bit
  | none, some slot, _ => (m.choiceAt slot).isSelected index
  | none, none, .message value => value.isPresent
  | none, none, _ => false

/-- What a field or member holds, as one value. -/
def value? (m : Message) (field : Field) (index : Nat) : Option (Value Message) :=
  match field.oneof, m.slotAt index with
  | some slot, .member =>
    ((m.choiceAt slot).selected.filter fun member => member.field == index).map Member.value
  | _, .scalar value => some (.scalar value)
  | _, .message value => value.get?.map .message
  | _, _ => none

/-- All that a repeated field holds. -/
def elements (m : Message) (index : Nat) : List (Value Message) :=
  match m.slotAt index with
  | .scalars values => values.map .scalar
  | .texts values => values.active.map .scalar
  | .messages values => values.active.map .message
  | _ => []

def entries (m : Message) (index : Nat) : List (Entry Message) :=
  match m.slotAt index with
  | .map entries => entries
  | _ => []

/-- Sets a field or selects a member. -/
def set (m : Message) (field : Field) (index : Nat) (value : Value Message) : Message :=
  match field.oneof, m.slotAt index, value with
  | some slot, .member, value => m.setMember slot index value
  | _, .scalar _, .scalar value => m.setScalar field index value
  | _, .message _, .message value => m.setSlot index (.message (.present value))
  | _, _, _ => m

/-- Leaves nothing selected in a choice. -/
def clearChoice (m : Message) (slot : Nat) : Message := m.setChoice slot (m.choiceAt slot).stash

/-- Drops what is selected in a choice. -/
def takeChoice (m : Message) (slot : Nat) : Message := m.setChoice slot { m.choiceAt slot with selected := none }

/-- Unsets a field; a member only if it is the one selected. -/
def clearField (m : Message) (field : Field) (index : Nat) : Message :=
  match field.oneof, m.slotAt index with
  | some slot, .member => if (m.choiceAt slot).isSelected index then m.clearChoice slot else m
  | _, slot => (m.setSlot index (Slot.clear field slot)).unmark field

/-- Starts on a sub-message: the message with it in place, where that is, and the sub-message. -/
def start (table : TypeTable) (type : MessageType) (m : Message) (field : Field) (index : Nat) :
    Message × Place × Message :=
  let child := table.childAt type index
  match field.oneof, m.slotAt index with
  | some slot, .member =>
    let (start, choice) := (m.choiceAt slot).select (clear child) (new child) index
    (m.setChoice slot choice, .member slot index, start)
  | _, .messages values =>
    let start := values.spare (clear child) (new child)
    (m.setSlot index (.messages (values.push start)), .element index, start)
  | _, .message value =>
    let start := value.getOrInit (clear child) (new child)
    (m.setSlot index (.message (.present start)), .field index, start)
  | _, _ => (m, .field index, new child)

/-- Reads bytes into a sub-message, which is there also when reading fails and measured when not. -/
def mergeField (table : TypeTable) (type : MessageType) (m : Message) (field : Field) (index : Nat)
    (bytes : Bytes) : Message × Message × Option DecodeError :=
  let (m, place, child) := m.start table type field index
  let out := child.merge table (table.childAt type index) (.ofBytes bytes)
  let part := if out.error.isSome then out.message else out.message.measure table (table.childAt type index)
  (m.put table type place part, part, out.error)

/-- Measures the sub-messages that a field or member holds. -/
def measureField (table : TypeTable) (type : MessageType) (m : Message) (field : Field) (index : Nat) : Message :=
  let measured := measure table (table.childAt type index)
  match field.oneof, m.slotAt index with
  | some slot, .member =>
    if (m.choiceAt slot).isSelected index then m.setChoice slot ((m.choiceAt slot).mapParts measured id) else m
  | _, slot => m.setSlot index (slot.mapParts measured id)

/-- The text or byte string with more behind it. -/
def extended (value more : Scalar) : Scalar :=
  match value, more with
  | .string a, .string b => .string (a ++ b)
  | .bytes a, .bytes b => .bytes (a ++ b)
  | value, _ => value

/-- Appends to a text or byte string. -/
def extend (m : Message) (field : Field) (index : Nat) (more : Scalar) : Message :=
  match m.slotAt index with
  | .scalar value => m.setScalar field index (extended value more)
  | _ => m

/-- Appends a value to a repeated field. -/
def add (m : Message) (index : Nat) (value : Scalar) : Message :=
  match m.slotAt index with
  | .texts _ => (m.addText index value.kind).setLastText index value
  | _ => m.appendScalars index [value]

/-- Takes the last element off a repeated field. -/
def pop (m : Message) (index : Nat) : Option (Value Message) × Message :=
  match m.slotAt index with
  | .scalars values => (values.getLast?.map .scalar, m.setSlot index (.scalars values.dropLast))
  | .texts values => (values.pop.1.map .scalar, m.setSlot index (.texts values.pop.2))
  | .messages values => (values.pop.1.map .message, m.setSlot index (.messages values.pop.2))
  | _ => (none, m)

/-- The value of a key in a map. -/
def lookup (m : Message) (index : Nat) (key : Scalar) : Option (Value Message) :=
  ((m.entries index).find? fun entry => entry.key == key).map Entry.value

def removeEntry (m : Message) (index : Nat) (key : Scalar) : Message :=
  m.setSlot index (.map ((m.entries index).filter fun entry => entry.key != key))

end Protobuf.Message
