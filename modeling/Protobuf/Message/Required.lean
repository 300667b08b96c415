/-
  Protobuf.Message.Required — whether every required field is set, at all levels.
-/

import Protobuf.Message.Typed

namespace Protobuf

open Schema

/-- Whether a field, if required, is set: by its bit, or by holding a message. -/
def Slot.isSet {M : Type} (field : Field) (presence : PresenceBits) (slot : Slot M) : Bool :=
  match field.presenceBit, slot with
  | some bit, _ => presence.isSet bit
  | none, .message value => value.isPresent
  | none, _ => true

def Value.isComplete : Value Bool → Bool
  | scalar _ => true
  | message complete => complete

/-- Whether the messages in use in a field are complete. -/
def Slot.isComplete : Slot Bool → Bool
  | message value => value.get?.getD true
  | messages values => values.active.all id
  | map entries => entries.all fun entry => entry.value.isComplete
  | _ => true

def Body.isComplete (type : MessageType) (body : Body Bool) : Bool :=
  (type.fields.zip body.slots).all (fun (field, slot) =>
    (!field.required || slot.isSet field body.presence) && slot.isComplete) &&
    body.choices.all fun choice => choice.selected.all fun member => member.value.isComplete

/-- Whether all required fields are set, in the message and in those inside it. -/
def Message.isComplete (table : TypeTable) (type : MessageType) (m : Message) : Bool :=
  m.foldTyped table type Body.isComplete

end Protobuf
