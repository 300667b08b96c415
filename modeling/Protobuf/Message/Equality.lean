/-
  Protobuf.Message.Equality — equality and hashing of messages.

  Compared are the fields, the selected members of choices, presence bits and unknown bytes; what is
  kept aside and remembered sizes are not. Floats compare as numbers and maps as finite maps.
-/

import Protobuf.Hash.Stream
import Protobuf.Message.Typed

namespace Protobuf

open Schema

/-- Whether two lists agree element by element. -/
def sameList {α β : Type} (same : α → β → Bool) : List α → List β → Bool
  | [], [] => true
  | a :: as, b :: bs => same a b && sameList same as bs
  | _, _ => false

def sameOption {α β : Type} (same : α → β → Bool) : Option α → Option β → Bool
  | none, none => true
  | some a, some b => same a b
  | _, _ => false

/-- Whether a value, its message given by what it equals, equals another. -/
def Value.equal : Value (Message → Bool) → Value Message → Bool
  | scalar a, scalar b => a.equal b
  | message same, message m => same m
  | _, _ => false

def Member.equal (a : Member (Message → Bool)) (b : Member Message) : Bool :=
  a.field == b.field && a.value.equal b.value

/-- Whether two maps have the same entries, in whatever order. -/
def sameEntries (as : List (Entry (Message → Bool))) (bs : List (Entry Message)) : Bool :=
  as.length == bs.length &&
    as.all fun a => (bs.find? fun b => b.key == a.key).any fun b => a.value.equal b.value

def Slot.equal : Slot (Message → Bool) → Slot Message → Bool
  | scalar a, scalar b => a.equal b
  | scalars a, scalars b => sameList Scalar.equal a b
  | texts a, texts b => sameList Scalar.equal a.active b.active
  | message a, message b => sameOption (fun same m => same m) a.get? b.get?
  | messages a, messages b => sameList (fun same m => same m) a.active b.active
  | map a, map b => sameEntries a b
  | member, member => true
  | _, _ => false

def Body.equal (a : Body (Message → Bool)) (b : Body Message) : Bool :=
  sameList Slot.equal a.slots b.slots &&
    sameList (fun (a : Choice (Message → Bool)) (b : Choice Message) => sameOption Member.equal a.selected b.selected)
      a.choices b.choices &&
    a.unknown == b.unknown && a.presence == b.presence

/-- Equality of messages; one with a NaN in it differs from itself. -/
def Message.equal (a b : Message) : Bool := a.fold (fun body other => body.equal other.body) b

/-! ## Hashing -/

def Value.hashBytes : Value Bytes → Bytes
  | scalar value => Hash.scalar value
  | message stream => stream

def Slot.hashBytes : Slot Bytes → Bytes
  | scalar value => Hash.scalar value
  | scalars values => Hash.list (values.map Hash.scalar)
  | texts values => Hash.list (values.active.map Hash.scalar)
  | message value => Hash.option value.get?
  | messages values => Hash.list values.active
  | map entries => Hash.map (entries.map fun entry => Hash.scalar entry.key ++ entry.value.hashBytes)
  | member => []

/-- The selected member by its number and value. -/
def Choice.hashBytes (type : MessageType) (choice : Choice Bytes) : Bytes :=
  Hash.option (choice.selected.map fun member =>
    Hash.word32 (UInt32.ofNat (type.fields[member.field]?.getD default).number) ++ member.value.hashBytes)

def Body.hashBytes (type : MessageType) (body : Body Bytes) : Bytes :=
  body.slots.flatMap Slot.hashBytes ++ body.choices.flatMap (Choice.hashBytes type) ++
    (if type.keepsUnknown then Hash.bytes body.unknown else []) ++
    (if body.presence.isEmpty then [] else Hash.length body.presence.length ++ body.presence.flatMap Hash.word32)

/-- The bytes hashed for a message. -/
def Message.hashBytes (table : TypeTable) (type : MessageType) (m : Message) : Bytes :=
  m.foldTyped table type Body.hashBytes

end Protobuf
