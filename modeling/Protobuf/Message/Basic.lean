/-
  Protobuf.Message.Basic — message values.

  A message holds a slot for each field of its type, in declaration order, a choice for each oneof,
  the words of its presence bits, the size it was last measured at and the bytes of fields it does
  not know. `Body M` is one level of this, with sub-messages of type `M`; a `Message` is a body whose
  sub-messages are messages. `Message.fold` computes over a whole message from what to do at one
  level, so operations are given one level at a time.

  Slots, choices and bits have no types of their own: a message means something only together with
  its type and the table of all types.
-/

import Protobuf.Bytes
import Protobuf.Container.Repeated
import Protobuf.Container.Singular
import Protobuf.Scalar

namespace Protobuf

/-- Presence bits, thirty-two a word, the first in the lowest place. -/
abbrev PresenceBits := List UInt32

namespace PresenceBits

def mask (bit : Nat) : UInt32 := 1 <<< (UInt32.ofNat (bit % 32))

def isSet (bits : PresenceBits) (bit : Nat) : Bool := ((bits[bit / 32]?.getD 0) &&& mask bit) != 0

def set (bits : PresenceBits) (bit : Nat) : PresenceBits := bits.modify (bit / 32) (· ||| mask bit)

def unset (bits : PresenceBits) (bit : Nat) : PresenceBits := bits.modify (bit / 32) (· &&& ~~~ mask bit)

def none (words : Nat) : PresenceBits := List.replicate words 0

end PresenceBits

/-- What a map entry or a member of a choice holds. -/
inductive Value (M : Type) where
  | scalar (value : Scalar)
  | message (value : M)
  deriving DecidableEq, Repr, Inhabited

structure Entry (M : Type) where
  key : Scalar
  value : Value M
  deriving DecidableEq, Repr

/-- A member of a choice, by the position of its field, with its value. -/
structure Member (M : Type) where
  field : Nat
  value : Value M
  deriving DecidableEq, Repr

/-- The selected member of a oneof, and the last message that was put aside. -/
structure Choice (M : Type) where
  selected : Option (Member M) := none
  spare : Option (Member M) := none
  deriving DecidableEq, Repr

/-- How a field is held. -/
inductive Slot (M : Type) where
  | scalar (value : Scalar)
  | scalars (values : List Scalar)
  | texts (values : Repeated Scalar)
  | message (value : Singular M)
  | messages (values : Repeated M)
  | map (entries : List (Entry M))
  /-- Held by its choice. -/
  | member
  deriving DecidableEq, Repr, Inhabited

/-- One level of a message. -/
structure Body (M : Type) where
  slots : List (Slot M) := []
  choices : List (Choice M) := []
  presence : PresenceBits := []
  cachedSize : Nat := 0
  unknown : Bytes := []
  deriving DecidableEq, Repr

instance {M : Type} : Inhabited (Body M) := ⟨{}⟩

inductive Message where
  | mk (body : Body Message)

namespace Message

def body : Message → Body Message
  | mk body => body

instance : Inhabited Message := ⟨mk {}⟩

/-- Changes the outermost level. -/
def update (m : Message) (f : Body Message → Body Message) : Message := mk (f m.body)

end Message

/-! ## One level, sub-message by sub-message

Messages in use (present, active, selected) go through one function, those kept aside through
another. -/

section Parts

variable {M N : Type} (active idle : M → N)

def Value.map (f : M → N) : Value M → Value N
  | scalar value => scalar value
  | message value => message (f value)

def Entry.map (f : M → N) (entry : Entry M) : Entry N := ⟨entry.key, entry.value.map f⟩

def Member.map (f : M → N) (member : Member M) : Member N := ⟨member.field, member.value.map f⟩

def Choice.mapParts (choice : Choice M) : Choice N :=
  ⟨choice.selected.map (Member.map active), choice.spare.map (Member.map idle)⟩

def Slot.mapParts : Slot M → Slot N
  | scalar value => scalar value
  | scalars values => scalars values
  | texts values => texts values
  | message value => message (value.mapParts active idle)
  | messages values => messages (values.mapParts active idle)
  | map entries => map (entries.map (Entry.map active))
  | member => member

def Body.mapParts (body : Body M) : Body N :=
  { body with
    slots := body.slots.map (Slot.mapParts active idle)
    choices := body.choices.map (Choice.mapParts active idle) }

def Body.map (f : M → N) (body : Body M) : Body N := body.mapParts f f

end Parts

/-! ## All levels -/

namespace Message

section Fold

variable {α : Type} (f : Body α → α)

mutual

/-- Computes from the innermost level outwards. -/
def fold : Message → α
  | mk ⟨slots, choices, presence, cachedSize, unknown⟩ =>
    f ⟨foldSlots slots, foldChoices choices, presence, cachedSize, unknown⟩

def foldSlots : List (Slot Message) → List (Slot α)
  | [] => []
  | slot :: rest => foldSlot slot :: foldSlots rest

def foldSlot : Slot Message → Slot α
  | .scalar value => .scalar value
  | .scalars values => .scalars values
  | .texts values => .texts values
  | .message value => .message (foldSingular value)
  | .messages values => .messages (foldRepeated values)
  | .map entries => .map (foldEntries entries)
  | .member => .member

def foldSingular : Singular Message → Singular α
  | .absent kept => .absent (foldKept kept)
  | .present value => .present (fold value)

def foldKept : Option Message → Option α
  | none => none
  | some value => some (fold value)

def foldRepeated : Repeated Message → Repeated α
  | ⟨active, reserve⟩ => ⟨foldList active, foldList reserve⟩

def foldList : List Message → List α
  | [] => []
  | m :: rest => fold m :: foldList rest

def foldEntries : List (Entry Message) → List (Entry α)
  | [] => []
  | ⟨key, value⟩ :: rest => ⟨key, foldValue value⟩ :: foldEntries rest

def foldValue : Value Message → Value α
  | .scalar value => .scalar value
  | .message value => .message (fold value)

def foldChoices : List (Choice Message) → List (Choice α)
  | [] => []
  | ⟨selected, spare⟩ :: rest => ⟨foldMember selected, foldMember spare⟩ :: foldChoices rest

def foldMember : Option (Member Message) → Option (Member α)
  | none => none
  | some ⟨field, value⟩ => some ⟨field, foldValue value⟩

end

theorem foldKept_eq (kept : Option Message) : foldKept f kept = kept.map (fold f) := by cases kept <;> rfl

theorem foldSingular_eq (s : Singular Message) : foldSingular f s = s.mapParts (fold f) (fold f) := by
  cases s with
  | absent kept => simp only [foldSingular, Singular.mapParts, foldKept_eq]
  | present value => rfl

theorem foldList_eq (ms : List Message) : foldList f ms = ms.map (fold f) := by
  induction ms with
  | nil => rfl
  | cons m rest ih => simp only [foldList, List.map_cons, ih]

theorem foldRepeated_eq (ms : Repeated Message) : foldRepeated f ms = ms.mapParts (fold f) (fold f) := by
  obtain ⟨active, reserve⟩ := ms
  simp only [foldRepeated, Repeated.mapParts, foldList_eq]

theorem foldValue_eq (value : Value Message) : foldValue f value = value.map (fold f) := by
  cases value <;> rfl

theorem foldEntries_eq (entries : List (Entry Message)) :
    foldEntries f entries = entries.map (Entry.map (fold f)) := by
  induction entries with
  | nil => rfl
  | cons entry rest ih => simp only [foldEntries, List.map_cons, Entry.map, ih, foldValue_eq]

theorem foldMember_eq (member : Option (Member Message)) :
    foldMember f member = member.map (Member.map (fold f)) := by
  cases member with
  | none => rfl
  | some member => simp only [foldMember, Option.map_some, Member.map, foldValue_eq]

theorem foldChoices_eq (choices : List (Choice Message)) :
    foldChoices f choices = choices.map (Choice.mapParts (fold f) (fold f)) := by
  induction choices with
  | nil => rfl
  | cons choice rest ih => simp only [foldChoices, List.map_cons, Choice.mapParts, ih, foldMember_eq]

theorem foldSlot_eq (slot : Slot Message) : foldSlot f slot = slot.mapParts (fold f) (fold f) := by
  cases slot <;> simp only [foldSlot, Slot.mapParts, foldSingular_eq, foldRepeated_eq, foldEntries_eq]

theorem foldSlots_eq (slots : List (Slot Message)) :
    foldSlots f slots = slots.map (Slot.mapParts (fold f) (fold f)) := by
  induction slots with
  | nil => rfl
  | cons slot rest ih => simp only [foldSlots, List.map_cons, ih, foldSlot_eq]

/-- The fold of a message is one step over the folds of its sub-messages. -/
theorem fold_mk (body : Body Message) : fold f (mk body) = f (body.map (fold f)) := by
  obtain ⟨slots, choices, presence, cachedSize, unknown⟩ := body
  simp only [fold, Body.map, Body.mapParts, foldSlots_eq, foldChoices_eq]

end Fold

end Message

end Protobuf
