/-
  Protobuf.Message.Typed — messages together with their types.

  `foldTyped` hands every sub-message its type. `Message.new` is the message with nothing set;
  `Message.clear` leaves nothing set, keeping sub-messages aside and the size of the last measuring.
-/

import Protobuf.Message.Basic
import Protobuf.Schema.Table

namespace Protobuf

open Schema

section Typed

variable {M N α : Type} (table : TypeTable) (type : MessageType)

/-- The member with the type of its message. -/
def Member.mapTyped (f : MessageType → M → N) (member : Member M) : Member N :=
  member.map (f (table.childAt type member.field))

def Body.mapTyped (f : MessageType → M → N) (body : Body M) : Body N :=
  { body with
    slots := body.slots.mapIdx fun index slot =>
      slot.mapParts (f (table.childAt type index)) (f (table.childAt type index))
    choices := body.choices.map fun choice =>
      ⟨choice.selected.map (Member.mapTyped table type f), choice.spare.map (Member.mapTyped table type f)⟩ }

namespace Message

/-- Computes from the innermost level outwards, where a level knows its type. -/
def foldTyped (step : MessageType → Body α → α) (m : Message) : α :=
  m.fold (fun body type => step type (body.mapTyped table type fun type compute => compute type)) type

end Message

end Typed

/-! ## Composition -/

section Composition

variable {L M N : Type}

theorem Singular.mapParts_mapParts (f g : M → N) (h : L → M) (s : Singular L) :
    (s.mapParts h h).mapParts f g = s.mapParts (fun m => f (h m)) (fun m => g (h m)) := by
  cases s with
  | absent kept => simp only [Singular.mapParts, Option.map_map, Function.comp_def]
  | present value => rfl

theorem Repeated.mapParts_mapParts (f g : M → N) (h : L → M) (xs : Repeated L) :
    (xs.mapParts h h).mapParts f g = xs.mapParts (fun m => f (h m)) (fun m => g (h m)) := by
  simp only [Repeated.mapParts, List.map_map, Function.comp_def]

theorem Value.map_map (f : M → N) (h : L → M) (value : Value L) :
    (value.map h).map f = value.map fun m => f (h m) := by cases value <;> rfl

theorem Member.map_map (f : M → N) (h : L → M) (member : Member L) :
    (member.map h).map f = member.map fun m => f (h m) := by
  simp only [Member.map, Value.map_map]

theorem Entry.map_map (f : M → N) (h : L → M) (entry : Entry L) :
    (entry.map h).map f = entry.map fun m => f (h m) := by
  simp only [Entry.map, Value.map_map]

theorem Slot.mapParts_mapParts (f g : M → N) (h : L → M) (slot : Slot L) :
    (slot.mapParts h h).mapParts f g = slot.mapParts (fun m => f (h m)) (fun m => g (h m)) := by
  cases slot with
  | message value => simp only [Slot.mapParts, Singular.mapParts_mapParts]
  | messages values => simp only [Slot.mapParts, Repeated.mapParts_mapParts]
  | map entries =>
    simp only [Slot.mapParts, List.map_map]
    exact congrArg Slot.map (List.map_congr_left fun entry _ => Entry.map_map f h entry)
  | _ => rfl

theorem Member.mapTyped_map (table : TypeTable) (type : MessageType) (f : MessageType → M → N) (h : L → M)
    (member : Member L) :
    (member.map h).mapTyped table type f = member.mapTyped table type fun t m => f t (h m) :=
  Member.map_map _ h member

theorem Body.mapTyped_map (table : TypeTable) (type : MessageType) (f : MessageType → M → N) (h : L → M)
    (body : Body L) : (body.map h).mapTyped table type f = body.mapTyped table type fun t m => f t (h m) := by
  have member := fun m : Member L => Member.mapTyped_map table type f h m
  simp only [Body.map, Body.mapParts, Body.mapTyped, List.map_map, Function.comp_def, Choice.mapParts,
    Option.map_map, member]
  congr 1
  refine List.ext_getElem? fun index => ?_
  simp only [List.getElem?_mapIdx, List.getElem?_map, Option.map_map, Function.comp_def, Slot.mapParts_mapParts]

/-- A typed fold is one step over the typed folds of the sub-messages. -/
theorem Message.foldTyped_mk {α : Type} (table : TypeTable) (type : MessageType)
    (step : MessageType → Body α → α) (body : Body Message) :
    (mk body).foldTyped table type step =
      step type (body.mapTyped table type fun t m => m.foldTyped table t step) := by
  simp only [foldTyped, fold_mk, Body.mapTyped_map]

end Composition

/-! ## Nothing set -/

/-- An unset field. -/
def Slot.new (field : Field) : Slot Message :=
  match field.strategy with
  | .singular type _ => .scalar (field.initial type)
  | .message _ => .message .empty
  | .repeated _ | .packed _ => .scalars []
  | .texts _ => .texts .empty
  | .messages _ => .messages .empty
  | .map _ _ => .map []
  | .member _ _ => .member

/-- The field unset, with messages and texts kept aside. -/
def Slot.clear (field : Field) : Slot Message → Slot Message
  | .message value => .message value.clear
  | .messages values => .messages values.clear
  | .texts values => .texts values.clear
  | _ => Slot.new field

namespace Choice

variable {M : Type}

/-- Nothing selected; a message is put aside, in place of the one that was. -/
def stash (choice : Choice M) : Choice M :=
  match choice.selected with
  | some ⟨field, .message m⟩ => ⟨none, some ⟨field, .message m⟩⟩
  | _ => ⟨none, choice.spare⟩

def isSelected (choice : Choice M) (field : Nat) : Bool := choice.selected.any fun member => member.field == field

end Choice

namespace Message

def new (type : MessageType) : Message :=
  mk { slots := type.fields.map Slot.new
       choices := type.oneofs.map fun _ => {}
       presence := .none type.presenceWords }

def clear (type : MessageType) (m : Message) : Message :=
  mk { slots := List.zipWith Slot.clear type.fields m.body.slots
       choices := m.body.choices.map Choice.stash
       presence := .none type.presenceWords
       cachedSize := m.body.cachedSize }

/-- A copy with nothing kept aside but the spare messages of choices. -/
def copy (m : Message) : Message :=
  m.fold fun body => mk { body with
    slots := body.slots.map fun
      | .message value => .message value.copy
      | .messages values => .messages values.copy
      | .texts values => .texts values.copy
      | slot => slot }

end Message

end Protobuf
