/-
  Protobuf.Proofs.Shape — which messages are messages of a type.

  (1) `Body.inUse` and `Body.aside` list the sub-messages of one level with the position of the field
  they belong to: those that count, and those kept for reuse.

  (2) `Body.Shaped`: a level has a slot of the right form for each field and a choice for each oneof,
  and its presence bits belong to fields.

  (3) `Message.Throughout`: a property of levels that holds at the outermost one and of every
  sub-message in use; `Message.Typed` is this for the shape. In a message that is `Held` also what is
  kept aside has the form of its type, so that it can be reused.
-/

import Protobuf.Message.Encode
import Protobuf.Message.Merge
import Protobuf.Proofs.Reading

namespace Protobuf

open Schema

/-! ## Sub-messages -/

section Parts

variable {M N : Type}

def Value.message? : Value M → Option M
  | scalar _ => none
  | message m => some m

/-- The messages in a slot. -/
def Slot.inUse : Slot M → List M
  | message value => value.get?.toList
  | messages values => values.active
  | map entries => entries.filterMap fun entry => entry.value.message?
  | _ => []

/-- The messages that a slot keeps for reuse. -/
def Slot.aside : Slot M → List M
  | message (.absent kept) => kept.toList
  | messages values => values.reserve
  | _ => []

def Value.scalar? : Value M → Option Scalar
  | scalar value => some value
  | message _ => none

/-- The single values in a slot, the keys of a map among them. -/
def Slot.values : Slot M → List Scalar
  | scalar value => [value]
  | scalars values => values
  | texts values => values.active
  | map entries => entries.flatMap fun entry => entry.key :: entry.value.scalar?.toList
  | _ => []

/-- A member that is a message, with the position of its field. -/
def Member.message? (member : Member M) : Option (Nat × M) := member.value.message?.map fun m => (member.field, m)

namespace Body

/-- The sub-messages of a level with the positions of their fields, given which ones of a slot and which
    member of a choice. -/
def parts (held : Slot M → List M) (pick : Choice M → Option (Member M)) (body : Body M) : List (Nat × M) :=
  body.slots.zipIdx.flatMap (fun (slot, index) => (held slot).map fun m => (index, m)) ++
    body.choices.filterMap fun choice => (pick choice).bind Member.message?

/-- The single values of a level. -/
def values (body : Body M) : List Scalar :=
  body.slots.flatMap Slot.values ++ body.choices.filterMap fun choice => choice.selected.bind fun m => m.value.scalar?

/-- The sub-messages that count. -/
def inUse (body : Body M) : List (Nat × M) := body.parts Slot.inUse Choice.selected

/-- The sub-messages kept for reuse. -/
def aside (body : Body M) : List (Nat × M) := body.parts Slot.aside Choice.spare

theorem mem_parts_iff {body : Body M} {held : Slot M → List M} {pick : Choice M → Option (Member M)} {index : Nat}
    {m : M} : (index, m) ∈ body.parts held pick ↔
      (∃ s, body.slots[index]? = some s ∧ m ∈ held s) ∨
        ∃ (slot : Nat) (choice : Choice M),
          body.choices[slot]? = some choice ∧ pick choice = some ⟨index, .message m⟩ := by
  constructor
  · intro h
    rcases List.mem_append.mp h with h | h
    · obtain ⟨⟨s, i⟩, hs, hm⟩ := List.mem_flatMap.mp h
      obtain ⟨m', hm', he⟩ := List.mem_map.mp hm
      cases he
      exact .inl ⟨s, List.mem_zipIdx_iff_getElem?.mp hs, hm'⟩
    · obtain ⟨choice, hc, hm⟩ := List.mem_filterMap.mp h
      obtain ⟨slot, hslot⟩ := List.getElem?_of_mem hc
      obtain ⟨⟨field, value⟩, hpick, hv⟩ := Option.bind_eq_some_iff.mp hm
      cases value with
      | scalar v => cases hv
      | message m' =>
        cases hv
        exact .inr ⟨slot, choice, hslot, hpick⟩
  · rintro (⟨s, hs, hm⟩ | ⟨slot, choice, hc, hm⟩)
    · refine List.mem_append_left _ (List.mem_flatMap.mpr ⟨(s, index), List.mem_zipIdx_iff_getElem?.mpr hs, ?_⟩)
      exact List.mem_map_of_mem hm
    · refine List.mem_append_right _ (List.mem_filterMap.mpr ⟨choice, List.mem_of_getElem? hc, ?_⟩)
      rw [hm]
      rfl

end Body

/-! ## Shape -/

/-- Whether the value is one of the type. -/
def Value.suits (type : ValueType) (value : Value M) : Bool :=
  match type, value with
  | .plain type, .scalar value => value.kind == type.kind
  | .message _, .message _ => true
  | _, _ => false

theorem Value.suits_map (f : M → N) (type : ValueType) (value : Value M) : (value.map f).suits type = value.suits type := by
  cases value <;> cases type <;> rfl

def Entry.suits (key : ScalarType) (value : ValueType) (entry : Entry M) : Bool :=
  entry.key.kind == .scalar key && entry.value.suits value

/-- Whether the slot has the form of the strategy and values of its kind; no key is in a map twice. -/
def Slot.suits (strategy : Strategy) (slot : Slot M) : Bool :=
  match strategy, slot with
  | .singular type _, .scalar value => value.kind == type.kind
  | .message _, .message _ => true
  | .repeated type, .scalars values => values.all fun value => value.kind == type.kind
  | .packed type, .scalars values => values.all fun value => value.kind == type.kind
  | .texts type, .texts values => values.active.all fun value => value.kind == type.kind
  | .messages _, .messages _ => true
  | .map key value, .map entries => entries.all (Entry.suits key value) && (entries.map Entry.key).Nodup
  | .member _ _, .member => true
  | _, _ => false

/-- The cases of `Slot.suits`. -/
inductive Slot.Form : Strategy → Slot M → Prop
  | singular {type : PlainType} {presence : Presence} {value : Scalar} (kind : value.kind = type.kind) :
    Form (.singular type presence) (.scalar value)
  | message {ref : TypeRef} {value : Singular M} : Form (.message ref) (.message value)
  | repeated {type : PlainType} {values : List Scalar} (kinds : ∀ value ∈ values, value.kind = type.kind) :
    Form (.repeated type) (.scalars values)
  | packed {type : PlainType} {values : List Scalar} (kinds : ∀ value ∈ values, value.kind = type.kind) :
    Form (.packed type) (.scalars values)
  | texts {type : PlainType} {values : Repeated Scalar} (kinds : ∀ value ∈ values.active, value.kind = type.kind) :
    Form (.texts type) (.texts values)
  | messages {ref : TypeRef} {values : Repeated M} : Form (.messages ref) (.messages values)
  | map {key : ScalarType} {value : ValueType} {entries : List (Entry M)}
    (entries_suit : ∀ entry ∈ entries, entry.suits key value = true) (nodup : (entries.map Entry.key).Nodup) :
    Form (.map key value) (.map entries)
  | member {oneof : Nat} {type : ValueType} : Form (.member oneof type) .member

theorem Slot.suits_iff {strategy : Strategy} {slot : Slot M} :
    slot.suits strategy = true ↔ Slot.Form strategy slot := by
  constructor
  · intro h
    unfold suits at h
    split at h
    · exact .singular (eq_of_beq h)
    · exact .message
    · exact .repeated fun v hv => eq_of_beq (List.all_eq_true.mp h v hv)
    · exact .packed fun v hv => eq_of_beq (List.all_eq_true.mp h v hv)
    · exact .texts fun v hv => eq_of_beq (List.all_eq_true.mp h v hv)
    · exact .messages
    · obtain ⟨hall, hn⟩ := Bool.and_eq_true_iff.mp h
      exact .map (List.all_eq_true.mp hall) (of_decide_eq_true hn)
    · exact .member
    · cases h
  · intro h
    cases h with
    | singular kind => exact beq_iff_eq.mpr kind
    | message => rfl
    | repeated kinds => exact List.all_eq_true.mpr fun v hv => beq_iff_eq.mpr (kinds v hv)
    | packed kinds => exact List.all_eq_true.mpr fun v hv => beq_iff_eq.mpr (kinds v hv)
    | texts kinds => exact List.all_eq_true.mpr fun v hv => beq_iff_eq.mpr (kinds v hv)
    | messages => rfl
    | map hall hn => exact Bool.and_eq_true_iff.mpr ⟨List.all_eq_true.mpr hall, decide_eq_true hn⟩
    | member => rfl

/-- Whether the member is one of the oneof at this position, with a value of its type. -/
def Member.suits (type : MessageType) (slot : Nat) (member : Member M) : Bool :=
  match type.fields[member.field]?.map Field.strategy with
  | some (.member oneof value) => oneof == slot && member.value.suits value
  | _ => false

/-- A level of a message of this type. -/
structure Body.Shaped (type : MessageType) (body : Body M) : Prop where
  length_slots : body.slots.length = type.fields.length
  slots : ∀ pair ∈ type.fields.zip body.slots, pair.2.suits pair.1.strategy = true
  length_choices : body.choices.length = type.oneofs.length
  members : ∀ pair ∈ body.choices.zipIdx, ∀ member ∈ pair.1.selected, member.suits type pair.2 = true
  length_presence : body.presence.length = type.presenceWords
  /-- No bit is set that belongs to no field. -/
  presence : ∀ bit < 32 * body.presence.length, body.presence.isSet bit = true →
    ∃ field ∈ type.fields, field.presenceBit = some bit
  unknown : type.keepsUnknown = false → body.unknown = []

instance (type : MessageType) (body : Body M) : Decidable (body.Shaped type) :=
  decidable_of_iff
    (body.slots.length = type.fields.length ∧
      (∀ pair ∈ type.fields.zip body.slots, pair.2.suits pair.1.strategy = true) ∧
      body.choices.length = type.oneofs.length ∧
      (∀ pair ∈ body.choices.zipIdx, ∀ member ∈ pair.1.selected, member.suits type pair.2 = true) ∧
      body.presence.length = type.presenceWords ∧
      (∀ bit < 32 * body.presence.length, body.presence.isSet bit = true →
        ∃ field ∈ type.fields, field.presenceBit = some bit) ∧
      (type.keepsUnknown = false → body.unknown = []))
    ⟨fun ⟨a, b, c, d, e, f, g⟩ => ⟨a, b, c, d, e, f, g⟩, fun ⟨a, b, c, d, e, f, g⟩ => ⟨a, b, c, d, e, f, g⟩⟩

namespace Body.Shaped

variable {type : MessageType} {body : Body M}

theorem form (h : body.Shaped type) {index : Nat} {field : Field} {slot : Slot M}
    (hf : type.fields[index]? = some field) (hs : body.slots[index]? = some slot) : Slot.Form field.strategy slot :=
  Slot.suits_iff.mp (h.slots (field, slot) (List.mem_of_getElem? (List.getElem?_zip_eq_some.mpr ⟨hf, hs⟩)))

theorem field_of_slot (h : body.Shaped type) {index : Nat} {slot : Slot M} (hs : body.slots[index]? = some slot) :
    ∃ field, type.fields[index]? = some field ∧ Slot.Form field.strategy slot := by
  have hlt : index < type.fields.length := h.length_slots ▸ (List.getElem?_eq_some_iff.mp hs).1
  have hf := List.getElem?_eq_getElem hlt
  exact ⟨_, hf, h.form hf hs⟩

theorem slot_of_field (h : body.Shaped type) {index : Nat} {field : Field} (hf : type.fields[index]? = some field) :
    ∃ slot, body.slots[index]? = some slot ∧ Slot.Form field.strategy slot := by
  have hlt : index < body.slots.length := h.length_slots ▸ (List.getElem?_eq_some_iff.mp hf).1
  have hs := List.getElem?_eq_getElem hlt
  exact ⟨_, hs, h.form hf hs⟩

theorem member (h : body.Shaped type) {slot : Nat} {choice : Choice M} {member : Member M}
    (hc : body.choices[slot]? = some choice) (hm : choice.selected = some member) : member.suits type slot = true :=
  h.members (choice, slot) (List.mem_zipIdx_iff_getElem?.mpr hc) member hm

end Body.Shaped

/-! ## Sub-messages through a function -/

theorem Slot.inUse_mapParts (f g : M → N) (slot : Slot M) : (slot.mapParts f g).inUse = slot.inUse.map f := by
  cases slot with
  | message value => cases value <;> rfl
  | map entries =>
    show (entries.map (Entry.map f)).filterMap _ = (entries.filterMap _).map f
    rw [List.filterMap_map, List.map_filterMap]
    congr 1
    funext entry
    obtain ⟨key, value⟩ := entry
    cases value <;> rfl
  | messages values => rfl
  | scalar v => rfl
  | scalars vs => rfl
  | texts vs => rfl
  | member => rfl

/-- A slot without what it keeps for reuse. -/
def Slot.tidy : Slot M → Slot M
  | message value => message (.ofOption value.get?)
  | messages values => messages (.ofList values.active)
  | slot => slot

theorem Slot.tidy_mapParts (f : M → N) (slot : Slot M) : (slot.mapParts f f).tidy = slot.tidy.mapParts f f := by
  cases slot with
  | message value => cases value <;> rfl
  | messages values => rfl
  | scalar v => rfl
  | scalars vs => rfl
  | texts vs => rfl
  | map entries => rfl
  | member => rfl

theorem Slot.tidy_congr {f g i j : M → N} {slot : Slot M} (h : ∀ x ∈ slot.inUse, f x = g x) :
    (slot.mapParts f i).tidy = (slot.mapParts g j).tidy := by
  cases slot with
  | message value =>
    cases value with
    | absent kept => rfl
    | present m => exact congrArg (fun y => Slot.message (.present y)) (h m (List.mem_singleton_self m))
  | messages values => exact congrArg (fun ys => Slot.messages (.ofList ys)) (List.map_congr_left h)
  | map entries =>
    refine congrArg Slot.map (List.map_congr_left fun entry he => ?_)
    obtain ⟨key, value⟩ := entry
    cases value with
    | scalar v => rfl
    | message m =>
      exact congrArg (fun y => (⟨key, .message y⟩ : Entry N)) (h m (List.mem_filterMap.mpr ⟨_, he, rfl⟩))
  | scalar v => rfl
  | scalars vs => rfl
  | texts vs => rfl
  | member => rfl

namespace Body

/-- A level without what it keeps for reuse and without its remembered size. -/
def tidy (body : Body M) : Body M :=
  { body with
    slots := body.slots.map Slot.tidy
    choices := body.choices.map fun choice => ⟨choice.selected, none⟩
    cachedSize := 0 }

variable (table : TypeTable) (type : MessageType)

theorem slots_mapTyped (f : MessageType → M → N) (body : Body M) (index : Nat) :
    (body.mapTyped table type f).slots[index]? =
      body.slots[index]?.map (Slot.mapParts (f (table.childAt type index)) (f (table.childAt type index))) := by
  rw [mapTyped, List.getElem?_mapIdx]

theorem inUse_mapTyped (f : MessageType → M → N) (body : Body M) {index : Nat} {y : N} :
    (index, y) ∈ (body.mapTyped table type f).inUse ↔
      ∃ x, (index, x) ∈ body.inUse ∧ f (table.childAt type index) x = y := by
  constructor
  · intro h
    rcases mem_parts_iff.mp h with ⟨s, hs, hy⟩ | ⟨slot, choice, hc, hsel⟩
    · rw [slots_mapTyped] at hs
      obtain ⟨s', hs', rfl⟩ := Option.map_eq_some_iff.mp hs
      rw [Slot.inUse_mapParts] at hy
      obtain ⟨x, hx, rfl⟩ := List.mem_map.mp hy
      exact ⟨x, mem_parts_iff.mpr (.inl ⟨s', hs', hx⟩), rfl⟩
    · rw [mapTyped, List.getElem?_map] at hc
      obtain ⟨choice', hc', rfl⟩ := Option.map_eq_some_iff.mp hc
      obtain ⟨⟨field, value⟩, hm, he⟩ := Option.map_eq_some_iff.mp hsel
      cases value with
      | scalar v => cases he
      | message x =>
        cases he
        exact ⟨x, mem_parts_iff.mpr (.inr ⟨slot, choice', hc', hm⟩), rfl⟩
  · rintro ⟨x, hx, rfl⟩
    rcases mem_parts_iff.mp hx with ⟨s, hs, hx⟩ | ⟨slot, choice, hc, hsel⟩
    · refine mem_parts_iff.mpr (.inl ⟨s.mapParts (f (table.childAt type index)) (f (table.childAt type index)), ?_, ?_⟩)
      · rw [slots_mapTyped, hs]
        rfl
      · rw [Slot.inUse_mapParts]
        exact List.mem_map_of_mem hx
    · refine mem_parts_iff.mpr (.inr ⟨slot,
        ⟨choice.selected.map (Member.mapTyped table type f), choice.spare.map (Member.mapTyped table type f)⟩, ?_, ?_⟩)
      · rw [mapTyped, List.getElem?_map, hc]
        rfl
      · rw [hsel]
        rfl

theorem map_eq_mapTyped (f : M → N) (body : Body M) : body.map f = body.mapTyped table type fun _ => f := by
  have hslots : body.slots.map (Slot.mapParts f f) = body.slots.mapIdx fun _ slot => slot.mapParts f f := by
    refine List.ext_getElem? fun index => ?_
    rw [List.getElem?_map, List.getElem?_mapIdx]
  rw [map, mapParts, hslots]
  rfl

theorem mapTyped_id (body : Body M) : body.mapTyped table type (fun _ m => m) = body := by
  have hvalue : ∀ value : Value M, value.map (fun m => m) = value := fun value => by cases value <;> rfl
  have hentry : ∀ entry : Entry M, entry.map (fun m => m) = entry := fun entry => by rw [Entry.map, hvalue]
  have hmember : ∀ member : Member M, member.mapTyped table type (fun _ m => m) = member := fun member => by
    rw [Member.mapTyped, Member.map, hvalue]
  have hslot : ∀ slot : Slot M, slot.mapParts (fun m => m) (fun m => m) = slot := by
    intro slot
    cases slot with
    | message value => cases value <;> simp [Slot.mapParts, Singular.mapParts]
    | messages values => simp [Slot.mapParts, Repeated.mapParts]
    | map entries =>
      rw [Slot.mapParts, List.map_congr_left fun entry _ => hentry entry, List.map_id']
    | scalar v => rfl
    | scalars vs => rfl
    | texts vs => rfl
    | member => rfl
  have hslots : body.slots.mapIdx (fun _ slot => slot.mapParts (fun m => m) fun m => m) = body.slots := by
    refine List.ext_getElem? fun index => ?_
    rw [List.getElem?_mapIdx]
    cases body.slots[index]? with
    | none => rfl
    | some s => exact congrArg some (hslot s)
  have hoption : ∀ o : Option (Member M), o.map (Member.mapTyped table type fun _ m => m) = o := by
    intro o
    cases o with
    | none => rfl
    | some member => exact congrArg some (hmember member)
  simp only [mapTyped, hslots, hoption, List.map_id']

theorem mapTyped_mapTyped {L : Type} (f : MessageType → M → N) (g : MessageType → N → L) (body : Body M) :
    (body.mapTyped table type f).mapTyped table type g = body.mapTyped table type fun t m => g t (f t m) := by
  have hmember : ∀ member : Member M, (member.mapTyped table type f).mapTyped table type g =
      member.mapTyped table type fun t m => g t (f t m) := fun member => Member.map_map _ _ member
  simp only [mapTyped, List.mapIdx_mapIdx, List.map_map, Function.comp_def, Slot.mapParts_mapParts, Option.map_map,
    hmember]

theorem tidy_ext {a b : Body M} (slots : ∀ index : Nat, a.slots[index]?.map Slot.tidy = b.slots[index]?.map Slot.tidy)
    (choices : ∀ slot : Nat, a.choices[slot]?.map Choice.selected = b.choices[slot]?.map Choice.selected)
    (presence : a.presence = b.presence) (unknown : a.unknown = b.unknown) : a.tidy = b.tidy := by
  have hslots : a.slots.map Slot.tidy = b.slots.map Slot.tidy := by
    refine List.ext_getElem? fun index => ?_
    rw [List.getElem?_map, List.getElem?_map, slots index]
  have hselected : a.choices.map Choice.selected = b.choices.map Choice.selected := by
    refine List.ext_getElem? fun slot => ?_
    rw [List.getElem?_map, List.getElem?_map, choices slot]
  have hchoices : a.choices.map (fun choice => (⟨choice.selected, none⟩ : Choice M)) =
      b.choices.map fun choice => ⟨choice.selected, none⟩ := by
    have := congrArg (List.map fun selected => (⟨selected, none⟩ : Choice M)) hselected
    rwa [List.map_map, List.map_map] at this
  rw [tidy, tidy, hslots, hchoices, presence, unknown]

theorem inUse_tidy (body : Body M) {part : Nat × M} : part ∈ body.tidy.inUse ↔ part ∈ body.inUse := by
  have hslot : ∀ slot : Slot M, slot.tidy.inUse = slot.inUse := by
    intro slot
    cases slot with
    | message value => cases value <;> rfl
    | _ => rfl
  have hslots : ∀ index : Nat, body.tidy.slots[index]? = body.slots[index]?.map Slot.tidy := by
    intro index
    rw [tidy, List.getElem?_map]
  have hchoices : ∀ slot : Nat, body.tidy.choices[slot]? = body.choices[slot]?.map fun c => ⟨c.selected, none⟩ := by
    intro slot
    rw [tidy, List.getElem?_map]
  obtain ⟨index, m⟩ := part
  simp only [inUse, mem_parts_iff, hslots, hchoices, Option.map_eq_some_iff]
  constructor
  · rintro (⟨_, ⟨s, hs, rfl⟩, hm⟩ | ⟨slot, _, ⟨choice, hc, rfl⟩, hm⟩)
    · exact .inl ⟨s, hs, hslot s ▸ hm⟩
    · exact .inr ⟨slot, choice, hc, hm⟩
  · rintro (⟨s, hs, hm⟩ | ⟨slot, choice, hc, hm⟩)
    · exact .inl ⟨_, ⟨s, hs, rfl⟩, (hslot s).symm ▸ hm⟩
    · exact .inr ⟨slot, _, ⟨choice, hc, rfl⟩, hm⟩

theorem tidy_mapTyped (f : MessageType → M → N) (body : Body M) :
    (body.mapTyped table type f).tidy = body.tidy.mapTyped table type f := by
  have hslots : (body.mapTyped table type f).tidy.slots = (body.tidy.mapTyped table type f).slots := by
    refine List.ext_getElem? fun index => ?_
    rw [slots_mapTyped, tidy, tidy, List.getElem?_map, List.getElem?_map, slots_mapTyped, Option.map_map, Option.map_map]
    exact congrArg (Option.map · _) (funext fun slot => Slot.tidy_mapParts _ slot)
  have hchoices : (body.mapTyped table type f).tidy.choices = (body.tidy.mapTyped table type f).choices := by
    simp only [tidy, mapTyped, List.map_map, Function.comp_def, Option.map_none]
  exact congr (congrArg (fun slots choices => Body.mk slots choices body.presence 0 body.unknown) hslots) hchoices

/-- What is kept aside apart, a level depends only on what the function does to sub-messages in use. -/
theorem tidy_congr {f g : MessageType → M → N} {body : Body M}
    (h : ∀ part ∈ body.inUse, f (table.childAt type part.1) part.2 = g (table.childAt type part.1) part.2) :
    (body.mapTyped table type f).tidy = (body.mapTyped table type g).tidy := by
  refine tidy_ext (fun index => ?_) (fun slot => ?_) rfl rfl
  · rw [slots_mapTyped, slots_mapTyped]
    cases hs : body.slots[index]? with
    | none => rfl
    | some s =>
      exact congrArg some (Slot.tidy_congr fun x hx => h (index, x) (mem_parts_iff.mpr (.inl ⟨s, hs, hx⟩)))
  · rw [mapTyped, mapTyped, List.getElem?_map, List.getElem?_map]
    cases hc : body.choices[slot]? with
    | none => rfl
    | some choice =>
      cases hsel : choice.selected with
      | none =>
        simp only [Option.map_some, hsel]
        rfl
      | some member =>
        obtain ⟨field, value⟩ := member
        simp only [Option.map_some, hsel]
        cases value with
        | scalar v => rfl
        | message x =>
          have := h (field, x) (mem_parts_iff.mpr (.inr ⟨slot, choice, hc, hsel⟩))
          simp only [Member.mapTyped, Member.map, Value.map, this]

end Body

end Parts

/-! ## All levels -/

namespace Message

variable (table : TypeTable)

/-- The property holds of this level and, with their types, of all sub-messages in use. -/
inductive Throughout (P : MessageType → Body Message → Prop) : MessageType → Message → Prop
  | mk {type : MessageType} {body : Body Message} (level : P type body)
      (parts : ∀ part ∈ body.inUse, Throughout P (table.childAt type part.1) part.2) : Throughout P type (mk body)

/-- A message of this type, with no text or byte string longer than memory can hold. -/
def Typed : MessageType → Message → Prop :=
  Throughout table fun type body => body.Shaped type ∧ ∀ value ∈ body.values, value.Sized

/-- A message in which all that is in use and all that is kept aside has the form of its type. -/
inductive Held : MessageType → Message → Prop
  | mk {type : MessageType} {body : Body Message} (shaped : body.Shaped type)
      (inUse : ∀ part ∈ body.inUse, Held (table.childAt type part.1) part.2)
      (aside : ∀ part ∈ body.aside, Held (table.childAt type part.1) part.2) : Held type (mk body)

/-- Whether the property holds of all levels, of which there are no more than `height`. -/
def holds (P : MessageType → Body Message → Prop) [∀ type body, Decidable (P type body)] (height : Nat)
    (type : MessageType) (m : Message) : Bool :=
  match height with
  | 0 => false
  | height + 1 =>
    decide (P type m.body) && m.body.inUse.all fun part => holds P height (table.childAt type part.1) part.2

/-- Whether the message is held, with no more than `height` levels. -/
def isHeld (height : Nat) (type : MessageType) (m : Message) : Bool :=
  match height with
  | 0 => false
  | height + 1 =>
    decide (m.body.Shaped type) &&
      (m.body.inUse ++ m.body.aside).all fun part => isHeld height (table.childAt type part.1) part.2

variable {table} {type : MessageType} {m : Message}

theorem held_of_isHeld (height : Nat) (h : isHeld table height type m = true) : Held table type m := by
  induction height generalizing type m with
  | zero => cases h
  | succ height ih =>
    obtain ⟨body⟩ := m
    obtain ⟨shaped, parts⟩ := Bool.and_eq_true_iff.mp h
    have hparts := fun part hp => ih (List.all_eq_true.mp parts part hp)
    exact .mk (of_decide_eq_true shaped) (fun part hp => hparts part (List.mem_append_left _ hp))
      fun part hp => hparts part (List.mem_append_right _ hp)

theorem throughout_of_holds {P : MessageType → Body Message → Prop} [∀ type body, Decidable (P type body)] (height : Nat)
    (h : holds table P height type m = true) : Throughout table P type m := by
  induction height generalizing type m with
  | zero => cases h
  | succ height ih =>
    obtain ⟨body⟩ := m
    obtain ⟨level, parts⟩ := Bool.and_eq_true_iff.mp h
    exact .mk (of_decide_eq_true level) fun part hp => ih (List.all_eq_true.mp parts part hp)

end Message

end Protobuf
