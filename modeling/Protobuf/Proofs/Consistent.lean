/-
  Protobuf.Proofs.Consistent — messages whose parts fit together, at every level.

  At one level (`Body.Consistent`) slots, choices and presence bits have the form of the type; a field whose
  presence bit is clear holds its default; the unknown bytes are whole fields that the type has no tags for;
  and as containers lie in memory, where each action on them is checked (`onCell_cellOf`, `onBuffer_layout`), a
  present message is there and lists are no longer than what they hold.

  A message is `Consistent` if all its levels are, those kept aside too: what is put aside is not reset before
  it is used again. Changes move sub-messages from place to place, so what a message stores after a change was
  stored before, is new, or was handed in. `Stocked` says that all of it is consistent, and each change and each
  accessor keeps it; that the outermost level stays in form is what peers share.
-/

import Protobuf.Proofs.Accessors
import Protobuf.Proofs.Containers
import Protobuf.Proofs.Unknown

namespace Protobuf

open Schema Container

/-! ## Whole fields -/

/-- Fields with groups so deep are fields with groups that may be deeper. -/
theorem Complete.mono {depth deeper : Nat} {fields : List (Tag × Bytes)} (h : Complete depth fields) (hle : depth ≤ deeper) :
    Complete deeper fields := by
  induction h generalizing deeper with
  | nil => exact .nil deeper
  | plain hs hp _ ih => exact .plain hs hp (ih hle)
  | group hs hw _ hstop he hn _ ihInner ihRest =>
    cases deeper with
    | zero => omega
    | succ deeper => exact .group hs hw (ihInner (by omega)) hstop he hn (ihRest hle)

theorem Tail.mono {depth deeper : Nat} {tag : Tag} {payload : Bytes} (h : Tail depth tag payload) (hle : depth ≤ deeper) :
    Tail deeper tag payload := by
  cases h with
  | plain hp => exact .plain hp
  | group hw hi hstop he hn =>
    cases deeper with
    | zero => omega
    | succ deeper => exact .group hw (hi.mono (by omega)) hstop he hn

/-- Whole fields, one behind the other, none with a tag of the type. -/
def Schema.MessageType.Foreign (type : MessageType) (bytes : Bytes) : Prop :=
  ∃ (depth : Nat) (fields : List (Tag × Bytes)), bytes = bytesOf fields ∧ Complete depth fields ∧
    ∀ field ∈ fields, ∀ entry ∈ type.dispatch, entry.tag ≠ field.1

theorem Schema.MessageType.Foreign.append {type : MessageType} {old : Bytes} (h : type.Foreign old) {depth : Nat} {tag : Tag}
    {head payload : Bytes} (hs : Tag.Spells head tag) (ht : Tail depth tag payload)
    (htag : ∀ entry ∈ type.dispatch, entry.tag ≠ tag) : type.Foreign (old ++ (head ++ payload)) := by
  obtain ⟨before, fields, hbytes, hcomplete, hforeign⟩ := h
  have hdeep := hcomplete.mono (Nat.le_max_left before depth)
  exact ⟨max before depth, Message.readRule_append ⟨fields, hbytes, hdeep, hforeign⟩ hs (ht.mono (Nat.le_max_right ..)) htag⟩

/-! ## One level -/

/-- One level of a message that a program can have. -/
structure Body.Consistent (type : MessageType) (body : Body Message) : Prop where
  shaped : body.Shaped type
  /-- A field whose presence bit is clear holds its declared default, or else zero, to the bit. -/
  unset : ∀ (index : Nat) (field : Field) (bit : Nat), type.fields[index]? = some field → field.presenceBit = some bit →
    body.presence.isSet bit = false → ∃ (plain : PlainType) (presence : Presence), field.strategy = .singular plain presence ∧
      body.slots[index]? = some (.scalar (field.initial plain))
  unknown : type.Foreign body.unknown
  /-- The flag of a message field is set only where there is a value in memory. -/
  present : ∀ value : Singular Message, .message value ∈ body.slots → (cellOf value).present = true →
    ∃ m, (cellOf value).value = some m
  /-- There are as many elements in memory as are in use. -/
  messages : ∀ values : Repeated Message, .messages values ∈ body.slots →
    (layout values).size ≤ (layout values).items.length
  texts : ∀ values : Repeated Scalar, .texts values ∈ body.slots → (layout values).size ≤ (layout values).items.length

namespace Body

variable {type : MessageType} {body : Body Message}

theorem Shaped.consistent (hs : body.Shaped type) (hset : body.Settled type) (hu : type.Foreign body.unknown) :
    body.Consistent type where
  shaped := hs
  unset := by
    intro index field bit hf hbit hclear
    obtain ⟨slot, hslot, _⟩ := hs.slot_of_field hf
    have hinitial := settled_iff.mp hset index field slot bit hf hslot hbit hclear
    unfold Slot.isInitial at hinitial
    split at hinitial
    · rename_i plain presence value hstrategy _
      cases eq_of_beq hinitial
      exact ⟨plain, presence, hstrategy, hslot⟩
    · cases hinitial
  unknown := hu
  present := fun _ _ hpresent => Option.isSome_iff_exists.mp (isSome_of_present hpresent)
  messages := fun values _ => size_layout_le values
  texts := fun values _ => size_layout_le values

theorem Consistent.settled (h : body.Consistent type) : body.Settled type := by
  refine settled_iff.mpr fun index field slot bit hf hs hbit hclear => ?_
  obtain ⟨plain, presence, hstrategy, hslot⟩ := h.unset index field bit hf hbit hclear
  cases hs.symm.trans hslot
  simp only [Slot.isInitial, hstrategy, beq_self_eq_true]

/-- Sub-messages have no part in it. -/
theorem Consistent.of_rel {R : Message → Message → Prop} {a b : Body Message} (h : b.Consistent type) (hab : a.Rel R b) :
    a.Consistent type :=
  (hab.shaped h.shaped).consistent (h.settled.of_rel hab) (hab.unknown ▸ h.unknown)

end Body

/-! ## All levels -/

section Definitions

variable (table : TypeTable)

/-- Consistent at every level, in use and aside. -/
inductive Message.Consistent : MessageType → Message → Prop
  | mk {type : MessageType} {body : Body Message} (level : body.Consistent type)
      (inUse : ∀ part ∈ body.inUse, Consistent (table.childAt type part.1) part.2)
      (aside : ∀ part ∈ body.aside, Consistent (table.childAt type part.1) part.2) : Consistent type (mk body)

/-- What a slot stores is consistent. -/
structure Slot.Stocked (child : MessageType) (slot : Slot Message) : Prop where
  inUse : ∀ x ∈ slot.inUse, Message.Consistent table child x
  aside : ∀ x ∈ slot.aside, Message.Consistent table child x

/-- What a choice stores is consistent. -/
structure Choice.Stocked (type : MessageType) (choice : Choice Message) : Prop where
  selected : ∀ index x, choice.selected = some ⟨index, .message x⟩ → Message.Consistent table (table.childAt type index) x
  spare : ∀ index x, choice.spare = some ⟨index, .message x⟩ → Message.Consistent table (table.childAt type index) x

/-- What the outermost level stores is consistent. -/
structure Message.Stocked (type : MessageType) (m : Message) : Prop where
  unknown : type.Foreign m.body.unknown
  inUse : ∀ part ∈ m.body.inUse, Consistent table (table.childAt type part.1) part.2
  aside : ∀ part ∈ m.body.aside, Consistent table (table.childAt type part.1) part.2

end Definitions

namespace Message

variable {table : TypeTable} {type child : MessageType} {m x : Message} {index slot : Nat} {field : Field}

namespace Consistent

theorem held (h : Consistent table type m) : Held table type m := by
  induction h with
  | mk level _ _ ihUse ihAside => exact .mk level.shaped ihUse ihAside

theorem settled (h : Consistent table type m) : Settled table type m := by
  induction h with
  | mk level _ _ ihUse _ => exact .mk level.settled ihUse

theorem peers (h : Consistent table type m) : m.Peers table type m := h.held.peers h.settled

theorem stocked (h : Consistent table type m) : m.Stocked table type := by
  cases h with
  | mk level inUse aside => exact ⟨level.unknown, inUse, aside⟩

end Consistent

theorem Stocked.consistent (h : m.Stocked table type) (hm : Held table type m) (hs : Settled table type m) :
    Consistent table type m := by
  cases hs with
  | mk settled _ => exact .mk (hm.shaped.consistent settled h.unknown) h.inUse h.aside

theorem consistent_new (table : TypeTable) (hw : type.WellFormed) : Consistent table type (new type) := by
  refine Stocked.consistent ⟨⟨0, [], rfl, .nil 0, nofun⟩, fun part hp => ?_, fun part hp => ?_⟩ (held_new table hw)
    (settled_new table hw)
  · exact absurd hp (parts_new Slot.inUse_new rfl part)
  · exact absurd hp (parts_new Slot.aside_new rfl part)

/-- A reset message keeps what it had, and its presence bits and unknown bytes are gone. -/
theorem Consistent.clear (h : Consistent table type m) (hw : type.WellFormed) : Consistent table type (m.clear type) := by
  have hpeers := h.peers.clear hw
  refine Stocked.consistent ⟨⟨0, [], rfl, .nil 0, nofun⟩, fun part hp => ?_, fun part hp => ?_⟩ hpeers.right hpeers.settled
  · exact absurd hp (inUse_clear hw h.held part)
  · exact (mem_of_aside_clear h.held hp).elim (h.stocked.inUse part) (h.stocked.aside part)

end Message

/-! ## Slots and choices -/

namespace Slot

variable {table : TypeTable} {child : MessageType} {s : Slot Message} {x : Message}

theorem stocked_present (h : x.Consistent table child) : (Slot.message (.present x)).Stocked table child := by
  refine ⟨fun y hy => ?_, nofun⟩
  cases List.mem_singleton.mp hy
  exact h

/-- Elements that were there or are known to be consistent, and a reserve of what was there. -/
theorem Stocked.elements {before after : Repeated Message} (h : (Slot.messages before).Stocked table child)
    (hactive : ∀ y ∈ after.active, y ∈ before.active ∨ y.Consistent table child)
    (hreserve : ∀ y ∈ after.reserve, y ∈ before.active ∨ y ∈ before.reserve) :
    (Slot.messages after).Stocked table child :=
  ⟨fun y hy => (hactive y hy).elim (h.inUse y) id, fun y hy => (hreserve y hy).elim (h.inUse y) (h.aside y)⟩

theorem Stocked.getOrInit {value : Singular Message} (h : (Slot.message value).Stocked table child) (hw : child.WellFormed) :
    (value.getOrInit (Message.clear child) (Message.new child)).Consistent table child := by
  cases value with
  | present x => exact h.inUse x (List.mem_singleton_self x)
  | absent kept =>
    cases kept with
    | none => exact Message.consistent_new table hw
    | some x => exact (h.aside x (List.mem_singleton_self x)).clear hw

theorem Stocked.spare {values : Repeated Message} (h : (Slot.messages values).Stocked table child) (hw : child.WellFormed) :
    (values.spare (Message.clear child) (Message.new child)).Consistent table child := by
  obtain ⟨active, reserve⟩ := values
  cases reserve with
  | nil => exact Message.consistent_new table hw
  | cons x rest => exact (h.aside x List.mem_cons_self).clear hw

theorem Stocked.pushed {values : Repeated Message} (h : (Slot.messages values).Stocked table child)
    (hx : x.Consistent table child) : (Slot.messages (values.push x)).Stocked table child := by
  refine h.elements (fun y hy => ?_) fun y hy => .inr (List.mem_of_mem_drop hy)
  rcases List.mem_append.mp hy with hy | hy
  · exact .inl hy
  · cases List.mem_singleton.mp hy
    exact .inr hx

theorem Stocked.setLast {values : Repeated Message} (h : (Slot.messages values).Stocked table child)
    (hx : x.Consistent table child) : (Slot.messages (values.setLast x)).Stocked table child := by
  refine h.elements (fun y hy => ?_) fun y hy => .inr hy
  rcases List.mem_append.mp (show y ∈ values.active.dropLast ++ [x] from hy) with hy | hy
  · exact .inl (List.dropLast_subset _ hy)
  · cases List.mem_singleton.mp hy
    exact .inr hx

theorem Stocked.push (h : s.Stocked table child) (hx : x.Consistent table child) : (s.push x).Stocked table child := by
  cases s with
  | messages values => exact h.pushed hx
  | _ => exact h

theorem Stocked.truncate (h : s.Stocked table child) (size : Nat) : (s.truncate size).Stocked table child := by
  cases s with
  | messages values =>
    refine h.elements (fun y hy => .inl (List.mem_of_mem_take hy)) fun y hy => ?_
    exact (List.mem_append.mp hy).imp_left List.mem_of_mem_drop
  | _ => exact ⟨h.inUse, h.aside⟩

theorem Stocked.arrange (h : s.Stocked table child) (order : List Nat) : (s.arrange order).Stocked table child := by
  cases s with
  | messages values => exact h.elements (fun y hy => .inl (mem_of_mem_arrange hy)) fun y hy => .inr hy
  | _ => exact ⟨h.inUse, h.aside⟩

theorem Stocked.replace (h : s.Stocked table child) (position : Nat) {value : Value Message}
    (hvalue : ∀ y, value = .message y → y.Consistent table child) : (s.replace position value).Stocked table child := by
  unfold Slot.replace
  split
  · exact ⟨nofun, nofun⟩
  · exact ⟨nofun, nofun⟩
  · refine h.elements (fun y hy => ?_) fun y hy => .inr hy
    rcases List.mem_or_eq_of_mem_set hy with hy | rfl
    · exact .inl hy
    · exact .inr (hvalue _ rfl)
  · exact h

theorem Stocked.take (h : s.Stocked table child) : s.take.2.Stocked table child := by
  cases s with
  | message value =>
    cases value with
    | present x => exact ⟨nofun, nofun⟩
    | absent kept => exact h
  | _ => exact h

theorem Stocked.insert {entries : List (Entry Message)} (h : (Slot.map entries).Stocked table child) {entry : Entry Message}
    (hvalue : ∀ y, entry.value = .message y → y.Consistent table child) :
    (Slot.map (Entry.insert entries entry)).Stocked table child := by
  refine ⟨fun y hmem => ?_, nofun⟩
  obtain ⟨other, ho, hy⟩ := List.mem_filterMap.mp hmem
  rcases Entry.mem_of_mem_insert ho with ho | rfl
  · exact h.inUse y (List.mem_filterMap.mpr ⟨other, ho, hy⟩)
  · obtain ⟨key, value⟩ := other
    cases value with
    | scalar v => cases hy
    | message z =>
      cases hy
      exact hvalue _ rfl

/-- A cleared field holds nothing, and keeps what it held. -/
theorem Stocked.clear (h : s.Stocked table child) (field : Field) : (s.clear field).Stocked table child := by
  refine ⟨fun y hy => ?_, fun y hy => (mem_of_aside_clear hy).elim (h.inUse y) (h.aside y)⟩
  have hnone : y ∉ (Slot.new field).inUse := by
    rw [inUse_new]
    exact List.not_mem_nil
  cases s with
  | message value =>
    have hy : y ∈ value.clear.get?.toList := hy
    rw [Singular.get?_clear] at hy
    cases hy
  | messages values =>
    have hy : y ∈ values.clear.active := hy
    rw [Repeated.active_clear] at hy
    cases hy
  | texts values => cases hy
  | scalar v => exact absurd hy hnone
  | scalars vs => exact absurd hy hnone
  | map entries => exact absurd hy hnone
  | member => exact absurd hy hnone

end Slot

namespace Choice

variable {table : TypeTable} {type : MessageType} {choice : Choice Message} {index : Nat}

theorem Stocked.stash (h : choice.Stocked table type) : choice.stash.Stocked table type := by
  refine ⟨fun i x hx => ?_, fun i x hx => (mem_of_spare_stash hx).elim (h.selected i x) (h.spare i x)⟩
  rw [selected_stash] at hx
  cases hx

theorem Stocked.reselect (h : choice.Stocked table type) {value : Value Message}
    (hvalue : ∀ y, value = .message y → y.Consistent table (table.childAt type index)) :
    Stocked table type { choice with selected := some ⟨index, value⟩ } := by
  refine ⟨fun i x hx => ?_, h.spare⟩
  cases hx
  exact hvalue x rfl

/-- The message of a member starts as the selected one, a reset one that was put aside, or a new one. -/
theorem Stocked.select (h : choice.Stocked table type) (hw : (table.childAt type index).WellFormed) :
    let start := choice.select (Message.clear (table.childAt type index)) (Message.new (table.childAt type index)) index
    start.1.Consistent table (table.childAt type index) ∧ start.2.Stocked table type := by
  intro start
  have hstart : start.1.Consistent table (table.childAt type index) := by
    rcases choice.select_cases (Message.clear _) (Message.new _) index with hc | ⟨_, hs | ⟨x, hx, hs⟩⟩
    · exact h.selected index _ (current_eq_some_iff.mp hc)
    · rw [hs]
      exact Message.consistent_new table hw
    · rw [hs]
      exact (h.spare index x hx).clear hw
  refine ⟨hstart, fun i x hx => ?_, fun i x hx => ?_⟩
  · cases selected_select.symm.trans hx
    exact hstart
  · exact (mem_of_spare_select hx).elim (h.selected i x) (h.spare i x)

end Choice

namespace Message

variable {table : TypeTable} {type child childType : MessageType} {m x : Message} {index slot : Nat} {field : Field}
  {place : Place}

/-! ## Changes -/

namespace Stocked

theorem slotAt (h : m.Stocked table type) (index : Nat) :
    (m.slotAt index).Stocked table (table.childAt type index) := by
  show Slot.Stocked _ _ (m.body.slots[index]?.getD .member)
  cases hs : m.body.slots[index]? with
  | none => exact ⟨nofun, nofun⟩
  | some s =>
    exact ⟨fun x hx => h.inUse (index, x) (Body.mem_parts_iff.mpr (.inl ⟨s, hs, hx⟩)),
      fun x hx => h.aside (index, x) (Body.mem_parts_iff.mpr (.inl ⟨s, hs, hx⟩))⟩

theorem choiceAt (h : m.Stocked table type) (slot : Nat) : (m.choiceAt slot).Stocked table type := by
  show Choice.Stocked _ _ (m.body.choices[slot]?.getD {})
  cases hc : m.body.choices[slot]? with
  | none => exact ⟨nofun, nofun⟩
  | some choice =>
    exact ⟨fun i x hx => h.inUse (i, x) (Body.mem_parts_iff.mpr (.inr ⟨slot, choice, hc, hx⟩)),
      fun i x hx => h.aside (i, x) (Body.mem_parts_iff.mpr (.inr ⟨slot, choice, hc, hx⟩))⟩

theorem setSlot (h : m.Stocked table type) {s : Slot Message} (hs : s.Stocked table (table.childAt type index)) :
    (m.setSlot index s).Stocked table type := by
  refine ⟨h.unknown, ?_, ?_⟩
  · rintro ⟨i, x⟩ hx
    rcases Body.mem_parts_setSlot hx with ⟨rfl, hslot⟩ | hbefore
    · exact hs.inUse x hslot
    · exact h.inUse (i, x) hbefore
  · rintro ⟨i, x⟩ hx
    rcases Body.mem_parts_setSlot hx with ⟨rfl, hslot⟩ | hbefore
    · exact hs.aside x hslot
    · exact h.aside (i, x) hbefore

theorem setChoice (h : m.Stocked table type) {choice : Choice Message} (hc : choice.Stocked table type) :
    (m.setChoice slot choice).Stocked table type := by
  refine ⟨h.unknown, ?_, ?_⟩
  · rintro ⟨i, x⟩ hx
    rcases Body.mem_parts_setChoice hx with hchoice | hbefore
    · exact hc.selected i x hchoice
    · exact h.inUse (i, x) hbefore
  · rintro ⟨i, x⟩ hx
    rcases Body.mem_parts_setChoice hx with hchoice | hbefore
    · exact hc.spare i x hchoice
    · exact h.aside (i, x) hbefore

theorem mark (h : m.Stocked table type) (field : Field) : (m.mark field).Stocked table type := by
  unfold Message.mark
  split
  · exact ⟨h.unknown, h.inUse, h.aside⟩
  · exact h

theorem unmark (h : m.Stocked table type) (field : Field) : (m.unmark field).Stocked table type := by
  unfold Message.unmark
  split
  · exact ⟨h.unknown, h.inUse, h.aside⟩
  · exact h

theorem setScalar (h : m.Stocked table type) (field : Field) (index : Nat) (value : Scalar) :
    (m.setScalar field index value).Stocked table type := by
  have hslot : (Slot.scalar value).Stocked table (table.childAt type index) := ⟨nofun, nofun⟩
  exact (h.setSlot hslot).mark field

theorem appendScalars (h : m.Stocked table type) (index : Nat) (values : List Scalar) :
    (m.appendScalars index values).Stocked table type := by
  unfold Message.appendScalars
  split
  · exact h.setSlot ⟨nofun, nofun⟩
  · exact h

theorem addText (h : m.Stocked table type) (index : Nat) (kind : Kind) : (m.addText index kind).Stocked table type := by
  unfold Message.addText
  split
  · exact h.setSlot ⟨nofun, nofun⟩
  · exact h

theorem setLastText (h : m.Stocked table type) (index : Nat) (value : Scalar) :
    (m.setLastText index value).Stocked table type := by
  unfold Message.setLastText
  split
  · exact h.setSlot ⟨nofun, nofun⟩
  · exact h

theorem insertEntry (h : m.Stocked table type) {entry : Entry Message}
    (hvalue : ∀ y, entry.value = .message y → Consistent table (table.childAt type index) y) :
    (m.insertEntry index entry).Stocked table type := by
  have hslot := h.slotAt index
  unfold Message.insertEntry
  split
  · rename_i entries hs
    rw [hs] at hslot
    exact h.setSlot (hslot.insert hvalue)
  · exact h

theorem setMember (h : m.Stocked table type) {value : Value Message}
    (hvalue : ∀ y, value = .message y → Consistent table (table.childAt type index) y) :
    (m.setMember slot index value).Stocked table type :=
  h.setChoice ((h.choiceAt slot).reselect hvalue)

end Stocked

/-- The value of an entry that was read as a message of its two fields; a missing one is new. -/
theorem Consistent.entryOf {key : ScalarType} {value : ValueType} {start : Option Scalar} (hw : child.WellFormed)
    (hchild : table.childAt (entryType key value start) 1 = child) (h : Consistent table (entryType key value start) m)
    {y : Message} (hy : (Protobuf.entryOf child m).value = .message y) : Consistent table child y := by
  have hslot := h.stocked.slotAt 1
  rw [hchild] at hslot
  unfold Protobuf.entryOf at hy
  dsimp only at hy
  split at hy
  · cases hy
  · rename_i value hs
    cases hy
    rw [hs] at hslot
    cases value with
    | absent kept => exact consistent_new table hw
    | present z => exact hslot.inUse z (List.mem_singleton_self z)
  · cases hy

namespace Stocked

theorem put (hg : table.Generated) (h : m.Stocked table type) (hp : place.Suits table type childType)
    (hx : Consistent table childType x) : (m.put table type place x).Stocked table type := by
  cases hp with
  | field hf hs => exact h.setSlot (Slot.stocked_present hx)
  | @element index f ref hf hs =>
    have hslot := h.slotAt index
    unfold Message.put
    dsimp only
    split
    · rename_i values hs
      rw [hs] at hslot
      exact h.setSlot (hslot.setLast hx)
    · exact h
  | member hf hs =>
    refine h.setMember fun y hy => ?_
    cases hy
    exact hx
  | @entry index f key value start hf htype =>
    exact h.insertEntry fun y hy => hx.entryOf (hg.childAt type index) (childAt_entryType hf htype) hy

/-! ## Accessors -/

theorem set (h : m.Stocked table type) (field : Field) {value : Value Message}
    (hvalue : ∀ y, value = .message y → Consistent table (table.childAt type index) y) :
    (m.set field index value).Stocked table type := by
  unfold Message.set
  split
  · exact h.setMember hvalue
  · exact h.setScalar ..
  · exact h.setSlot (Slot.stocked_present (hvalue _ rfl))
  · exact h

theorem extend (h : m.Stocked table type) (field : Field) (index : Nat) (more : Scalar) :
    (m.extend field index more).Stocked table type := by
  unfold Message.extend
  split
  · exact h.setScalar ..
  · exact h

theorem clearField (h : m.Stocked table type) (field : Field) (index : Nat) :
    (m.clearField field index).Stocked table type := by
  unfold Message.clearField
  split
  · split
    · exact h.setChoice (h.choiceAt _).stash
    · exact h
  · exact (h.setSlot ((h.slotAt index).clear field)).unmark field

theorem add (h : m.Stocked table type) (index : Nat) (value : Scalar) : (m.add index value).Stocked table type := by
  unfold Message.add
  split
  · exact (h.addText ..).setLastText ..
  · exact h.appendScalars ..

theorem pop (h : m.Stocked table type) (index : Nat) : (m.pop index).2.Stocked table type := by
  have hslot := h.slotAt index
  unfold Message.pop
  split
  · exact h.setSlot ⟨nofun, nofun⟩
  · exact h.setSlot ⟨nofun, nofun⟩
  · rename_i values hs
    rw [hs] at hslot
    exact h.setSlot (hslot.elements (fun y hy => .inl (List.dropLast_subset _ hy)) fun y hy => .inr hy)
  · exact h

theorem removeEntry (h : m.Stocked table type) (index : Nat) (key : Scalar) :
    (m.removeEntry index key).Stocked table type := by
  have hslot := h.slotAt index
  refine h.setSlot ⟨fun y hy => ?_, nofun⟩
  obtain ⟨entry, he, hy⟩ := List.mem_filterMap.mp hy
  have he := List.mem_of_mem_filter he
  unfold Message.entries at he
  split at he
  · rename_i entries hs
    rw [hs] at hslot
    exact hslot.inUse y (List.mem_filterMap.mpr ⟨entry, he, hy⟩)
  · cases he

theorem takeChoice (h : m.Stocked table type) (slot : Nat) : (m.takeChoice slot).Stocked table type :=
  h.setChoice ⟨nofun, (h.choiceAt slot).spare⟩

/-- Where a sub-message starts, and the message with it in place. -/
theorem start (h : m.Stocked table type) (hw : (table.childAt type index).WellFormed) (field : Field) :
    (m.start table type field index).1.Stocked table type ∧
      Consistent table (table.childAt type index) (m.start table type field index).2.2 := by
  have hslot := h.slotAt index
  unfold Message.start
  dsimp only
  split
  · rename_i slot _ _
    obtain ⟨hstart, hchoice⟩ := (h.choiceAt slot).select hw
    exact ⟨h.setChoice hchoice, hstart⟩
  · rename_i values hs
    rw [hs] at hslot
    exact ⟨h.setSlot (hslot.pushed (hslot.spare hw)), hslot.spare hw⟩
  · rename_i value hs
    rw [hs] at hslot
    exact ⟨h.setSlot (Slot.stocked_present (hslot.getOrInit hw)), hslot.getOrInit hw⟩
  · exact ⟨h, consistent_new table hw⟩

end Stocked

end Message

end Protobuf
