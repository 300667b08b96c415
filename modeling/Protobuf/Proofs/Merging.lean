/-
  Protobuf.Proofs.Merging — merging an encoded message lays it over the one it is read into.

  After the bytes of its first fields, those fields are what the overlay has there and the others are as
  before (`After`). Each field takes this one further (`After.step`), so after all of them and the unknown
  bytes the message is the overlay (`Laying.lays`), and for whole messages it follows by induction on
  their nesting: `lays_of_typed`.
-/

import Protobuf.Proofs.Laying

namespace Protobuf

open Schema

namespace Message

/-- A level to be laid over another, and where reading starts. -/
structure Laying (table : TypeTable) (type : MessageType) (room : Nat) (start old new : Body Message) : Prop where
  wellFormed : type.WellFormed
  child : ∀ index, (table.childAt type index).WellFormed
  held : Held table type (mk start)
  same : start.Rel Same old
  shaped : new.Shaped type
  sized : ∀ value ∈ new.values, value.Sized
  fits : ∀ n ∈ (new.sizes table type).lengths type, n < 0x100000000
  lays : ∀ part ∈ new.inUse, 0 < room ∧ Lays table (table.childAt type part.1) (room - 1) part.2

/-- The level selects one of the first fields for this oneof. -/
def Chosen (new : Body Message) (count slot : Nat) : Prop :=
  ∃ choice member, new.choices[slot]? = some choice ∧ choice.selected = some member ∧ member.field < count

/-- The first fields are laid over `old`, the others are as at the start. -/
structure After (table : TypeTable) (type : MessageType) (start old new : Body Message) (count : Nat) (m : Message) :
    Prop where
  done : ∀ index < count, Option.Rel (Slot.Rel Same) m.body.slots[index]?
    ((new.mapTyped table type (overlay table)).overlay table type old).slots[index]?
  rest : ∀ index, count ≤ index → m.body.slots[index]? = start.slots[index]?
  chosen : ∀ slot, Chosen new count slot → Option.Rel (Choice.Rel Same) m.body.choices[slot]?
    ((new.mapTyped table type (overlay table)).overlay table type old).choices[slot]?
  unchosen : ∀ slot, ¬ Chosen new count slot → m.body.choices[slot]? = start.choices[slot]?
  length_presence : m.body.presence.length = start.presence.length
  presence : ∀ bit, m.body.presence.isSet bit = true ↔ start.presence.isSet bit = true ∨
    new.presence.isSet bit = true ∧ ∃ index field, index < count ∧ type.fields[index]? = some field ∧
      field.presenceBit = some bit
  unknown : m.body.unknown = start.unknown

variable {table : TypeTable} {type : MessageType} {room count : Nat} {start old new : Body Message} {m : Message}
  {field : Field}

theorem after_zero : After table type start old new 0 (mk start) where
  done := fun _ h => absurd h (Nat.not_lt_zero _)
  rest := fun _ _ => rfl
  chosen := fun _ ⟨_, _, _, _, h⟩ => absurd h (Nat.not_lt_zero _)
  unchosen := fun _ _ => rfl
  length_presence := rfl
  presence := fun _ => ⟨.inl, fun h => h.elim id fun ⟨_, _, _, h, _⟩ => absurd h (Nat.not_lt_zero _)⟩
  unknown := rfl

/-- The level selects the field at this position for this oneof. -/
def Selects (new : Body Message) (index slot : Nat) : Prop :=
  ∃ choice value, new.choices[slot]? = some choice ∧ choice.selected = some ⟨index, value⟩

theorem chosen_succ {slot : Nat} : Chosen new (count + 1) slot ↔ Chosen new count slot ∨ Selects new count slot := by
  constructor
  · rintro ⟨choice, ⟨index, value⟩, hc, hm, hlt⟩
    rcases Nat.lt_succ_iff_lt_or_eq.mp hlt with h | rfl
    · exact .inl ⟨choice, _, hc, hm, h⟩
    · exact .inr ⟨choice, value, hc, hm⟩
  · rintro (⟨choice, member, hc, hm, hlt⟩ | ⟨choice, value, hc, hm⟩)
    · exact ⟨choice, member, hc, hm, Nat.lt_succ_of_lt hlt⟩
    · exact ⟨choice, _, hc, hm, Nat.lt_succ_self count⟩

theorem slots_overlay (table : TypeTable) (laid : Body (Message → Message)) {index : Nat}
    {newSlot : Slot (Message → Message)} {oldSlot : Slot Message} (hf : type.fields[index]? = some field)
    (hn : laid.slots[index]? = some newSlot) (ho : old.slots[index]? = some oldSlot) :
    (laid.overlay table type old).slots[index]? =
      some (newSlot.overlay (.new (table.childAt type index)) (field.isWritten laid.presence) oldSlot) := by
  have hz : (type.fields.zip (laid.slots.zip old.slots))[index]? = some (field, newSlot, oldSlot) :=
    List.getElem?_zip_eq_some.mpr ⟨hf, List.getElem?_zip_eq_some.mpr ⟨hn, ho⟩⟩
  rw [Body.overlay, List.getElem?_mapIdx, hz]
  rfl

theorem slots_overlay_none (table : TypeTable) (laid : Body (Message → Message)) (old : Body Message) {index : Nat}
    (hf : type.fields[index]? = none) : (laid.overlay table type old).slots[index]? = none := by
  rw [List.getElem?_eq_none_iff, Body.overlay, List.length_mapIdx, List.length_zip]
  exact Nat.le_trans (Nat.min_le_left ..) (List.getElem?_eq_none_iff.mp hf)

theorem choices_overlay (table : TypeTable) (type : MessageType) (laid : Body (Message → Message)) {slot : Nat}
    {newChoice : Choice (Message → Message)} {oldChoice : Choice Message} (hn : laid.choices[slot]? = some newChoice)
    (ho : old.choices[slot]? = some oldChoice) :
    (laid.overlay table type old).choices[slot]? =
      some (newChoice.overlay (fun index => .new (table.childAt type index)) oldChoice) := by
  rw [Body.overlay, List.getElem?_zipWith, hn, ho]

/-! ## One more field -/

/-- The next field has been laid over the old one, and nothing else has changed. -/
theorem After.succ (h : After table type start old new count m) (hf : type.fields[count]? = some field) {m' : Message}
    (hdone : Option.Rel (Slot.Rel Same) m'.body.slots[count]?
      ((new.mapTyped table type (overlay table)).overlay table type old).slots[count]?)
    (hslots : ∀ index, index ≠ count → m'.body.slots[index]? = m.body.slots[index]?)
    (hchosen : ∀ slot, Selects new count slot → Option.Rel (Choice.Rel Same) m'.body.choices[slot]?
      ((new.mapTyped table type (overlay table)).overlay table type old).choices[slot]?)
    (hchoices : ∀ slot, ¬ Selects new count slot → m'.body.choices[slot]? = m.body.choices[slot]?)
    (hlen : m'.body.presence.length = m.body.presence.length)
    (hpresence : ∀ bit, m'.body.presence.isSet bit =
      (m.body.presence.isSet bit || (field.presenceBit == some bit && new.presence.isSet bit)))
    (hunknown : m'.body.unknown = m.body.unknown) : After table type start old new (count + 1) m' where
  done := by
    intro index hi
    rcases Nat.lt_succ_iff_lt_or_eq.mp hi with hi | rfl
    · rw [hslots index (Nat.ne_of_lt hi)]
      exact h.done index hi
    · exact hdone
  rest := by
    intro index hi
    rw [hslots index (Nat.ne_of_gt hi)]
    exact h.rest index (Nat.le_of_succ_le hi)
  chosen := by
    intro slot hc
    by_cases hs : Selects new count slot
    · exact hchosen slot hs
    · rw [hchoices slot hs]
      exact h.chosen slot ((chosen_succ.mp hc).resolve_right hs)
  unchosen := by
    intro slot hc
    rw [hchoices slot fun hs => hc (chosen_succ.mpr (.inr hs))]
    exact h.unchosen slot fun hbefore => hc (chosen_succ.mpr (.inl hbefore))
  length_presence := hlen.trans h.length_presence
  presence := by
    intro bit
    rw [hpresence, Bool.or_eq_true, h.presence, Bool.and_eq_true, beq_iff_eq]
    constructor
    · rintro ((hs | ⟨hb, index, f, hi, hfi, hbit⟩) | ⟨hbit, hb⟩)
      · exact .inl hs
      · exact .inr ⟨hb, index, f, Nat.lt_succ_of_lt hi, hfi, hbit⟩
      · exact .inr ⟨hb, count, field, Nat.lt_succ_self count, hf, hbit⟩
    · rintro (hs | ⟨hb, index, f, hi, hfi, hbit⟩)
      · exact .inl (.inl hs)
      · rcases Nat.lt_succ_iff_lt_or_eq.mp hi with hi | rfl
        · exact .inl (.inr ⟨hb, index, f, hi, hfi, hbit⟩)
        · rw [hf] at hfi
          cases hfi
          exact .inr ⟨hbit, hb⟩
  unknown := hunknown.trans h.unknown

/-- What is selected is a member, and of the oneof that selects it. -/
theorem Selects.strategy {index slot : Nat} (h : Selects new index slot) (hshaped : new.Shaped type)
    (hf : type.fields[index]? = some field) : ∃ value, field.strategy = .member slot value := by
  obtain ⟨choice, value, hc, hm⟩ := h
  obtain ⟨f, valueType, hf', hs, _⟩ := hshaped.strategy_of_member hc hm
  rw [hf] at hf'
  cases hf'
  exact ⟨valueType, hs⟩

theorem After.sets (h : After table type start old new count m) (hshaped : new.Shaped type)
    (hf : type.fields[count]? = some field) (hmember : ∀ slot value, field.strategy ≠ .member slot value)
    (hlt : count < m.body.slots.length) {slot : Slot Message} {m' : Message}
    (hsets : Sets field count new.presence slot m m')
    (hrel : Option.Rel (Slot.Rel Same) (some slot)
      ((new.mapTyped table type (overlay table)).overlay table type old).slots[count]?) :
    After table type start old new (count + 1) m' := by
  have hnone : ∀ slot, ¬ Selects new count slot := by
    intro slot hs
    obtain ⟨value, hstrategy⟩ := hs.strategy hshaped hf
    exact hmember slot value hstrategy
  refine h.succ hf ?_ (fun index hi => ?_) (fun slot hs => absurd hs (hnone slot)) (fun slot _ => ?_)
    hsets.length_presence hsets.isSet hsets.unknown
  · rwa [hsets.slots, List.getElem?_set_self hlt]
  · rw [hsets.slots, List.getElem?_set_ne (Ne.symm hi)]
  · rw [hsets.choices]

namespace Laying

variable (l : Laying table type room start old new)

include l

theorem slot_lengths {index : Nat} {slot : Slot Message} (hf : type.fields[index]? = some field)
    (hs : new.slots[index]? = some slot) {n : Nat}
    (hn : n ∈ (slot.mapParts (fun x => (x.wire table (table.childAt type index)).length) fun x =>
      (x.wire table (table.childAt type index)).length).lengths field) : n < 0x100000000 := by
  refine l.fits n (List.mem_append_left _ (List.mem_flatMap.mpr ⟨(field, _), List.mem_of_getElem? (i := index) ?_, hn⟩))
  refine List.getElem?_zip_eq_some.mpr ⟨hf, ?_⟩
  rw [Body.sizes, Body.slots_mapTyped, hs]
  rfl

theorem part_lays {index : Nat} {x : Message} (hx : (index, x) ∈ new.inUse) :
    0 < room ∧ (x.wire table (table.childAt type index)).length < 0x100000000 ∧
      Lays table (table.childAt type index) (room - 1) x := by
  obtain ⟨hroom, hlays⟩ := l.lays (index, x) hx
  have hsize : (index, (x.wire table (table.childAt type index)).length) ∈ (new.sizes table type).inUse :=
    (Body.inUse_mapTyped table type _ new).mpr ⟨x, hx, rfl⟩
  exact ⟨hroom, l.fits _ ((l.shaped.mapTyped table _).mem_lengths hsize), hlays⟩

/-- A field that is not a member. -/
theorem step_slot (h : After table type start old new count m) (hf : type.fields[count]? = some field)
    (hmember : ∀ slot value, field.strategy ≠ .member slot value) {slot : Slot Message}
    (hs : new.slots[count]? = some slot) (member : Option (Value Bytes)) :
    ∃ m', After table type start old new (count + 1) m' ∧ Absorbs table type room
      ((slot.mapParts (Message.wire table (table.childAt type count)) (Message.wire table (table.childAt type count))).wire
        field new.presence member) m m' := by
  obtain ⟨before, hbefore, hform⟩ := l.held.shaped.slot_of_field hf
  obtain ⟨oldSlot, hold, hrel⟩ := exists_of_rel (l.same.slots count) hbefore
  have hm : m.body.slots[count]? = some before := (h.rest count (Nat.le_refl _)).trans hbefore
  have hlen : m.body.presence.length = type.presenceWords := h.length_presence.trans l.held.shaped.length_presence
  have htarget := slots_overlay table (new.mapTyped table type (overlay table)) hf
    (by rw [Body.slots_mapTyped, hs]; rfl) hold
  cases l.held with
  | mk _ inUse aside =>
    obtain ⟨slot', m', hsets, hlaid, habsorbs⟩ := absorbs_slot l.wellFormed (l.child count) hf hmember hlen hm hform
      (fun x hx => inUse (count, x) (Body.mem_parts_iff.mpr (.inl ⟨before, hbefore, hx⟩)))
      (fun x hx => aside (count, x) (Body.mem_parts_iff.mpr (.inl ⟨before, hbefore, hx⟩))) hrel
      (l.shaped.form hf hs)
      (fun v hv => l.sized v (List.mem_append_left _ (List.mem_flatMap.mpr ⟨slot, List.mem_of_getElem? hs, hv⟩)))
      (fun n hn => l.slot_lengths hf hs hn)
      (fun x hx => l.lays (count, x) (Body.mem_parts_iff.mpr (.inl ⟨slot, hs, hx⟩))) new.presence member
    refine ⟨m', h.sets l.shaped hf hmember (List.getElem?_eq_some_iff.mp hm).1 hsets ?_, habsorbs⟩
    rw [htarget]
    exact .some hlaid

/-- The bit of a member is no bit of the presence words. -/
theorem not_marked (hf : type.fields[count]? = some field) {oneof : Nat} {valueType : ValueType}
    (hstrategy : field.strategy = .member oneof valueType) (bit : Nat) (b : Bool) :
    b = (b || (field.presenceBit == some bit && new.presence.isSet bit)) := by
  have hbit : field.presenceBit = none := by
    refine presenceBit_eq_none l.wellFormed hf ?_
    rw [hstrategy]
    exact nofun
  rw [hbit]
  exact (Bool.or_false b).symm

/-- The slot of a member says nothing. -/
theorem rel_member (h : After table type start old new count m) (hf : type.fields[count]? = some field) {oneof : Nat}
    {valueType : ValueType} (hstrategy : field.strategy = .member oneof valueType) :
    Option.Rel (Slot.Rel Same) m.body.slots[count]?
      ((new.mapTyped table type (overlay table)).overlay table type old).slots[count]? := by
  obtain ⟨before, hbefore, hform⟩ := l.held.shaped.slot_of_field hf
  obtain ⟨oldSlot, hold, hrel⟩ := exists_of_rel (l.same.slots count) hbefore
  obtain ⟨slot, hs, hform'⟩ := l.shaped.slot_of_field hf
  rw [hstrategy] at hform hform'
  cases hform
  cases hform'
  cases hrel
  have hlaid : (new.mapTyped table type (overlay table)).slots[count]? = some .member := by
    rw [Body.slots_mapTyped, hs]
    rfl
  rw [h.rest count (Nat.le_refl _), hbefore, slots_overlay table _ hf hlaid hold]
  exact .some .member

/-- A member that is not selected. -/
theorem step_unselected (h : After table type start old new count m) (hf : type.fields[count]? = some field)
    {oneof : Nat} {valueType : ValueType} (hstrategy : field.strategy = .member oneof valueType)
    (hat : new.memberAt field count = none) : After table type start old new (count + 1) m := by
  have hnone : ∀ slot, ¬ Selects new count slot := by
    intro slot hsel
    obtain ⟨value, hs⟩ := hsel.strategy l.shaped hf
    obtain ⟨choice, v, hc, hm⟩ := hsel
    rw [(Body.memberAt_eq_some_iff hs).mpr ⟨choice, hc, hm⟩] at hat
    cases hat
  exact h.succ hf (l.rel_member h hf hstrategy) (fun _ _ => rfl) (fun slot hsel => absurd hsel (hnone slot))
    (fun _ _ => rfl) rfl (fun bit => l.not_marked hf hstrategy bit _) rfl

/-- The selected member. -/
theorem step_selected (h : After table type start old new count m) (hf : type.fields[count]? = some field)
    {oneof : Nat} {valueType : ValueType} (hstrategy : field.strategy = .member oneof valueType)
    {value : Value Message} (hat : new.memberAt field count = some value) :
    ∃ m', After table type start old new (count + 1) m' ∧ Absorbs table type room
      (field.tagBytes ++ (value.map (Message.wire table (table.childAt type count))).wire) m m' := by
  obtain ⟨choice, hc, hsel⟩ := (Body.memberAt_eq_some_iff hstrategy).mp hat
  have hunchosen : ¬ Chosen new count oneof := by
    rintro ⟨choice', member, hc', hm, hlt⟩
    rw [hc] at hc'
    cases hc'
    rw [hsel] at hm
    cases hm
    exact Nat.lt_irrefl _ hlt
  obtain ⟨before, hbefore⟩ : ∃ before, start.choices[oneof]? = some before := by
    have hlt : oneof < start.choices.length := by
      rw [l.held.shaped.length_choices, ← l.shaped.length_choices]
      exact (List.getElem?_eq_some_iff.mp hc).1
    exact ⟨_, List.getElem?_eq_getElem hlt⟩
  obtain ⟨oldChoice, hold, hrel⟩ := exists_of_rel (l.same.choices oneof) hbefore
  have hm : m.body.choices[oneof]? = some before := (h.unchosen oneof hunchosen).trans hbefore
  have hsuits : value.suits valueType = true := by
    obtain ⟨f, type', hf', hs, hsuits⟩ := l.shaped.strategy_of_member hc hsel
    rw [hf] at hf'
    cases hf'
    rw [hstrategy] at hs
    cases hs
    exact hsuits
  obtain ⟨laid, hlaid, hselected⟩ : ∃ laid, (new.mapTyped table type (overlay table)).choices[oneof]? = some laid ∧
      laid.selected = some ⟨count, value.map (Message.overlay table (table.childAt type count))⟩ := by
    refine ⟨_, by rw [Body.mapTyped, List.getElem?_map, hc]; rfl, ?_⟩
    show choice.selected.map _ = _
    rw [hsel]
    rfl
  cases l.held with
  | mk _ inUse aside =>
    obtain ⟨out, hout, habsorbs⟩ := absorbs_member l.wellFormed (l.child count) hf hstrategy hm
      (fun x hx => inUse (count, x) (Body.mem_parts_iff.mpr (.inr ⟨oneof, before, hbefore, hx⟩)))
      (fun x hx => aside (count, x) (Body.mem_parts_iff.mpr (.inr ⟨oneof, before, hbefore, hx⟩))) hrel hsuits
      (fun v hv => l.sized v (Body.mem_values_of_memberAt (hv ▸ hat)))
      (fun x hx => l.part_lays (Body.mem_inUse_of_memberAt (hx ▸ hat))) hselected
    have hslot := l.rel_member h hf hstrategy
    refine ⟨m.setChoice oneof out, h.succ hf hslot (fun _ _ => rfl) ?_ ?_ rfl
      (fun bit => l.not_marked hf hstrategy bit _) rfl, habsorbs⟩
    · intro slot hs
      obtain ⟨_, hs⟩ := hs.strategy l.shaped hf
      rw [hstrategy] at hs
      cases hs
      show Option.Rel _ (m.body.choices.set oneof out)[oneof]? _
      rw [List.getElem?_set_self (List.getElem?_eq_some_iff.mp hm).1, choices_overlay table type _ hlaid hold]
      exact .some hout
    · intro slot hs
      refine List.getElem?_set_ne fun he => hs ?_
      exact he ▸ ⟨choice, value, hc, hsel⟩

/-- The next field, whatever its strategy. -/
theorem step (h : After table type start old new count m) (hf : type.fields[count]? = some field) :
    ∃ bytes m', ((new.mapTyped table type (Message.wire table)).segments type)[count]? = some bytes ∧
      After table type start old new (count + 1) m' ∧ Absorbs table type room bytes m m' := by
  obtain ⟨slot, hs, hform⟩ := l.shaped.slot_of_field hf
  have hwire : (new.mapTyped table type (Message.wire table)).slots[count]? = some (slot.mapParts
      (Message.wire table (table.childAt type count)) (Message.wire table (table.childAt type count))) := by
    rw [Body.slots_mapTyped, hs]
    rfl
  have hbytes := Body.getElem?_segments hf hwire
  by_cases hmember : ∃ oneof valueType, field.strategy = .member oneof valueType
  · obtain ⟨oneof, valueType, hstrategy⟩ := hmember
    rw [hstrategy] at hform
    cases hform
    rw [Body.memberAt_mapTyped] at hbytes
    cases hat : new.memberAt field count with
    | none =>
      rw [hat] at hbytes
      exact ⟨_, m, hbytes, l.step_unselected h hf hstrategy hat, absorbs_nil m⟩
    | some value =>
      obtain ⟨m', hafter, habsorbs⟩ := l.step_selected h hf hstrategy hat
      rw [hat] at hbytes
      refine ⟨_, m', hbytes, hafter, ?_⟩
      show Absorbs table type room (_ ++ []) m m'
      rwa [List.append_nil]
  · have hslot := fun oneof valueType hstrategy => hmember ⟨oneof, valueType, hstrategy⟩
    obtain ⟨m', hafter, habsorbs⟩ := l.step_slot h hf hslot hs _
    exact ⟨_, m', hbytes, hafter, habsorbs⟩

/-- The first fields, one after the other. -/
theorem fields (hcount : count ≤ type.fields.length) :
    ∃ m', After table type start old new count m' ∧ Absorbs table type room
      (((new.mapTyped table type (Message.wire table)).segments type).take count).flatten (Message.mk start) m' := by
  induction count with
  | zero => exact ⟨Message.mk start, after_zero, absorbs_nil _⟩
  | succ count ih =>
    obtain ⟨m, hafter, habsorbs⟩ := ih (Nat.le_of_succ_le hcount)
    obtain ⟨bytes, m', hbytes, hafter', hone⟩ := l.step hafter (List.getElem?_eq_getElem hcount)
    refine ⟨m', hafter', ?_⟩
    rw [List.take_add_one, hbytes, List.flatten_append]
    refine habsorbs.trans ?_
    show Absorbs table type room (bytes ++ []) m m'
    rwa [List.append_nil]

end Laying

/-! ## Unknown fields -/

theorem step_unknown {tag : Tag} (h : ∀ entry ∈ type.dispatch, entry.tag ≠ tag) :
    m.step table type tag = m.readUnknown type tag := by
  have hnone : (type.dispatch.find? fun entry => entry.tag == tag) = none := by
    rw [List.find?_eq_none]
    intro entry he
    rw [beq_false_of_ne (h entry he)]
    exact Bool.false_ne_true
  funext r
  rw [step, hnone]

def addUnknown (m : Message) (bytes : Bytes) : Message :=
  m.update fun body => { body with unknown := body.unknown ++ bytes }

theorem addUnknown_nil (m : Message) : m.addUnknown [] = m := by
  obtain ⟨body⟩ := m
  show mk { body with unknown := body.unknown ++ [] } = mk body
  rw [List.append_nil]

theorem addUnknown_append (m : Message) (front back : Bytes) :
    m.addUnknown (front ++ back) = (m.addUnknown front).addUnknown back := by
  obtain ⟨body⟩ := m
  show mk { body with unknown := body.unknown ++ (front ++ back) } = _
  rw [← List.append_assoc]
  rfl

theorem absorbs_unknown {fields : List (Tag × Bytes)} (hcomplete : Complete room fields)
    (hforeign : ∀ unknown ∈ fields, ∀ entry ∈ type.dispatch, entry.tag ≠ unknown.1) (hkeeps : type.keepsUnknown = true)
    (m : Message) : Absorbs table type room (bytesOf fields) m (m.addUnknown (bytesOf fields)) := by
  induction fields generalizing m with
  | nil =>
    show Absorbs table type room [] m (m.addUnknown [])
    rw [addUnknown_nil]
    exact absorbs_nil m
  | cons unknown fields ih =>
    obtain ⟨tag, bytes⟩ := unknown
    obtain ⟨⟨head, payload, rfl, hs, ht⟩, hrest⟩ := complete_cons_inv hcomplete
    have hnext : Step.Nexts (m.step table type tag) head room payload (m.addUnknown (head ++ payload)) := by
      have hread := nexts_unknown type ht m head
      rwa [if_pos hkeeps, ← step_unknown (hforeign _ (List.mem_cons_self ..))] at hread
    rw [bytesOf_cons, addUnknown_append]
    exact (absorbs_next hs hnext).trans
      (ih hrest (fun unknown hu => hforeign unknown (List.mem_cons_of_mem _ hu)) _)

/-! ## All of a level -/

namespace Laying

variable (l : Laying table type room start old new)

include l

theorem presence_eq (h : After table type start old new type.fields.length m) :
    m.body.presence = .union old.presence new.presence := by
  have hstart := l.held.shaped.length_presence
  have hlen : old.presence.length = new.presence.length := by
    rw [← l.same.presence, hstart, l.shaped.length_presence]
  refine PresenceBits.ext_isSet ?_ fun bit => Bool.eq_iff_iff.mpr ?_
  · rw [h.length_presence, PresenceBits.union, List.length_zipWith, ← l.same.presence, hstart, l.shaped.length_presence,
      Nat.min_self]
  · rw [h.presence, PresenceBits.isSet_union hlen, Bool.or_eq_true, l.same.presence]
    refine or_congr Iff.rfl ⟨And.left, fun hset => ⟨hset, ?_⟩⟩
    -- a bit that is set belongs to a field
    have hlt : bit < 32 * new.presence.length := by
      by_contra hge
      rw [PresenceBits.isSet_of_length_le (by omega)] at hset
      cases hset
    obtain ⟨field, hmem, hbit⟩ := l.shaped.presence bit hlt hset
    obtain ⟨index, hf⟩ := List.getElem?_of_mem hmem
    exact ⟨index, field, (List.getElem?_eq_some_iff.mp hf).1, hf, hbit⟩

theorem choices_rel (h : After table type start old new type.fields.length m) (slot : Nat) :
    Option.Rel (Choice.Rel Same) m.body.choices[slot]?
      ((new.mapTyped table type (overlay table)).overlay table type old).choices[slot]? := by
  by_cases hchosen : Chosen new type.fields.length slot
  · exact h.chosen slot hchosen
  · rw [h.unchosen slot hchosen]
    have hlen : new.choices.length = start.choices.length := by
      rw [l.shaped.length_choices, l.held.shaped.length_choices]
    cases hstart : start.choices[slot]? with
    | none =>
      have hnone : (new.mapTyped table type (overlay table)).choices[slot]? = none := by
        rw [Body.mapTyped, List.getElem?_map, List.getElem?_eq_none_iff.mpr]
        · rfl
        · rw [hlen]
          exact List.getElem?_eq_none_iff.mp hstart
      rw [Body.overlay, List.getElem?_zipWith, hnone]
      exact .none
    | some before =>
      obtain ⟨oldChoice, hold, hrel⟩ := exists_of_rel (l.same.choices slot) hstart
      obtain ⟨choice, hc⟩ : ∃ choice, new.choices[slot]? = some choice :=
        ⟨_, List.getElem?_eq_getElem (hlen ▸ (List.getElem?_eq_some_iff.mp hstart).1)⟩
      have hselected : choice.selected = none := by
        cases hsel : choice.selected with
        | none => rfl
        | some member =>
          obtain ⟨_, _, hf, _, _⟩ := l.shaped.strategy_of_member hc hsel
          exact absurd ⟨choice, member, hc, hsel, (List.getElem?_eq_some_iff.mp hf).1⟩ hchosen
      obtain ⟨laid, hlaid, hnone⟩ : ∃ laid, (new.mapTyped table type (overlay table)).choices[slot]? = some laid ∧
          laid.selected = none := by
        refine ⟨_, by rw [Body.mapTyped, List.getElem?_map, hc]; rfl, ?_⟩
        show choice.selected.map _ = none
        rw [hselected]
        rfl
      rw [choices_overlay table type _ hlaid hold, Choice.overlay, hnone]
      exact .some hrel

theorem rel_overlay (h : After table type start old new type.fields.length m) :
    (m.addUnknown new.unknown).body.Rel Same ((new.mapTyped table type (overlay table)).overlay table type old) where
  slots := by
    intro index
    show Option.Rel _ m.body.slots[index]? _
    by_cases hlt : index < type.fields.length
    · exact h.done index hlt
    · have hle : type.fields.length ≤ index := Nat.le_of_not_lt hlt
      have hstart : start.slots[index]? = none := List.getElem?_eq_none_iff.mpr (l.held.shaped.length_slots ▸ hle)
      rw [h.rest index hle, hstart, slots_overlay_none table _ _ (List.getElem?_eq_none_iff.mpr hle)]
      exact .none
  choices := show ∀ slot : Nat, Option.Rel _ m.body.choices[slot]? _ from l.choices_rel h
  presence := show m.body.presence = _ from l.presence_eq h
  unknown := by
    show m.body.unknown ++ new.unknown = old.unknown ++ new.unknown
    rw [h.unknown, l.same.unknown]

/-- The bytes of a level whose sub-messages are laid over others lay it over another. -/
theorem absorbs {fields : List (Tag × Bytes)} (hunknown : new.unknown = bytesOf fields)
    (hcomplete : Complete room fields)
    (hforeign : ∀ unknown ∈ fields, ∀ entry ∈ type.dispatch, entry.tag ≠ unknown.1) :
    ∃ out, Absorbs table type room ((Message.mk new).wire table type) (Message.mk start) out ∧
      out.Same ((Message.mk new).overlay table type (Message.mk old)) := by
  obtain ⟨m, hafter, habsorbs⟩ := l.fields (Nat.le_refl _)
  have hsegments : ((new.mapTyped table type (Message.wire table)).segments type).length ≤ type.fields.length := by
    rw [Body.segments, List.length_mapIdx, List.length_zip]
    exact Nat.min_le_left ..
  rw [List.take_of_length_le hsegments] at habsorbs
  have hlast : Absorbs table type room new.unknown m (m.addUnknown new.unknown) := by
    cases hkeeps : type.keepsUnknown with
    | true =>
      rw [hunknown]
      exact absorbs_unknown hcomplete hforeign hkeeps m
    | false =>
      rw [l.shaped.unknown hkeeps, addUnknown_nil]
      exact absorbs_nil m
  refine ⟨m.addUnknown new.unknown, ?_, ?_⟩
  · rw [wire_mk]
    exact habsorbs.trans hlast
  · rw [overlay_mk]
    exact same_mk_iff.mpr (l.rel_overlay hafter)

end Laying

/-! ## All levels -/

variable (table) in
/-- At every depth the unknown bytes are whole fields whose tags the type does not have, and sub-messages and
    groups in unknown bytes nest at most so deep. -/
inductive Nests : Nat → MessageType → Message → Prop
  | mk {room : Nat} {type : MessageType} {body : Body Message} {fields : List (Tag × Bytes)}
      (unknown : body.unknown = bytesOf fields) (complete : Complete room fields)
      (foreign : ∀ unknown ∈ fields, ∀ entry ∈ type.dispatch, entry.tag ≠ unknown.1)
      (room_pos : ∀ part ∈ body.inUse, 0 < room)
      (parts : ∀ part ∈ body.inUse, Nests (room - 1) (table.childAt type part.1) part.2) : Nests room type (mk body)

/-- Without unknown bytes only sub-messages nest. -/
theorem nests_of_holds (height : Nat) (h : holds table (fun _ body => body.unknown = []) height type m = true)
    (hle : height ≤ room + 1) : Nests table room type m := by
  induction height generalizing type m room with
  | zero => cases h
  | succ height ih =>
    obtain ⟨body⟩ := m
    obtain ⟨level, parts⟩ := Bool.and_eq_true_iff.mp h
    have hpart : ∀ part ∈ body.inUse, 0 < room := by
      intro part hp
      cases height with
      | zero => cases List.all_eq_true.mp parts part hp
      | succ height => omega
    have hnil : body.unknown = bytesOf [] := of_decide_eq_true level
    refine .mk hnil (.nil room) nofun hpart fun part hp => ?_
    exact ih (List.all_eq_true.mp parts part hp) (by have := hpart part hp; omega)

theorem nests_of_unknown {fields : List (Tag × Bytes)} (height : Nat) (hunknown : m.body.unknown = bytesOf fields)
    (hcomplete : Complete room fields)
    (hforeign : ∀ unknown ∈ fields, ∀ entry ∈ type.dispatch, entry.tag ≠ unknown.1)
    (hparts : (m.body.inUse.all fun part =>
      holds table (fun _ body => body.unknown = []) height (table.childAt type part.1) part.2) = true)
    (hle : height ≤ room) : Nests table room type m := by
  obtain ⟨body⟩ := m
  have hpart := List.all_eq_true.mp hparts
  refine .mk hunknown hcomplete hforeign (fun part hp => ?_) fun part hp => nests_of_holds height (hpart part hp) (by omega)
  cases height with
  | zero => cases hpart part hp
  | succ height => omega

/-- The bytes of a message, merged into any other, lay it over that one. -/
theorem lays_of_typed (hchild : ∀ type index, (table.childAt type index).WellFormed) (hw : type.WellFormed)
    (ht : Typed table type m) (hf : Fits table type m) (hn : Nests table room type m) : Lays table type room m := by
  induction ht generalizing room with
  | @mk type new level _ ih =>
    cases hf with
    | mk fits fitParts =>
      cases hn with
      | mk unknown complete foreign room_pos parts =>
        rintro ⟨start⟩ ⟨old⟩ hheld hsame
        have l : Laying table type room start old new := {
          wellFormed := hw
          child := hchild type
          held := hheld
          same := same_mk_iff.mp hsame
          shaped := level.1
          sized := level.2
          fits := fits
          lays := fun part hp => ⟨room_pos part hp, ih part hp (hchild ..) (fitParts part hp) (parts part hp)⟩ }
        exact l.absorbs unknown complete foreign

theorem mergeBytes_of_lays (h : Lays table type 100 m) (ht : Typed table type m) (hf : Fits table type m)
    {before : Message} (hheld : Held table type before) :
    ∃ out, mergeBytes table type before (m.encode table type) = (out, none) ∧ out.Same (m.overlay table type before) := by
  obtain ⟨out, habsorbs, hsame⟩ := h before before hheld (same_refl before)
  refine ⟨out, ?_, hsame⟩
  rw [encode_eq_wire ht hf]
  obtain ⟨hv, hw⟩ := Reader.valid_ofBytesWithin (m.wire table type) 100
  obtain ⟨_, hmerge, _⟩ := habsorbs.merge_eq hv hw (Nat.le_refl 100)
  show ((before.merge table type (.ofBytesWithin _ 100)).message, (before.merge table type (.ofBytesWithin _ 100)).error) = _
  rw [hmerge]

end Message

end Protobuf
