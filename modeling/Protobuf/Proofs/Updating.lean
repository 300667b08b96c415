/-
  Protobuf.Proofs.Updating — changing one part of a message.

  A message that is `Held` stays so when a slot or a choice is replaced by one that is `Kept`, when a
  field is marked and when unknown bytes are added. Two messages with the same content have the same
  content again after the same change, or after putting in slots or choices that are related.
-/

import Protobuf.Proofs.Merging

namespace Protobuf

open Schema

/-! ## One level -/

namespace Body

variable {M N : Type} {body : Body M} {index i : Nat} {x : M}

theorem mem_parts_setSlot {held : Slot M → List M} {pick : Choice M → Option (Member M)} {slot : Slot M}
    (h : (i, x) ∈ parts held pick { body with slots := body.slots.set index slot }) :
    (i = index ∧ x ∈ held slot) ∨ (i, x) ∈ body.parts held pick := by
  rcases mem_parts_iff.mp h with ⟨s, hs, hx⟩ | hchoice
  · dsimp only at hs
    rw [List.getElem?_set] at hs
    split at hs
    · rename_i hi
      split at hs
      · cases hs
        exact .inl ⟨hi.symm, hx⟩
      · cases hs
    · exact .inr (mem_parts_iff.mpr (.inl ⟨s, hs, hx⟩))
  · exact .inr (mem_parts_iff.mpr (.inr hchoice))

theorem mem_parts_setChoice {held : Slot M → List M} {pick : Choice M → Option (Member M)} {choice : Choice M}
    (h : (i, x) ∈ parts held pick { body with choices := body.choices.set index choice }) :
    pick choice = some ⟨i, .message x⟩ ∨ (i, x) ∈ body.parts held pick := by
  rcases mem_parts_iff.mp h with hslot | ⟨slot, c, hc, hsel⟩
  · exact .inr (mem_parts_iff.mpr (.inl hslot))
  · dsimp only at hc
    rw [List.getElem?_set] at hc
    split at hc
    · split at hc
      · cases hc
        exact .inl hsel
      · cases hc
    · exact .inr (mem_parts_iff.mpr (.inr ⟨slot, c, hc, hsel⟩))

variable {type : MessageType}

theorem Shaped.setSlot (h : body.Shaped type) {field : Field} (hf : type.fields[index]? = some field) {slot : Slot M}
    (hs : Slot.Form field.strategy slot) : Shaped type { body with slots := body.slots.set index slot } where
  length_slots := (List.length_set ..).trans h.length_slots
  slots := by
    rintro ⟨f, s⟩ hp
    obtain ⟨i, hi⟩ := List.getElem?_of_mem hp
    obtain ⟨hfi, hsi⟩ := List.getElem?_zip_eq_some.mp hi
    dsimp only at hsi
    rw [List.getElem?_set] at hsi
    split at hsi
    · rename_i he
      subst he
      split at hsi
      · cases hsi
        cases hf.symm.trans hfi
        exact Slot.suits_iff.mpr hs
      · cases hsi
    · exact Slot.suits_iff.mpr (h.form hfi hsi)
  length_choices := h.length_choices
  members := h.members
  length_presence := h.length_presence
  presence := h.presence
  unknown := h.unknown

theorem Shaped.setChoice (h : body.Shaped type) {choice : Choice M}
    (hc : ∀ member ∈ choice.selected, member.suits type index = true) :
    Shaped type { body with choices := body.choices.set index choice } where
  length_slots := h.length_slots
  slots := h.slots
  length_choices := (List.length_set ..).trans h.length_choices
  members := by
    rintro ⟨c, slot⟩ hp member hm
    have hslot : (body.choices.set index choice)[slot]? = some c := List.mem_zipIdx_iff_getElem?.mp hp
    rw [List.getElem?_set] at hslot
    split at hslot
    · rename_i he
      subst he
      split at hslot
      · cases hslot
        exact hc member hm
      · cases hslot
    · exact h.member hslot hm
  length_presence := h.length_presence
  presence := h.presence
  unknown := h.unknown

theorem Shaped.setPresence (h : body.Shaped type) {presence : PresenceBits} (hlen : presence.length = body.presence.length)
    (hbits : ∀ bit, presence.isSet bit = true → body.presence.isSet bit = true ∨
      ∃ field ∈ type.fields, field.presenceBit = some bit) : Shaped type { body with presence } where
  length_slots := h.length_slots
  slots := h.slots
  length_choices := h.length_choices
  members := h.members
  length_presence := hlen.trans h.length_presence
  presence := by
    intro bit hlt hset
    rcases hbits bit hset with hbefore | hfield
    · exact h.presence bit (hlen ▸ hlt) hbefore
    · exact hfield
  unknown := h.unknown

theorem Rel.setSlot {R : M → N → Prop} {a : Body M} {b : Body N} (h : a.Rel R b) {s : Slot M} {t : Slot N}
    (hst : s.Rel R t) (index : Nat) :
    Rel R { a with slots := a.slots.set index s } { b with slots := b.slots.set index t } := by
  have hlen := length_eq_of_rel h.slots
  refine ⟨fun i => ?_, h.choices, h.presence, h.unknown⟩
  dsimp only
  rw [List.getElem?_set, List.getElem?_set, hlen]
  split
  · split
    · exact .some hst
    · exact .none
  · exact h.slots i

theorem Rel.setChoice {R : M → N → Prop} {a : Body M} {b : Body N} (h : a.Rel R b) {c : Choice M} {d : Choice N}
    (hcd : c.Rel R d) (index : Nat) :
    Rel R { a with choices := a.choices.set index c } { b with choices := b.choices.set index d } := by
  have hlen := length_eq_of_rel h.choices
  refine ⟨h.slots, fun i => ?_, h.presence, h.unknown⟩
  dsimp only
  rw [List.getElem?_set, List.getElem?_set, hlen]
  split
  · split
    · exact .some hcd
    · exact .none
  · exact h.choices i

end Body

/-! ## What a slot or a choice holds -/

variable (table : TypeTable)

/-- A slot of the form of its field, in which messages in use and aside have the form of their type. -/
structure Slot.Kept (child : MessageType) (strategy : Strategy) (slot : Slot Message) : Prop where
  form : Slot.Form strategy slot
  inUse : ∀ x ∈ slot.inUse, Message.Held table child x
  aside : ∀ x ∈ slot.aside, Message.Held table child x

/-- A choice with a member of its own, whose messages have the form of their type. -/
structure Choice.Kept (type : MessageType) (slot : Nat) (choice : Choice Message) : Prop where
  suits : ∀ member ∈ choice.selected, member.suits type slot = true
  selected : ∀ index x, choice.selected = some ⟨index, .message x⟩ → Message.Held table (table.childAt type index) x
  spare : ∀ index x, choice.spare = some ⟨index, .message x⟩ → Message.Held table (table.childAt type index) x

namespace Message

variable {table} {type : MessageType} {m : Message} {index : Nat} {field : Field}

/-! ## Messages stay held -/

theorem Held.slot (h : Held table type m) (hf : type.fields[index]? = some field) :
    ∃ slot, m.body.slots[index]? = some slot ∧ slot.Kept table (table.childAt type index) field.strategy := by
  cases h with
  | mk shaped inUse aside =>
    obtain ⟨slot, hs, hform⟩ := shaped.slot_of_field hf
    exact ⟨slot, hs, hform, fun x hx => inUse (index, x) (Body.mem_parts_iff.mpr (.inl ⟨slot, hs, hx⟩)),
      fun x hx => aside (index, x) (Body.mem_parts_iff.mpr (.inl ⟨slot, hs, hx⟩))⟩

theorem Held.choice (h : Held table type m) {slot : Nat} (hlt : slot < type.oneofs.length) :
    ∃ choice, m.body.choices[slot]? = some choice ∧ choice.Kept table type slot := by
  cases h with
  | @mk _ body shaped inUse aside =>
    have hc : body.choices[slot]? = some _ := List.getElem?_eq_getElem (shaped.length_choices ▸ hlt)
    exact ⟨_, hc, fun member hm => shaped.member hc hm,
      fun i x hx => inUse (i, x) (Body.mem_parts_iff.mpr (.inr ⟨slot, _, hc, hx⟩)),
      fun i x hx => aside (i, x) (Body.mem_parts_iff.mpr (.inr ⟨slot, _, hc, hx⟩))⟩

theorem Held.setSlot (h : Held table type m) (hf : type.fields[index]? = some field) {slot : Slot Message}
    (hs : slot.Kept table (table.childAt type index) field.strategy) : Held table type (m.setSlot index slot) := by
  cases h with
  | mk shaped inUse aside =>
    refine .mk (shaped.setSlot hf hs.form) ?_ ?_
    · rintro ⟨i, x⟩ hx
      rcases Body.mem_parts_setSlot hx with ⟨rfl, hslot⟩ | hbefore
      · exact hs.inUse x hslot
      · exact inUse (i, x) hbefore
    · rintro ⟨i, x⟩ hx
      rcases Body.mem_parts_setSlot hx with ⟨rfl, hslot⟩ | hbefore
      · exact hs.aside x hslot
      · exact aside (i, x) hbefore

theorem Held.setChoice (h : Held table type m) {slot : Nat} {choice : Choice Message}
    (hc : choice.Kept table type slot) : Held table type (m.setChoice slot choice) := by
  cases h with
  | mk shaped inUse aside =>
    refine .mk (shaped.setChoice hc.suits) ?_ ?_
    · rintro ⟨i, x⟩ hx
      rcases Body.mem_parts_setChoice hx with hchoice | hbefore
      · exact hc.selected i x hchoice
      · exact inUse (i, x) hbefore
    · rintro ⟨i, x⟩ hx
      rcases Body.mem_parts_setChoice hx with hchoice | hbefore
      · exact hc.spare i x hchoice
      · exact aside (i, x) hbefore

theorem Held.setPresence (h : Held table type m) {presence : PresenceBits}
    (hlen : presence.length = m.body.presence.length)
    (hbits : ∀ bit, presence.isSet bit = true → m.body.presence.isSet bit = true ∨
      ∃ field ∈ type.fields, field.presenceBit = some bit) :
    Held table type (m.update fun body => { body with presence }) := by
  cases h with
  | mk shaped inUse aside => exact .mk (shaped.setPresence hlen hbits) inUse aside

theorem Held.mark (h : Held table type m) (hw : type.WellFormed) (hf : type.fields[index]? = some field) :
    Held table type (m.mark field) := by
  unfold Message.mark
  split
  · rename_i bit hbit
    have hmem := List.mem_of_getElem? hf
    have hlt : bit / 32 < m.body.presence.length := by
      cases h with
      | mk shaped _ _ => exact shaped.length_presence ▸ (hw.bits field hmem bit hbit).1
    refine h.setPresence (PresenceBits.length_set ..) fun other hset => ?_
    rw [PresenceBits.isSet_set hlt, Bool.or_eq_true] at hset
    rcases hset with hset | he
    · exact .inl hset
    · cases eq_of_beq he
      exact .inr ⟨field, hmem, hbit⟩
  · exact h

theorem Held.addUnknown (h : Held table type m) (hk : type.keepsUnknown = true) (bytes : Bytes) :
    Held table type (m.addUnknown bytes) := by
  cases h with
  | mk shaped inUse aside =>
    refine .mk { shaped with unknown := fun hn => ?_ } inUse aside
    rw [hk] at hn
    cases hn

/-! ## Content stays the same -/

variable {a b : Message}

theorem Same.body (h : a.Same b) : a.body.Rel Same b.body := by
  obtain ⟨a⟩ := a
  obtain ⟨b⟩ := b
  exact same_mk_iff.mp h

theorem Same.setSlot (h : a.Same b) {s t : Slot Message} (hst : s.Rel Same t) (index : Nat) :
    (a.setSlot index s).Same (b.setSlot index t) :=
  same_mk_iff.mpr (h.body.setSlot hst index)

theorem Same.setChoice (h : a.Same b) {c d : Choice Message} (hcd : c.Rel Same d) (slot : Nat) :
    (a.setChoice slot c).Same (b.setChoice slot d) :=
  same_mk_iff.mpr (h.body.setChoice hcd slot)

theorem Same.setPresence (h : a.Same b) (f : PresenceBits → PresenceBits) :
    (a.update fun body => { body with presence := f body.presence }).Same
      (b.update fun body => { body with presence := f body.presence }) :=
  same_mk_iff.mpr ⟨h.body.slots, h.body.choices, congrArg f h.body.presence, h.body.unknown⟩

theorem Same.mark (h : a.Same b) (field : Field) : (a.mark field).Same (b.mark field) := by
  unfold Message.mark
  split
  · exact h.setPresence fun bits => bits.set _
  · exact h

theorem Same.addUnknown (h : a.Same b) (bytes : Bytes) : (a.addUnknown bytes).Same (b.addUnknown bytes) :=
  same_mk_iff.mpr ⟨h.body.slots, h.body.choices, h.body.presence, congrArg (· ++ bytes) h.body.unknown⟩

end Message

end Protobuf
