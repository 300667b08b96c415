/-
  Protobuf.Proofs.Reuse — a reset message is as good as a new one.

  Reading into an absent sub-message starts from one kept aside, reset, if there is one. `WellFormed`
  says of a type what makes its messages well formed from the start: `held_new`. Resetting keeps them so
  (`held_clear`) and leaves the content of a new message (`clear_same`), whatever was kept aside before.
-/

import Protobuf.Proofs.Dispatch
import Protobuf.Proofs.Presence

namespace Protobuf

open Schema

/-- What every type of a schema satisfies. -/
structure Schema.MessageType.WellFormed (type : MessageType) : Prop extends type.Numbered where
  /-- Fields start with a value of their kind. -/
  initial : ∀ field ∈ type.fields, ∀ plain presence, field.strategy = .singular plain presence →
    (field.initial plain).kind = plain.kind
  /-- Presence bits have a place and belong to fields of single values, to each that is tracked. -/
  bits : ∀ field ∈ type.fields, ∀ bit, field.presenceBit = some bit →
    bit / 32 < type.presenceWords ∧ ∃ plain presence, field.strategy = .singular plain presence
  tracked : ∀ field ∈ type.fields, ∀ plain, field.strategy = .singular plain .explicit → field.presenceBit ≠ none
  /-- No two fields share a bit. -/
  ownBits : type.fields.Pairwise fun a b => ∀ bit, a.presenceBit = some bit → b.presenceBit ≠ some bit
  /-- Members belong to a oneof of the type. -/
  members : ∀ field ∈ type.fields, ∀ slot value, field.strategy = .member slot value → slot < type.oneofs.length
  /-- An entry without a value has one of the right kind. -/
  entries : ∀ field ∈ type.fields, ∀ key plain start, field.type = .map key (.plain plain) (some start) →
    start.kind = plain.kind

/-- A presence bit belongs to one field. -/
theorem Schema.MessageType.WellFormed.field_of_bit {type : MessageType} (h : type.WellFormed) {i j bit : Nat} {f g : Field}
    (hf : type.fields[i]? = some f) (hg : type.fields[j]? = some g) (hi : f.presenceBit = some bit)
    (hj : g.presenceBit = some bit) : i = j := by
  obtain ⟨hlti, rfl⟩ := List.getElem?_eq_some_iff.mp hf
  obtain ⟨hltj, rfl⟩ := List.getElem?_eq_some_iff.mp hg
  have hpair := List.pairwise_iff_getElem.mp h.ownBits
  rcases Nat.lt_trichotomy i j with hlt | heq | hgt
  · exact absurd hj (hpair i j hlti hltj hlt bit hi)
  · exact heq
  · exact absurd hi (hpair j i hltj hlti hgt bit hj)

/-! ## One field -/

namespace Slot

variable {field : Field}

theorem form_new (h : ∀ plain presence, field.strategy = .singular plain presence →
    (field.initial plain).kind = plain.kind) : Form field.strategy (Slot.new field) := by
  unfold Slot.new
  cases hs : field.strategy with
  | singular plain presence => exact .singular (h plain presence hs)
  | message ref => exact .message
  | repeated plain => exact .repeated nofun
  | packed plain => exact .packed nofun
  | texts plain => exact .texts nofun
  | messages ref => exact .messages
  | map key value => exact .map nofun List.nodup_nil
  | member slot value => exact .member

theorem inUse_new (field : Field) : (Slot.new field).inUse = [] := by
  unfold Slot.new
  cases field.strategy <;> rfl

theorem aside_new (field : Field) : (Slot.new field).aside = [] := by
  unfold Slot.new
  cases field.strategy <;> rfl

theorem rel_clear {slot : Slot Message} (h : Form field.strategy slot) (R : Message → Message → Prop) :
    (slot.clear field).Rel R (Slot.new field) := by
  have hself : (Slot.new field).Rel R (Slot.new field) := by
    refine rel_refl fun x hx => ?_
    rw [inUse_new] at hx
    cases hx
  generalize hs : field.strategy = strategy at h
  cases h with
  | @message ref value =>
    rw [Slot.new, hs]
    refine .message ?_
    rw [Singular.get?_clear]
    exact .none
  | @texts plain values kinds =>
    rw [Slot.new, hs]
    exact .texts values.active_clear
  | @messages ref values =>
    rw [Slot.new, hs]
    refine .messages ?_
    rw [Repeated.active_clear]
    exact .nil
  | singular kind => exact hself
  | repeated kinds => exact hself
  | packed kinds => exact hself
  | map suit nodup => exact hself
  | member => exact hself

/-- What is kept aside was there before, in use or aside. -/
theorem mem_of_aside_clear {slot : Slot Message} {x : Message} (h : x ∈ (slot.clear field).aside) :
    x ∈ slot.inUse ∨ x ∈ slot.aside := by
  have hnone : x ∉ (Slot.new field).aside := by
    rw [aside_new]
    exact List.not_mem_nil
  cases slot with
  | message value =>
    cases value with
    | absent kept => exact .inr h
    | present m => exact .inl h
  | messages values =>
    have h : x ∈ values.active.drop 0 ++ values.reserve := h
    rw [List.drop_zero] at h
    exact List.mem_append.mp h
  | texts values => cases h
  | scalar v => exact absurd h hnone
  | scalars vs => exact absurd h hnone
  | map entries => exact absurd h hnone
  | member => exact absurd h hnone

end Slot

theorem Choice.mem_of_spare_stash {M : Type} {choice : Choice M} {member : Member M}
    (h : choice.stash.spare = some member) : choice.selected = some member ∨ choice.spare = some member := by
  unfold stash at h
  split at h
  · rename_i hselected
    exact .inl (hselected.trans h)
  · exact .inr h

theorem Choice.selected_stash {M : Type} (choice : Choice M) : choice.stash.selected = none := by
  unfold stash
  split <;> rfl

/-! ## Messages -/

namespace Message

variable {table : TypeTable} {type : MessageType} {m : Message}

theorem Held.shaped {body : Body Message} (h : Held table type (Message.mk body)) : body.Shaped type := by
  cases h with
  | mk shaped _ _ => exact shaped

theorem slots_new {index : Nat} {field : Field} (hf : type.fields[index]? = some field) :
    (new type).body.slots[index]? = some (Slot.new field) := by
  show (type.fields.map Slot.new)[index]? = _
  rw [List.getElem?_map, hf]
  rfl

theorem shaped_new (h : type.WellFormed) : (new type).body.Shaped type where
  length_slots := List.length_map ..
  slots := by
    rintro ⟨field, slot⟩ hp
    obtain ⟨index, hi⟩ := List.getElem?_of_mem hp
    obtain ⟨hf, hs⟩ := List.getElem?_zip_eq_some.mp hi
    obtain rfl : Slot.new field = slot := Option.some.inj ((slots_new hf).symm.trans hs)
    exact Slot.suits_iff.mpr (Slot.form_new (h.initial field (List.mem_of_getElem? hf)))
  length_choices := List.length_map ..
  members := by
    rintro ⟨choice, slot⟩ hp member hm
    have hc : (type.oneofs.map fun _ => ({} : Choice Message))[slot]? = some choice := List.mem_zipIdx_iff_getElem?.mp hp
    obtain ⟨_, _, rfl⟩ := List.mem_map.mp (List.mem_of_getElem? hc)
    cases hm
  length_presence := List.length_replicate
  presence := by
    intro bit _ hset
    have hset : (PresenceBits.none type.presenceWords).isSet bit = true := hset
    rw [PresenceBits.isSet_none] at hset
    cases hset
  unknown := fun _ => rfl

theorem parts_new {held : Slot Message → List Message} {pick : Choice Message → Option (Member Message)}
    (hheld : ∀ field, held (Slot.new field) = []) (hpick : pick {} = none) (part : Nat × Message) :
    part ∉ (new type).body.parts held pick := by
  intro hp
  rcases Body.mem_parts_iff.mp hp with ⟨slot, hs, hm⟩ | ⟨_, choice, hc, hsel⟩
  · obtain ⟨field, _, rfl⟩ := List.mem_map.mp (List.mem_of_getElem? (show (type.fields.map Slot.new)[part.1]? = _ from hs))
    rw [hheld] at hm
    cases hm
  · have hc := List.mem_of_getElem? hc
    obtain ⟨_, _, rfl⟩ := List.mem_map.mp (show choice ∈ type.oneofs.map fun _ => ({} : Choice Message) from hc)
    rw [hpick] at hsel
    cases hsel

theorem held_new (table : TypeTable) (h : type.WellFormed) : Held table type (new type) :=
  .mk (shaped_new h) (fun part hp => absurd hp (parts_new Slot.inUse_new rfl part))
    fun part hp => absurd hp (parts_new Slot.aside_new rfl part)

theorem slots_clear {body : Body Message} (h : body.Shaped type) {index : Nat} {slot : Slot Message}
    (hs : ((mk body).clear type).body.slots[index]? = some slot) :
    ∃ field before, type.fields[index]? = some field ∧ body.slots[index]? = some before ∧
      Slot.Form field.strategy before ∧ slot = before.clear field := by
  obtain ⟨field, before, hf, hbefore, rfl⟩ := List.getElem?_zipWith_eq_some.mp hs
  exact ⟨field, before, hf, hbefore, h.form hf hbefore, rfl⟩

/-- A reset message has the content of a new one. -/
theorem clear_same (h : Held table type m) : (m.clear type).Same (new type) := by
  obtain ⟨body⟩ := m
  have hshaped := h.shaped
  refine same_mk_iff.mpr ⟨fun index => ?_, fun slot => ?_, rfl, rfl⟩
  · show Option.Rel _ (List.zipWith Slot.clear type.fields body.slots)[index]? (type.fields.map Slot.new)[index]?
    rw [List.getElem?_zipWith, List.getElem?_map]
    cases hf : type.fields[index]? with
    | none => exact .none
    | some field =>
      obtain ⟨slot, hs, hform⟩ := hshaped.slot_of_field hf
      rw [hs]
      exact .some (Slot.rel_clear hform Same)
  · show Option.Rel _ (body.choices.map Choice.stash)[slot]? (type.oneofs.map fun _ => ({} : Choice Message))[slot]?
    rw [List.getElem?_map, List.getElem?_map]
    have hlen := hshaped.length_choices
    cases hc : body.choices[slot]? with
    | none =>
      rw [List.getElem?_eq_none_iff.mpr (hlen ▸ List.getElem?_eq_none_iff.mp hc)]
      exact .none
    | some choice =>
      rw [List.getElem?_eq_getElem (hlen ▸ (List.getElem?_eq_some_iff.mp hc).1)]
      refine .some ?_
      show Option.Rel _ choice.stash.selected none
      rw [choice.selected_stash]
      exact .none

/-- Nothing is in use in a reset message. -/
theorem inUse_clear (hw : type.WellFormed) (h : Held table type m) (part : Nat × Message) :
    part ∉ (m.clear type).body.inUse := by
  have hsame := clear_same h
  obtain ⟨body⟩ := m
  intro hp
  obtain ⟨y, hy, _⟩ := (same_mk_iff.mp hsame).exists_inUse (shaped_new hw) hp
  exact parts_new Slot.inUse_new rfl _ hy

/-- What a reset message keeps aside was there before, in use or aside. -/
theorem mem_of_aside_clear (h : Held table type m) {part : Nat × Message} (hp : part ∈ (m.clear type).body.aside) :
    part ∈ m.body.inUse ∨ part ∈ m.body.aside := by
  obtain ⟨body⟩ := m
  obtain ⟨index, x⟩ := part
  rcases Body.mem_parts_iff.mp hp with ⟨slot, hs, hx⟩ | ⟨slot, choice, hc, hsel⟩
  · obtain ⟨field, before, _, hbefore, _, rfl⟩ := slots_clear h.shaped hs
    rcases Slot.mem_of_aside_clear hx with hx | hx
    · exact .inl (Body.mem_parts_iff.mpr (.inl ⟨before, hbefore, hx⟩))
    · exact .inr (Body.mem_parts_iff.mpr (.inl ⟨before, hbefore, hx⟩))
  · have hc : (body.choices.map Choice.stash)[slot]? = some choice := hc
    rw [List.getElem?_map] at hc
    obtain ⟨before, hbefore, rfl⟩ := Option.map_eq_some_iff.mp hc
    rcases Choice.mem_of_spare_stash hsel with hsel | hsel
    · exact .inl (Body.mem_parts_iff.mpr (.inr ⟨slot, before, hbefore, hsel⟩))
    · exact .inr (Body.mem_parts_iff.mpr (.inr ⟨slot, before, hbefore, hsel⟩))

theorem held_clear (hw : type.WellFormed) (h : Held table type m) : Held table type (m.clear type) := by
  have hsame := clear_same h
  have hinUse := inUse_clear hw h
  have haside : ∀ part ∈ (m.clear type).body.aside, _ := fun _ => mem_of_aside_clear h
  obtain ⟨body⟩ := m
  cases h with
  | mk shaped inUse aside =>
    refine .mk ((same_mk_iff.mp hsame).shaped (shaped_new hw)) (fun part hp => absurd hp (hinUse part)) fun part hp => ?_
    rcases haside part hp with hp | hp
    · exact inUse part hp
    · exact aside part hp

end Message

end Protobuf
