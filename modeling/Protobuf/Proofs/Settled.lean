/-
  Protobuf.Proofs.Settled — what becomes of a message that is laid over a new one.

  Each value that is not written starts over, at every depth: it gives way to the value that its field starts
  with (`Message.restarted`). So a message stays as it is if what is not written has that value already: a tracked
  field without its presence bit holds its default (`Body.Settled`), and other fields start at zero
  (`ZeroDefaults`). Merging into a message that has no such sub-message yet then gives the one that was
  written, and `mergeBytes_overlay` reads as the merge of two messages.
-/

import Protobuf.Proofs.Merging
import Protobuf.Proofs.Resolved

namespace Protobuf

open Schema

/-! ## One level -/

/-- Whether the slot holds the value that the field starts with. -/
def Slot.isInitial {M : Type} (field : Field) (slot : Slot M) : Bool :=
  match field.strategy, slot with
  | .singular type _, .scalar value => value == field.initial type
  | _, _ => false

/-- Each tracked field whose presence bit is clear holds its default. -/
def Body.Settled {M : Type} (type : MessageType) (body : Body M) : Prop :=
  ∀ pair ∈ type.fields.zip body.slots, ∀ bit ∈ pair.1.presenceBit, body.presence.isSet bit = false →
    pair.2.isInitial pair.1 = true

instance {M : Type} (type : MessageType) (body : Body M) : Decidable (body.Settled type) :=
  inferInstanceAs (Decidable (∀ pair ∈ type.fields.zip body.slots, ∀ bit ∈ pair.1.presenceBit,
    body.presence.isSet bit = false → pair.2.isInitial pair.1 = true))

/-- Whether the field is tracked or starts at zero. -/
def Schema.Field.startsAtZero (field : Field) : Bool :=
  match field.strategy with
  | .singular type .implicit => (field.initial type).isZero
  | _ => true

/-- Fields whose presence is not tracked start at zero. -/
def Schema.MessageType.ZeroDefaults (type : MessageType) : Prop := ∀ field ∈ type.fields, field.startsAtZero = true

instance (type : MessageType) : Decidable type.ZeroDefaults :=
  inferInstanceAs (Decidable (∀ field ∈ type.fields, field.startsAtZero = true))

theorem Slot.Rel.isInitial_eq {M N : Type} {R : M → N → Prop} {a : Slot M} {b : Slot N} (h : a.Rel R b)
    (field : Field) : a.isInitial field = b.isInitial field := by
  unfold isInitial
  cases field.strategy <;> cases h <;> rfl

theorem Scalar.eq_of_isZero {a b : Scalar} (ha : a.isZero = true) (hb : b.isZero = true) (hkind : a.kind = b.kind) :
    a = b := by
  rw [eq_of_beq ha, eq_of_beq hb, hkind]

namespace Body

variable {type : MessageType} {body : Body Message}

theorem settled_iff {M : Type} {body : Body M} : body.Settled type ↔
    ∀ (index : Nat) (field : Field) (slot : Slot M) (bit : Nat), type.fields[index]? = some field →
      body.slots[index]? = some slot → field.presenceBit = some bit → body.presence.isSet bit = false →
      slot.isInitial field = true := by
  constructor
  · intro h index field slot bit hf hs hbit hclear
    exact h (field, slot) (List.mem_of_getElem? (List.getElem?_zip_eq_some.mpr ⟨hf, hs⟩)) bit hbit hclear
  · rintro h ⟨field, slot⟩ hp bit hbit hclear
    obtain ⟨index, hi⟩ := List.getElem?_of_mem hp
    obtain ⟨hf, hs⟩ := List.getElem?_zip_eq_some.mp hi
    exact h index field slot bit hf hs hbit hclear

theorem Settled.of_rel {M N : Type} {R : M → N → Prop} {a : Body M} {b : Body N} (hb : b.Settled type)
    (h : a.Rel R b) : a.Settled type := by
  refine settled_iff.mpr fun index field slot bit hf hs hbit hclear => ?_
  obtain ⟨slot', hs', hrel⟩ := exists_of_rel (h.slots index) hs
  rw [hrel.isInitial_eq]
  exact settled_iff.mp hb index field slot' bit hf hs' hbit (h.presence ▸ hclear)

/-- A value that is not written is the one its field starts with. -/
theorem Settled.unwritten (hw : type.WellFormed) (hz : type.ZeroDefaults) (hs : body.Settled type) {index : Nat}
    {field : Field} {plain : PlainType} {presence : Presence} {value : Scalar} (hf : type.fields[index]? = some field)
    (hstrategy : field.strategy = .singular plain presence) (hslot : body.slots[index]? = some (.scalar value))
    (hkind : value.kind = plain.kind) (hn : field.isWritten body.presence value = false) :
    value = field.initial plain := by
  have hmem := List.mem_of_getElem? hf
  cases hbit : field.presenceBit with
  | some bit =>
    rw [Field.isWritten, hbit] at hn
    have hinitial := settled_iff.mp hs index field _ bit hf hslot hbit hn
    simp only [Slot.isInitial, hstrategy] at hinitial
    exact eq_of_beq hinitial
  | none =>
    rw [Field.isWritten, hbit] at hn
    have hzero := hz field hmem
    cases presence with
    | explicit => exact absurd hbit (hw.tracked field hmem plain hstrategy)
    | implicit =>
      rw [Field.startsAtZero, hstrategy] at hzero
      have hvalue : value.isZero = true := by simpa using hn
      refine Scalar.eq_of_isZero hvalue hzero ?_
      rw [hkind, hw.initial field hmem plain .implicit hstrategy]

end Body

/-! ## Starting over -/

/-- A value that is not written gives way to the one that its field starts with. -/
def Slot.restarted (field : Field) (presence : PresenceBits) : Slot Message → Slot Message
  | .scalar value => if field.isWritten presence value then .scalar value else .new field
  | slot => slot

def Body.restarted (type : MessageType) (body : Body Message) : Body Message :=
  { body with slots := List.zipWith (fun field slot => slot.restarted field body.presence) type.fields body.slots }

/-- The message with every value that is not written started over. -/
def Message.restarted (table : TypeTable) (type : MessageType) (m : Message) : Message :=
  m.foldTyped table type fun type body => mk (body.restarted type)

theorem Message.restarted_mk (table : TypeTable) (type : MessageType) (body : Body Message) :
    (mk body).restarted table type = mk ((body.mapTyped table type (restarted table)).restarted type) := by
  rw [restarted, foldTyped_mk]
  rfl

/-- Nothing starts over if what is not written is at its start. -/
theorem Body.restarted_eq {type : MessageType} {body : Body Message} (hw : type.WellFormed) (hshaped : body.Shaped type)
    (hs : body.Settled type) (hz : type.ZeroDefaults) : body.restarted type = body := by
  have hslots : List.zipWith (fun field slot => slot.restarted field body.presence) type.fields body.slots = body.slots := by
    refine List.ext_getElem? fun index => ?_
    rw [List.getElem?_zipWith]
    cases hslot : body.slots[index]? with
    | none => cases type.fields[index]? <;> rfl
    | some slot =>
      obtain ⟨field, hf, hform⟩ := hshaped.field_of_slot hslot
      rw [hf]
      refine congrArg some ?_
      generalize hstrategy : field.strategy = strategy at hform
      cases hform with
      | @singular plain presence value kind =>
        show (if field.isWritten body.presence value then Slot.scalar value else .new field) = _
        split
        · rfl
        · rename_i hn
          rw [Slot.new, hstrategy, hs.unwritten hw hz hf hstrategy hslot kind (Bool.eq_false_iff.mpr hn)]
      | _ => rfl
  rw [Body.restarted, hslots]

/-! ## Over a new message -/

theorem Entry.overlay_new (lay : Message → Message → Message) (fresh : Message) (entries : List (Entry Message)) :
    overlay ((entries.map (Entry.map lay)).map (Entry.map fun f => f fresh)) [] =
      entries.map (Entry.map fun x => lay x fresh) := by
  rw [List.map_map]
  exact List.map_congr_left fun entry _ => Entry.map_map _ _ entry

theorem Slot.overlay_new {field : Field} {slot : Slot Message} (hform : Form field.strategy slot) (presence : PresenceBits)
    {lay : Message → Message → Message} {fresh : Message} {f : Message → Message}
    (hlay : ∀ x ∈ slot.inUse, (lay x fresh).Same (f x)) :
    ((slot.mapParts lay lay).overlay fresh (field.isWritten presence) (Slot.new field)).Rel Message.Same
      ((slot.mapParts f f).restarted field presence) := by
  unfold Slot.new
  generalize hs : field.strategy = strategy at hform
  cases hform with
  | @singular plain _ value kind =>
    show (Slot.scalar (if field.isWritten presence value then value else field.initial plain)).Rel _
      (if field.isWritten presence value then .scalar value else .new field)
    split
    · exact .scalar value
    · rw [Slot.new, hs]
      exact .scalar _
  | repeated kinds => exact .scalars _
  | packed kinds => exact .scalars _
  | texts kinds => exact .texts rfl
  | @message ref value =>
    cases value with
    | absent kept => exact .message .none
    | present x => exact .message (.some (hlay x (List.mem_singleton_self x)))
  | @messages ref values =>
    refine .messages ?_
    show List.Forall₂ _ ([] ++ (values.active.map lay).map _) (values.active.map f)
    rw [List.nil_append, List.map_map]
    exact List.forall₂_map_left_iff.mpr (List.forall₂_map_right_iff.mpr (List.forall₂_same.mpr hlay))
  | @map key valueType entries suit nodup =>
    show (Slot.map (Entry.overlay _ [])).Rel _ _
    rw [Entry.overlay_new]
    have hself : (Slot.map entries).Rel (· = ·) (.map entries) := Slot.rel_refl fun _ _ => rfl
    refine hself.mapParts (f := fun x => lay x fresh) (i := f) (j := f) fun x hx y _ hxy => ?_
    exact hxy ▸ hlay x hx
  | member => exact .member

theorem Choice.overlay_new {choice kept : Choice Message} {laid : Choice (Message → Message)} {fresh : Nat → Message}
    (lay : Nat → Message → Message → Message) (f : Nat → Message → Message)
    (hlay : ∀ index x, choice.selected = some ⟨index, .message x⟩ → (lay index x (fresh index)).Same (f index x))
    (hlaid : laid.selected = choice.selected.map fun member => member.map (lay member.field))
    (hkept : kept.selected = choice.selected.map fun member => member.map (f member.field)) :
    (laid.overlay fresh {}).Rel Message.Same kept := by
  show Option.Rel _ (laid.overlay fresh {}).selected kept.selected
  rw [hkept, Choice.overlay, hlaid]
  cases hsel : choice.selected with
  | none => exact .none
  | some member =>
    obtain ⟨index, value⟩ := member
    cases value with
    | scalar v => exact .some ⟨rfl, .scalar v⟩
    | message x => exact .some ⟨rfl, .message (hlay index x hsel)⟩

namespace Message

variable {table : TypeTable} {type : MessageType} {m : Message}

/-- At every depth, tracked fields whose presence bit is clear hold their defaults. -/
def Settled (table : TypeTable) : MessageType → Message → Prop := Throughout table fun type body => body.Settled type

/-- No type of the message or of one nested in it has an untracked field that starts with another value than zero. -/
def ZeroDefaults (table : TypeTable) : MessageType → Message → Prop := Throughout table fun type _ => type.ZeroDefaults

theorem presence_overlay_new {body : Body Message} (h : body.Shaped type) :
    PresenceBits.union (.none type.presenceWords) body.presence = body.presence := by
  have hlen : (PresenceBits.none type.presenceWords).length = body.presence.length := by
    rw [h.length_presence]
    exact List.length_replicate
  refine PresenceBits.ext_isSet ?_ fun bit => ?_
  · rw [PresenceBits.union, List.length_zipWith, hlen, Nat.min_self]
  · rw [PresenceBits.isSet_union hlen, PresenceBits.isSet_none, Bool.false_or]

section Level

variable {body : Body Message}

theorem slots_overlay_new {index : Nat} {field : Field} {slot : Slot Message} (hf : type.fields[index]? = some field)
    (hslot : body.slots[index]? = some slot) :
    ((body.mapTyped table type (overlay table)).overlay table type (new type).body).slots[index]? =
      some ((slot.mapParts (overlay table (table.childAt type index)) (overlay table (table.childAt type index))).overlay
        (.new (table.childAt type index)) (field.isWritten body.presence) (Slot.new field)) :=
  slots_overlay table _ hf (by rw [Body.slots_mapTyped, hslot]; rfl) (slots_new hf)

theorem choices_overlay_new (hshaped : body.Shaped type) {slot : Nat} {choice : Choice Message}
    (hc : body.choices[slot]? = some choice) :
    ∃ laid : Choice (Message → Message),
      laid.selected = choice.selected.map (Member.mapTyped table type (overlay table)) ∧
      ((body.mapTyped table type (overlay table)).overlay table type (new type).body).choices[slot]? =
        some (laid.overlay (fun index => .new (table.childAt type index)) {}) := by
  have hnew : (new type).body.choices[slot]? = some {} := by
    show (type.oneofs.map fun _ => ({} : Choice Message))[slot]? = _
    rw [List.getElem?_map, List.getElem?_eq_getElem (hshaped.length_choices ▸ (List.getElem?_eq_some_iff.mp hc).1)]
    rfl
  exact ⟨_, rfl, choices_overlay table type _ (by rw [Body.mapTyped, List.getElem?_map, hc]; rfl) hnew⟩

end Level

/-- A level whose sub-messages start over. -/
theorem rel_overlay_new {body : Body Message} (hshaped : body.Shaped type)
    (hlay : ∀ index x, (index, x) ∈ body.inUse →
      (x.overlay table (table.childAt type index) (new (table.childAt type index))).Same
        (x.restarted table (table.childAt type index))) :
    ((body.mapTyped table type (overlay table)).overlay table type (new type).body).Rel Same
      ((body.mapTyped table type (restarted table)).restarted type) where
  slots := by
    intro index
    rw [Body.restarted, List.getElem?_zipWith]
    cases hf : type.fields[index]? with
    | none =>
      rw [slots_overlay_none table _ _ hf]
      exact .none
    | some field =>
      obtain ⟨slot, hslot, hform⟩ := hshaped.slot_of_field hf
      rw [slots_overlay_new hf hslot, Body.slots_mapTyped, hslot]
      exact .some (Slot.overlay_new hform _ fun x hx => hlay index x (Body.mem_parts_iff.mpr (.inl ⟨slot, hslot, hx⟩)))
  choices := by
    intro slot
    show Option.Rel _ _ (body.choices.map _)[slot]?
    rw [List.getElem?_map]
    cases hc : body.choices[slot]? with
    | none =>
      rw [Body.overlay, List.getElem?_zipWith, Body.mapTyped, List.getElem?_map, hc]
      exact .none
    | some choice =>
      obtain ⟨laid, hlaid, hoverlay⟩ := choices_overlay_new hshaped hc
      rw [hoverlay]
      exact .some (Choice.overlay_new (fun index => overlay table (table.childAt type index))
        (fun index => restarted table (table.childAt type index))
        (fun index x hx => hlay index x (Body.mem_parts_iff.mpr (.inr ⟨slot, choice, hc, hx⟩))) hlaid rfl)
  presence := presence_overlay_new hshaped
  unknown := rfl

/-- Laid over a new message, a message starts over where it is not written. -/
theorem overlay_new_restarted (ht : Typed table type m) :
    (m.overlay table type (new type)).Same (m.restarted table type) := by
  induction ht with
  | @mk type body level parts ih =>
    show ((mk body).overlay table type (mk (new type).body)).Same _
    rw [overlay_mk, restarted_mk, same_mk_iff]
    exact rel_overlay_new level.1 fun index x hx => ih (index, x) hx

theorem restarted_same (hchild : ∀ type index, (table.childAt type index).WellFormed) (hw : type.WellFormed)
    (ht : Typed table type m) (hs : Settled table type m) (hz : ZeroDefaults table type m) :
    (m.restarted table type).Same m := by
  induction ht with
  | @mk type body level parts ih =>
    cases hs with
    | mk settled settledParts =>
      cases hz with
      | mk zero zeroParts =>
        have hself : body.Rel (· = ·) body := Body.rel_refl fun _ _ => rfl
        have hparts : (body.mapTyped table type (restarted table)).Rel Same (body.mapTyped table type fun _ m => m) := by
          refine hself.mapTyped ?_
          rintro index x _ hx - rfl
          exact ih (index, x) hx (hchild ..) (settledParts _ hx) (zeroParts _ hx)
        rw [Body.mapTyped_id] at hparts
        rw [restarted_mk, same_mk_iff, Body.restarted_eq hw (level.1.mapTyped ..) (settled.of_rel hparts) zero]
        exact hparts

/-- Laid over a new message, a message stays as it is. -/
theorem overlay_new (hchild : ∀ type index, (table.childAt type index).WellFormed) (hw : type.WellFormed)
    (ht : Typed table type m) (hs : Settled table type m) (hz : ZeroDefaults table type m) :
    (m.overlay table type (new type)).Same m :=
  (overlay_new_restarted ht).trans (restarted_same hchild hw ht hs hz)

theorem Nested.wellFormed (hchild : ∀ type index, (table.childAt type index).WellFormed) (hw : type.WellFormed)
    {inner : MessageType} {child : Message} (h : Nested table type m inner child) : inner.WellFormed := by
  induction h with
  | self type m => exact hw
  | part _ _ ih => exact ih (hchild ..)

/-- Merging the bytes of one message into another succeeds and leaves the first laid over the second. Where
    there is nothing below a message that is laid down, the values it does not write start over. So it stays as it
    is if its tracked fields without a presence bit hold their defaults and its other fields start at zero. -/
theorem mergeBytes_overlay (table : TypeTable) (type : MessageType) (m₁ m₂ : Message) (hg : table.Generated)
    (htype : type ∈ table.messages) (h₁ : Held table type m₁) (h₂ : Typed table type m₂) (hf : Fits table type m₂)
    (hn : Nests table 100 type m₂) :
    ∃ out, mergeBytes table type m₁ (m₂.encode table type) = (out, none) ∧ out.Same (m₂.overlay table type m₁) ∧
      ∀ inner child, Nested table type m₂ inner child →
        (child.overlay table inner (new inner)).Same (child.restarted table inner) ∧
        (Settled table inner child → ZeroDefaults table inner child →
          (child.overlay table inner (new inner)).Same child) := by
  have hw := hg.wellFormed htype
  obtain ⟨out, hmerge, hsame⟩ := mergeBytes_of_lays (lays_of_typed hg.childAt hw h₂ hf hn) h₂ hf h₁
  refine ⟨out, hmerge, hsame, fun inner child hc => ⟨overlay_new_restarted (h₂.nested hc), ?_⟩⟩
  exact overlay_new hg.childAt (hc.wellFormed hg.childAt hw) (h₂.nested hc)

set_option maxRecDepth 100000 in
/-- Both have a point as a field, under the same key of a map and as the same member of a oneof; a cleared
    point is kept aside in the first, and the second has unknown bytes. -/
theorem mergeBytes_overlay_points :
    let table := Sample.Shapes.table
    let shape := table.message "demo.shapes.Shape"
    let point := fun (index : Nat) (n : Int32) =>
      (new (table.message "demo.shapes.Point")).setSlot index (.scalar (.int32 n))
    let shapeOf := fun point : Message =>
      (((new shape).setSlot 2 (.message (.present point))).setSlot 8 (.map [⟨.int32 3, .message point⟩])).setChoice 0
        { selected := some ⟨10, .message point⟩ }
    let m₁ := (shapeOf (point 0 1)).setSlot 3 (.messages ⟨[], [point 1 9]⟩)
    let m₂ := (shapeOf (point 1 7)).addUnknown (Tag.encode (Tag.make 99 .varint) ++ Varint.encode 5)
    ∃ out, mergeBytes table shape m₁ (m₂.encode table shape) = (out, none) ∧ out.Same (m₂.overlay table shape m₁) ∧
      ∀ inner child, Nested table shape m₂ inner child → (child.overlay table inner (new inner)).Same child := by
  intro table shape point shapeOf m₁ m₂
  have htype : shape ∈ table.messages := TypeTable.message_mem (by decide +kernel)
  have hnests : Nests table 100 shape m₂ := by
    have hspells := Tag.spells_make (show 99 ≠ 0 by decide) (by decide) .varint
    exact nests_of_unknown 1 (List.append_nil _).symm (.plain hspells (.varint rfl (Reader.spells_encode (by decide))) (.nil 100))
      (by decide +kernel) (by decide +kernel) (by decide)
  obtain ⟨out, hmerge, hsame, hlaid⟩ := mergeBytes_overlay table shape m₁ m₂ (generated_tableOf _ _) htype
    (held_of_isHeld 2 (by decide +kernel)) (throughout_of_holds 2 (by decide +kernel))
    (throughout_of_holds 2 (by decide +kernel)) hnests
  have hsettled : Settled table shape m₂ := throughout_of_holds 2 (by decide +kernel)
  have hzero : ZeroDefaults table shape m₂ := throughout_of_holds 2 (by decide +kernel)
  exact ⟨out, hmerge, hsame, fun inner child hc => (hlaid inner child hc).2 (hsettled.nested hc) (hzero.nested hc)⟩

/-- A message with an untracked field that starts at five, as a field of another and in a list. -/
def nestedFive : Descriptor.File where
  dialect := some "proto3"
  messages := [
    .of "Inner" [.withDefault (.scalar "x" 1 .int32) "5"],
    .of "Outer" [.message "a" 1 ".Inner", .repeated (.message "b" 2 ".Inner")]]

/-- Zeros inside sub-messages are not written, and are fives in a message that had no such sub-messages before. -/
theorem mergeBytes_overlay_fails :
    let table := Sample.tableOf nestedFive true
    let outer := table.message "Outer"
    let zero := (new (table.message "Inner")).setSlot 0 (.scalar (.int32 0))
    let m := ((new outer).setSlot 0 (.message (.present zero))).setSlot 1 (.messages ⟨[zero], []⟩)
    let inside := fun m : Message => ((m.slotAt 0).inUse ++ (m.slotAt 1).inUse).map fun x => (x.slotAt 0).values
    Typed table outer m ∧ Settled table outer m ∧ Fits table outer m ∧ Nests table 100 outer m ∧
      inside m = [[.int32 0], [.int32 0]] ∧
      ∃ out, mergeBytes table outer (new outer) (m.encode table outer) = (out, none) ∧
        inside out = [[.int32 5], [.int32 5]] := by
  intro table outer zero m inside
  obtain ⟨hbefore, hmerge, hafter⟩ : inside m = [[.int32 0], [.int32 0]] ∧
      (mergeBytes table outer (new outer) (m.encode table outer)).2 = none ∧
      inside (mergeBytes table outer (new outer) (m.encode table outer)).1 = [[.int32 5], [.int32 5]] := by
    decide +kernel
  have htyped : Typed table outer m := throughout_of_holds 2 (by decide +kernel)
  have hsettled : Settled table outer m := throughout_of_holds 2 (by decide +kernel)
  have hfits : Fits table outer m := throughout_of_holds 2 (by decide +kernel)
  have hnests : Nests table 100 outer m := nests_of_holds 2 (by decide +kernel) (by decide)
  exact ⟨htyped, hsettled, hfits, hnests, hbefore, _, Prod.ext rfl hmerge, hafter⟩

end Message

end Protobuf
