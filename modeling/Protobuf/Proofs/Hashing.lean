/-
  Protobuf.Proofs.Hashing — equal messages are hashed as the same bytes.

  What is hashed for a message does not depend on the sign of its zeros (`hashBytes_unsigned`), nor on the order
  of entries or on anything kept aside (`Same.hashBytes_eq`); and equal messages differ in nothing else.
-/

import Protobuf.Proofs.Equality

namespace Protobuf

open Schema

/-! ## The form stays -/

theorem Scalar.kind_unsigned (value : Scalar) : value.unsigned.kind = value.kind := by
  cases value <;> rfl

theorem Value.suits_unsigned {M : Type} (type : ValueType) (value : Value M) :
    value.unsigned.suits type = value.suits type := by
  cases value with
  | scalar v =>
    cases type with
    | plain plain => exact congrArg (· == plain.kind) v.kind_unsigned
    | message ref => rfl
  | message m => rfl

namespace Slot

variable {M : Type} {strategy : Strategy} {slot : Slot M}

theorem Form.unsigned (h : Form strategy slot) : Form strategy slot.unsigned := by
  have hkinds : ∀ {values : List Scalar} {kind : Kind}, (∀ value ∈ values, value.kind = kind) →
      ∀ value ∈ values.map Scalar.unsigned, value.kind = kind := by
    intro values kind h value hmem
    obtain ⟨before, hb, rfl⟩ := List.mem_map.mp hmem
    exact before.kind_unsigned.trans (h before hb)
  cases h with
  | singular kind => exact .singular ((Scalar.kind_unsigned _).trans kind)
  | message => exact .message
  | repeated kinds => exact .repeated (hkinds kinds)
  | packed kinds => exact .packed (hkinds kinds)
  | texts kinds => exact .texts (hkinds kinds)
  | messages => exact .messages
  | @map key value entries suit nodup =>
    refine .map (fun entry hmem => ?_) ?_
    · obtain ⟨before, hb, rfl⟩ := List.mem_map.mp hmem
      have hbefore := suit before hb
      rw [Entry.suits, Bool.and_eq_true] at hbefore ⊢
      exact ⟨hbefore.1, (before.value.suits_unsigned value).trans hbefore.2⟩
    · rw [List.map_map]
      exact nodup
  | member => exact .member

theorem inUse_unsigned (slot : Slot M) : slot.unsigned.inUse = slot.inUse := by
  cases slot with
  | map entries =>
    show (entries.map Entry.unsigned).filterMap _ = entries.filterMap _
    rw [List.filterMap_map]
    refine List.filterMap_congr fun entry _ => ?_
    obtain ⟨key, value⟩ := entry
    cases value <;> rfl
  | _ => rfl

theorem aside_unsigned (slot : Slot M) : slot.unsigned.aside = slot.aside := by
  cases slot <;> rfl

end Slot

theorem Choice.selected_of_unsigned {M : Type} (choice : Choice M) (index : Nat) (x : M)
    (h : choice.unsigned.selected = some ⟨index, .message x⟩) : choice.selected = some ⟨index, .message x⟩ := by
  obtain ⟨⟨_, value⟩, hselected, he⟩ := Option.map_eq_some_iff.mp h
  cases value with
  | scalar v => cases he
  | message y =>
    cases he
    exact hselected

namespace Body

variable {M : Type} {body : Body M} {type : MessageType}

theorem Shaped.unsigned (h : body.Shaped type) : body.unsigned.Shaped type where
  length_slots := (List.length_map ..).trans h.length_slots
  slots := by
    rintro ⟨field, slot⟩ hp
    obtain ⟨index, hi⟩ := List.getElem?_of_mem hp
    obtain ⟨hf, hs⟩ := List.getElem?_zip_eq_some.mp hi
    obtain ⟨before, hbefore, rfl⟩ := Option.map_eq_some_iff.mp ((List.getElem?_map ..).symm.trans hs)
    exact Slot.suits_iff.mpr (h.form hf hbefore).unsigned
  length_choices := (List.length_map ..).trans h.length_choices
  members := by
    rintro ⟨choice, slot⟩ hp member hm
    have hc : (body.choices.map Choice.unsigned)[slot]? = some choice := List.mem_zipIdx_iff_getElem?.mp hp
    rw [List.getElem?_map] at hc
    obtain ⟨before, hbefore, rfl⟩ := Option.map_eq_some_iff.mp hc
    obtain ⟨selected, hselected, rfl⟩ := Option.map_eq_some_iff.mp hm
    have hsuits := h.member hbefore hselected
    unfold Member.suits at hsuits ⊢
    simp only [Member.unsigned, Value.suits_unsigned]
    exact hsuits
  length_presence := h.length_presence
  presence := h.presence
  unknown := h.unknown

theorem mem_parts_unsigned {held : Slot M → List M} {pick : Choice M → Option (Member M)}
    (hheld : ∀ slot, held slot.unsigned = held slot)
    (hpick : ∀ choice index x, pick choice.unsigned = some ⟨index, .message x⟩ → pick choice = some ⟨index, .message x⟩)
    {part : Nat × M} (h : part ∈ body.unsigned.parts held pick) : part ∈ body.parts held pick := by
  rcases mem_parts_iff.mp h with ⟨slot, hs, hx⟩ | ⟨slot, choice, hc, hsel⟩
  · obtain ⟨before, hbefore, rfl⟩ := Option.map_eq_some_iff.mp ((List.getElem?_map ..).symm.trans hs)
    rw [hheld] at hx
    exact mem_parts_iff.mpr (.inl ⟨before, hbefore, hx⟩)
  · obtain ⟨before, hbefore, rfl⟩ := Option.map_eq_some_iff.mp ((List.getElem?_map ..).symm.trans hc)
    exact mem_parts_iff.mpr (.inr ⟨slot, before, hbefore, hpick before _ _ hsel⟩)

end Body

theorem Message.Held.unsigned {table : TypeTable} {type : MessageType} {m : Message} (h : Held table type m) :
    Held table type m.unsigned := by
  induction h with
  | @mk type body shaped _ _ ihUse ihAside =>
    have hparts : Held table type (Message.mk (body.map Message.unsigned)) :=
      held_of_mapped (Body.Mapped.map Message.unsigned body) shaped ihUse ihAside
    rw [unsigned_mk]
    cases hparts with
    | mk shaped inUse aside =>
      refine .mk shaped.unsigned (fun part hp => inUse part ?_) fun part hp => aside part ?_
      · exact Body.mem_parts_unsigned Slot.inUse_unsigned Choice.selected_of_unsigned hp
      · exact Body.mem_parts_unsigned Slot.aside_unsigned (fun _ _ _ => id) hp

/-! ## The bytes stay -/

namespace Hash

/-- Both zeros are hashed as the positive one. -/
theorem scalar_unsigned (value : Scalar) : scalar value.unsigned = scalar value := by
  cases value with
  | float bits =>
    by_cases h : Binary.Format.single.isZero bits.toNat = true
    · simp [scalar, Scalar.unsigned, float, h]
    · simp [scalar, Scalar.unsigned, h]
  | double bits =>
    by_cases h : Binary.Format.double.isZero bits.toNat = true
    · simp [scalar, Scalar.unsigned, float, h]
    · simp [scalar, Scalar.unsigned, h]
  | _ => rfl

theorem scalars_unsigned (values : List Scalar) : (values.map Scalar.unsigned).map scalar = values.map scalar := by
  rw [List.map_map]
  exact List.map_congr_left fun value _ => scalar_unsigned value

end Hash

variable {f : Message → Bytes}

theorem Value.hashBytes_unsigned {value : Value Message} (h : ∀ x, value = .message x → f x.unsigned = f x) :
    ((value.map Message.unsigned).unsigned.map f).hashBytes = (value.map f).hashBytes := by
  cases value with
  | scalar v => exact Hash.scalar_unsigned v
  | message x => exact h x rfl

theorem Slot.hashBytes_unsigned {slot : Slot Message} (h : ∀ x ∈ slot.inUse, f x.unsigned = f x) :
    ((slot.mapParts Message.unsigned Message.unsigned).unsigned.mapParts f f).hashBytes = (slot.mapParts f f).hashBytes := by
  cases slot with
  | scalar v => exact Hash.scalar_unsigned v
  | scalars vs => exact congrArg Hash.list (Hash.scalars_unsigned vs)
  | texts vs => exact congrArg Hash.list (Hash.scalars_unsigned vs.active)
  | message value =>
    cases value with
    | absent kept => rfl
    | present x => exact congrArg (fun stream => Hash.option (some stream)) (h x (List.mem_singleton_self x))
  | messages xs =>
    refine congrArg Hash.list ?_
    show (xs.active.map Message.unsigned).map f = xs.active.map f
    rw [List.map_map]
    exact List.map_congr_left h
  | map entries =>
    refine congrArg Hash.map ?_
    simp only [List.map_map]
    refine List.map_congr_left fun entry hmem => congrArg (Hash.scalar entry.key ++ ·) ?_
    refine Value.hashBytes_unsigned fun x hx => h x (List.mem_filterMap.mpr ⟨entry, hmem, ?_⟩)
    rw [hx]
    rfl
  | member => rfl

section Levels

variable {table : TypeTable} {type : MessageType} {g : MessageType → Message → Bytes}

theorem Choice.hashBytes_unsigned {choice : Choice Message}
    (h : ∀ index x, choice.selected = some ⟨index, .message x⟩ →
      g (table.childAt type index) x.unsigned = g (table.childAt type index) x)
    (spare spare' : Option (Member Bytes)) :
    let unsigned := (choice.mapParts Message.unsigned Message.unsigned).unsigned
    hashBytes type ⟨unsigned.selected.map (Member.mapTyped table type g), spare⟩ =
      hashBytes type ⟨choice.selected.map (Member.mapTyped table type g), spare'⟩ := by
  intro unsigned
  obtain ⟨selected, kept⟩ := choice
  cases selected with
  | none => rfl
  | some member =>
    let f := g (table.childAt type member.field)
    have hvalue : ((member.value.map Message.unsigned).unsigned.map f).hashBytes = (member.value.map f).hashBytes :=
      Value.hashBytes_unsigned fun x hx => h member.field x (by rw [← hx])
    exact congrArg (fun stream => Hash.option (some (_ ++ stream))) hvalue

theorem Body.hashBytes_unsigned {body : Body Message}
    (h : ∀ part ∈ body.inUse, g (table.childAt type part.1) part.2.unsigned = g (table.childAt type part.1) part.2) :
    ((body.map Message.unsigned).unsigned.mapTyped table type g).hashBytes type =
      (body.mapTyped table type g).hashBytes type := by
  have hslots : ((body.map Message.unsigned).unsigned.mapTyped table type g).slots.map Slot.hashBytes =
      (body.mapTyped table type g).slots.map Slot.hashBytes := by
    refine List.ext_getElem? fun index => ?_
    rw [List.getElem?_map, List.getElem?_map, slots_mapTyped, slots_mapTyped]
    simp only [unsigned, Body.map, Body.mapParts, List.getElem?_map, Option.map_map]
    cases hslot : body.slots[index]? with
    | none => rfl
    | some slot =>
      refine congrArg some (Slot.hashBytes_unsigned fun x hx => ?_)
      exact h (index, x) (mem_parts_iff.mpr (.inl ⟨slot, hslot, hx⟩))
  have hchoices : ((body.map Message.unsigned).unsigned.mapTyped table type g).choices.map (Choice.hashBytes type) =
      (body.mapTyped table type g).choices.map (Choice.hashBytes type) := by
    simp only [unsigned, Body.map, Body.mapParts, Body.mapTyped, List.map_map]
    refine List.map_congr_left fun choice hmem => Choice.hashBytes_unsigned (fun index x hx => ?_) _ _
    obtain ⟨slot, hslot⟩ := List.getElem?_of_mem hmem
    exact h (index, x) (mem_parts_iff.mpr (.inr ⟨slot, choice, hslot, hx⟩))
  simp only [hashBytes, List.flatMap_def, hslots, hchoices]
  rfl

end Levels

namespace Message

theorem hashBytes_unsigned (table : TypeTable) (type : MessageType) (m : Message) :
    m.unsigned.hashBytes table type = m.hashBytes table type := by
  induction m using Message.induct generalizing type with
  | step body ih =>
    rw [unsigned_mk, hashBytes, hashBytes, foldTyped_mk, foldTyped_mk]
    exact Body.hashBytes_unsigned fun part hp => ih part hp (table.childAt type part.1)

/-- Messages of a type are equal just if they have the same content, maps in any order, with no NaN in it and up to
    the sign of zeros; and then they are hashed as the same bytes. -/
theorem equal_hash_alike (table : TypeTable) (type : MessageType) (a b : Message) (ha : Held table type a)
    (hb : Held table type b) :
    (a.equal b = true ↔ a.isNumeric = true ∧ a.unsigned.Same b.unsigned) ∧
      (a.equal b = true → a.hashBytes table type = b.hashBytes table type) := by
  have hdecides : a.Decides b := ha.decides hb
  refine ⟨hdecides, fun h => ?_⟩
  obtain ⟨_, hsame⟩ := hdecides.mp h
  calc a.hashBytes table type = a.unsigned.hashBytes table type := (hashBytes_unsigned table type a).symm
    _ = b.unsigned.hashBytes table type := hsame.hashBytes_eq hb.unsigned
    _ = b.hashBytes table type := hashBytes_unsigned table type b

set_option maxRecDepth 100000 in
/-- Two labels in either order, and in a child a scale of zero with either sign; the second shape also had an
    origin, a vertex and a corner before it was cleared. -/
theorem equal_hash_alike_shapes :
    let table := Sample.Shapes.table
    let shape := table.message "demo.shapes.Shape"
    let one := [0x42, 5, 0x0a, 1, 0x61, 0x10, 1]
    let two := [0x42, 5, 0x0a, 1, 0x62, 0x10, 2]
    let a := (mergeBytes table shape (new shape) (one ++ two ++ [0xa2, 1, 6, 0x95, 1, 0, 0, 0, 0])).1
    let used := (mergeBytes table shape (new shape) [0x1a, 2, 0x08, 5, 0x22, 2, 0x08, 6, 0x5a, 2, 0x08, 7]).1
    let b := (mergeBytes table shape (used.clear shape) (two ++ one ++ [0xa2, 1, 6, 0x95, 1, 0, 0, 0, 0x80])).1
    let scales := fun m : Message => (m.slotAt 19).inUse.map fun child => (child.slotAt 17).values
    (a.slotAt 7).values ≠ (b.slotAt 7).values ∧ scales a = [[.float 0]] ∧ scales b = [[.float 0x80000000]] ∧
      a.body.aside.length = 0 ∧ b.body.aside.length = 3 ∧ a.equal b = true ∧ a.unsigned.Same b.unsigned ∧
      a.hashBytes table shape = b.hashBytes table shape := by
  intro table shape one two a used b scales
  have hg : table.Generated := generated_tableOf _ _
  obtain ⟨hnamed, hlabels, hzero, hnegative, hnone, haside, hequal⟩ :
      (table.messages.any fun type => type.fullName == "demo.shapes.Shape") = true ∧
      (a.slotAt 7).values ≠ (b.slotAt 7).values ∧ scales a = [[.float 0]] ∧ scales b = [[.float 0x80000000]] ∧
      a.body.aside.length = 0 ∧ b.body.aside.length = 3 ∧ a.equal b = true := by
    decide +kernel
  have hw := hg.wellFormed (TypeTable.message_mem hnamed)
  have hnew := held_new table hw
  obtain ⟨hiff, hhash⟩ := equal_hash_alike table shape a b (held_merge hg hw hnew _)
    (held_merge hg hw (held_clear hw (held_merge hg hw hnew _)) _)
  exact ⟨hlabels, hzero, hnegative, hnone, haside, hequal, (hiff.mp hequal).2, hhash hequal⟩

end Message

end Protobuf
