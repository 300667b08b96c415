/-
  Protobuf.Proofs.Tags — the dispatch table of a resolved type.

  The entries of a field are the forms in which it is read (`entries_at`), each under a tag that says the number of
  the field and the wire type of the form (`entry_tag`). The form a field is written in is one of them: whatever a
  slot holds is written as payloads behind the tag of its field (`encodeSlot_eq_written`).
-/

import Protobuf.Proofs.Items

namespace Protobuf

open Schema

namespace Schema

namespace MessageType

variable {type : MessageType} {index : Nat} {field : Field}

/-- The entries that lead to a field are the forms in which it is read. -/
theorem entries_at (hf : type.fields[index]? = some field) :
    type.dispatch.filter (fun entry => entry.field == index) = field.dispatch index := by
  obtain ⟨hlt, rfl⟩ := List.getElem?_eq_some_iff.mp hf
  have hside : ∀ (fields : List Field) (start : Nat), index < start ∨ start + fields.length ≤ index →
      ((fields.zipIdx start).flatMap fun pair => pair.1.dispatch pair.2).filter (fun entry => entry.field == index) = [] := by
    intro fields start hout
    refine List.filter_eq_nil_iff.mpr fun entry he => ?_
    obtain ⟨⟨other, i⟩, hmem, he⟩ := List.mem_flatMap.mp he
    obtain ⟨hge, hi, _⟩ := List.mem_zipIdx hmem
    rw [(Field.number_of_mem_dispatch he).1, beq_iff_eq]
    omega
  have hown : (type.fields[index].dispatch index).filter (fun entry => entry.field == index) =
      type.fields[index].dispatch index :=
    List.filter_eq_self.mpr fun entry he => beq_iff_eq.mpr (Field.number_of_mem_dispatch he).1
  have hlength : (type.fields.take index).length = index := List.length_take_of_le (Nat.le_of_lt hlt)
  have hsplit : type.fields.zipIdx =
      (type.fields.take index).zipIdx ++ (type.fields[index], index) :: (type.fields.drop (index + 1)).zipIdx (index + 1) := by
    conv_lhs => rw [← List.take_append_drop index type.fields, List.drop_eq_getElem_cons hlt, List.zipIdx_append]
    rw [hlength, List.zipIdx_cons, Nat.zero_add]
  show ((type.fields.zipIdx).flatMap fun pair => pair.1.dispatch pair.2).filter _ = _
  rw [hsplit, List.flatMap_append, List.flatMap_cons, List.filter_append, List.filter_append, hown,
    hside _ 0 (.inr (by omega)), hside _ (index + 1) (.inl (by omega)), List.nil_append, List.append_nil]

/-- What an entry's tag says: the number of its field and the form its action reads. -/
theorem Numbered.entry_tag (h : type.Numbered) {entry : Dispatch} (he : entry ∈ type.dispatch) :
    entry.tag ≠ 0 ∧ ∃ field, type.fields[entry.field]? = some field ∧ entry.action ∈ field.strategy.actions ∧
      entry.tag.number = field.number ∧ entry.tag.wireType? = some (field.strategy.form entry.action) := by
  obtain ⟨index, field, hf, he⟩ := mem_dispatch_iff.mp he
  rw [Field.dispatch_eq] at he
  obtain ⟨action, haction, rfl⟩ := List.mem_map.mp he
  have hnumber : (field.entry index action).tag.number = field.number :=
    Tag.number_make (h.number_le field (List.mem_of_getElem? hf)) _
  refine ⟨?_, field, hf, haction, hnumber, Tag.wireType?_make ..⟩
  intro hzero
  rw [hzero] at hnumber
  exact h.number_ne field (List.mem_of_getElem? hf) hnumber.symm

end MessageType

end Schema

/-! ## Writing -/

/-- What is written behind the tag of a field, once for each time that the tag is. -/
def Body.written (body : Body Written) (field : Field) (index : Nat) : Slot Written → List Bytes
  | .scalar value => if field.isWritten body.presence value then [value.encode] else []
  | .scalars values =>
    if field.isPacked then
      if values.isEmpty then [] else [lengthBytes (Scalar.sizeAll values) ++ Scalar.encodeAll values]
    else values.map Scalar.encode
  | .texts values => values.active.map Scalar.encode
  | .message value => value.get?.toList.map Written.framed
  | .messages values => values.active.map Written.framed
  | .map entries => entries.map Entry.encode
  | .member => (body.memberAt field index).toList.map Value.encode

/-- A slot is written as payloads behind the tag of its field, whatever it holds and whatever sizes are remembered. -/
theorem Body.encodeSlot_eq_written (body : Body Written) (field : Field) (index : Nat) (slot : Slot Written) :
    body.encodeSlot field index slot =
      (body.written field index slot).flatMap fun payload => Tag.encode (field.own index).tag ++ payload := by
  show _ = (body.written field index slot).flatMap (field.tagBytes ++ ·)
  cases slot with
  | scalar value =>
    by_cases h : field.isWritten body.presence value = true
    · simp [encodeSlot, written, h]
    · simp [encodeSlot, written, h]
  | scalars values =>
    by_cases hp : field.isPacked = true
    · by_cases he : values.isEmpty = true
      · simp [encodeSlot, written, hp, he]
      · simp [encodeSlot, written, hp, he]
    · simp [encodeSlot, written, hp, List.flatMap_map]
  | texts values | messages values | map entries => simp [encodeSlot, written, List.flatMap_map]
  | message value => cases h : value.get? <;> simp [encodeSlot, written, h]
  | member => cases h : body.memberAt field index <;> simp [encodeSlot, written, h]

namespace Message

variable {table : TypeTable} {type : MessageType} {m : Message}

/-- The bytes of a message are whole fields, each behind a tag that leads back to it, and then the unknown ones. -/
theorem encode_fields (hn : type.Numbered) (ht : Typed table type m) (hf : Fits table type m) :
    ∃ fields, m.encode table type = bytesOf fields ++ m.body.unknown ∧ Complete 0 fields ∧
      ∀ written ∈ fields, ∃ (index : Nat) (field : Field), type.fields[index]? = some field ∧
        written.1 = (field.own index).tag := by
  obtain ⟨body⟩ := m
  refine ⟨body.wireItems table type, ?_, ?_, ?_⟩
  · rw [encode_eq_wire ht hf, wire_mk, Body.wire, Body.wireItems, Body.bytesOf_items]
    rfl
  · cases ht with
    | mk typed parts =>
      cases hf with
      | mk fits _ => exact Body.Writable.complete_items ⟨typed.1, typed.2, fits⟩ hn 0
  · intro written hwritten
    obtain ⟨index, field, _, _, hfield, _, _, rfl⟩ := (Body.mem_wireItems_iff ..).mp hwritten
    exact ⟨index, field, hfield, rfl⟩

end Message

namespace Schema

/-- The entries of a field: two for numbers that are read one by one and in runs, else one. -/
theorem MessageType.entries_of_strategy {type : MessageType} {index : Nat} {field : Field}
    (hf : type.fields[index]? = some field) :
    (∀ plain, field.strategy = .repeated plain ∨ field.strategy = .packed plain →
      plain.kind.wireType ≠ .lengthDelimited ∧
        type.dispatch.filter (fun entry => entry.field == index) =
          [⟨Tag.make field.number plain.kind.wireType, index, .element⟩,
            ⟨Tag.make field.number .lengthDelimited, index, .run⟩]) ∧
    ((∀ plain, field.strategy ≠ .repeated plain ∧ field.strategy ≠ .packed plain) →
      type.dispatch.filter (fun entry => entry.field == index) =
        [⟨Tag.make field.number field.strategy.wireType, index, .single⟩]) := by
  rw [entries_at hf, Field.dispatch]
  constructor
  · intro plain hplain
    have hrun : field.strategy.runKind? = some plain.kind := by
      rcases hplain with h | h <;> rw [h] <;> rfl
    rw [hrun]
    exact ⟨Kind.wireType_ne (Field.kind_of_runKind hrun), rfl⟩
  · intro hother
    have hrun : field.strategy.runKind? = none := by
      cases hs : field.strategy with
      | repeated plain => exact absurd hs (hother plain).1
      | packed plain => exact absurd hs (hother plain).2
      | _ => rfl
    rw [hrun]

/-- The tags of a resolved type lead each to one field and one form, and those that are written are among them. -/
theorem Registry.dispatch_unambiguous {registry : Registry} {file : Descriptor.File} {keepsUnknown : Bool}
    {resolved : File} (h : registry.resolve file keepsUnknown = .ok resolved) {type : MessageType}
    (ht : type ∈ resolved.messageTypes) :
    (type.dispatch.map Dispatch.tag).Nodup ∧
    (∀ entry ∈ type.dispatch, entry.tag ≠ 0 ∧ ∃ field, type.fields[entry.field]? = some field ∧
      entry.tag.number = field.number ∧ entry.tag.wireType? = some (field.strategy.form entry.action) ∧
      ∀ (table : TypeTable) (m : Message) (r : Reader), m.body.Shaped type → r.Valid →
        m.step table type entry.tag r = m.readField table type field entry.field entry.action r ∧
          (m.step table type entry.tag r).Whole entry.tag r) ∧
    (∀ (index : Nat) (field : Field), type.fields[index]? = some field →
      (∀ plain, field.strategy = .repeated plain ∨ field.strategy = .packed plain →
        plain.kind.wireType ≠ .lengthDelimited ∧
          type.dispatch.filter (fun entry => entry.field == index) =
            [⟨Tag.make field.number plain.kind.wireType, index, .element⟩,
              ⟨Tag.make field.number .lengthDelimited, index, .run⟩]) ∧
      ((∀ plain, field.strategy ≠ .repeated plain ∧ field.strategy ≠ .packed plain) →
        type.dispatch.filter (fun entry => entry.field == index) =
          [⟨Tag.make field.number field.strategy.wireType, index, .single⟩]) ∧
      field.own index ∈ type.dispatch ∧
      ∀ (body : Body Written) (slot : Slot Written), body.encodeSlot field index slot =
        (body.written field index slot).flatMap fun payload => Tag.encode (field.own index).tag ++ payload) ∧
    ∀ (table : TypeTable) (m : Message), Message.Typed table type m → Message.Fits table type m →
      ∃ fields, m.encode table type = bytesOf fields ++ m.body.unknown ∧ Complete 0 fields ∧
        ∀ written ∈ fields, ∃ (index : Nat) (field : Field), type.fields[index]? = some field ∧
          written.1 = (field.own index).tag := by
  have hn := (resolve_wellFormed h type ht).toNumbered
  refine ⟨hn.tags_nodup, fun entry he => ?_, fun index field hf => ?_, fun table m => Message.encode_fields hn⟩
  · obtain ⟨hne, field, hf, _, hnumber, hwire⟩ := hn.entry_tag he
    refine ⟨hne, field, hf, hnumber, hwire, fun table m r hm hr => ⟨?_, Message.step_whole hm hr entry.tag⟩⟩
    rw [Message.step_entry hn he hf]
  · obtain ⟨hrun, hsingle⟩ := MessageType.entries_of_strategy hf
    have hown := MessageType.mem_dispatch_iff.mpr ⟨index, field, hf, field.own_mem index⟩
    exact ⟨hrun, hsingle, hown, fun body slot => body.encodeSlot_eq_written field index slot⟩

/-- `weights` is written in runs and `offsets` one by one; both are read in either form. -/
theorem Registry.dispatch_unambiguous_shapes :
    let shape := Sample.Shapes.table.message "demo.shapes.Shape"
    shape.fields.length = 21 ∧ shape.dispatch.length = 24 ∧ (shape.dispatch.map Dispatch.tag).Nodup ∧
    shape.dispatch.filter (fun entry => entry.field == 4) = [⟨40, 4, .element⟩, ⟨42, 4, .run⟩] ∧
    shape.dispatch.filter (fun entry => entry.field == 5) = [⟨48, 5, .element⟩, ⟨50, 5, .run⟩] ∧
    shape.dispatch.filter (fun entry => entry.field == 9) = [⟨81, 9, .single⟩] := by
  intro shape
  obtain ⟨hnamed, hfields, hentries, hweights, hoffsets, hradius⟩ :
      (Sample.Shapes.table.messages.any fun type => type.fullName == "demo.shapes.Shape") = true ∧
      shape.fields.length = 21 ∧ shape.dispatch.length = 24 ∧
      (shape.fields[4]?.map fun field => (field.number, field.strategy)) = some (5, .packed (.scalar .int32)) ∧
      (shape.fields[5]?.map fun field => (field.number, field.strategy)) = some (6, .repeated (.scalar .sint64)) ∧
      (shape.fields[9]?.map fun field => (field.number, field.strategy)) =
        some (10, .member 0 (.plain (.scalar .double))) := by
    decide +kernel
  have hg : Sample.Shapes.table.Generated := generated_tableOf _ _
  obtain ⟨_, _, _, _, hresolve, hmem⟩ := hg shape (TypeTable.message_mem hnamed)
  obtain ⟨hnodup, _, hfield, _⟩ := dispatch_unambiguous hresolve hmem
  refine ⟨hfields, hentries, hnodup, ?_, ?_, ?_⟩
  · obtain ⟨field, hf, hpair⟩ := Option.map_eq_some_iff.mp hweights
    obtain ⟨hnumber, hstrategy⟩ := Prod.mk.inj hpair
    rw [((hfield 4 field hf).1 _ (.inr hstrategy)).2, hnumber]
    rfl
  · obtain ⟨field, hf, hpair⟩ := Option.map_eq_some_iff.mp hoffsets
    obtain ⟨hnumber, hstrategy⟩ := Prod.mk.inj hpair
    rw [((hfield 5 field hf).1 _ (.inl hstrategy)).2, hnumber]
    rfl
  · obtain ⟨field, hf, hpair⟩ := Option.map_eq_some_iff.mp hradius
    obtain ⟨hnumber, hstrategy⟩ := Prod.mk.inj hpair
    have hother : ∀ plain, field.strategy ≠ .repeated plain ∧ field.strategy ≠ .packed plain := by simp [hstrategy]
    rw [(hfield 9 field hf).2.1 hother, hnumber, hstrategy]
    rfl

end Schema

end Protobuf
