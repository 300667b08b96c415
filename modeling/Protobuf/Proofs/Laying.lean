/-
  Protobuf.Proofs.Laying — the bytes of one field lay it over what was there.

  `Lays` says of a message that merging its bytes, wherever that starts, lays it over the old content.
  From this for the sub-messages of a field, reading the field's bytes changes its slot and its presence
  bit to what the overlay has there, and nothing else (`absorbs_slot`, `Sets`), or its choice if it is a
  member (`absorbs_member`).
-/

import Protobuf.Proofs.Encoding
import Protobuf.Proofs.Overlay

namespace Protobuf

open Schema

namespace Message

variable {table : TypeTable} {type child : MessageType} {index room : Nat} {field : Field} {m : Message}

variable (table) in
/-- Wherever its bytes are merged, the message is laid over what was there. -/
def Lays (type : MessageType) (room : Nat) (new : Message) : Prop :=
  ∀ start old, Held table type start → start.Same old →
    ∃ out, Absorbs table type room (new.wire table type) start out ∧ out.Same (new.overlay table type old)

/-! ## Where reading starts -/

theorem held_getOrInit (hw : child.WellFormed) {value : Singular Message}
    (hinUse : ∀ x ∈ (Slot.message value).inUse, Held table child x)
    (haside : ∀ x ∈ (Slot.message value).aside, Held table child x) {old : Option Message}
    (h : Option.Rel Same value.get? old) :
    Held table child (value.getOrInit (clear child) (new child)) ∧
      (value.getOrInit (clear child) (new child)).Same (old.getD (new child)) := by
  cases value with
  | present x =>
    cases h with
    | some hsame => exact ⟨hinUse x (List.mem_singleton_self x), hsame⟩
  | absent kept =>
    cases h
    cases kept with
    | none => exact ⟨held_new table hw, same_refl _⟩
    | some x =>
      have hx := haside x (List.mem_singleton_self x)
      exact ⟨held_clear hw hx, clear_same hx⟩

theorem held_spare (hw : child.WellFormed) {values : Repeated Message} (h : ∀ x ∈ values.reserve, Held table child x) :
    Held table child (values.spare (clear child) (new child)) ∧
      (values.spare (clear child) (new child)).Same (new child) := by
  unfold Repeated.spare
  split
  · rename_i x _ hreserve
    have hx := h x (hreserve ▸ List.mem_cons_self ..)
    exact ⟨held_clear hw hx, clear_same hx⟩
  · exact ⟨held_new table hw, same_refl _⟩

variable {valueType : ValueType} {choice : Choice Message} {plain : PlainType} {key : ScalarType}
  {entries : List (Entry Message)} {slot : Nat}

theorem held_select (hw : child.WellFormed)
    (hcurrent : ∀ x, choice.selected = some ⟨index, .message x⟩ → Held table child x)
    (hspare : ∀ x, choice.spare = some ⟨index, .message x⟩ → Held table child x) {old : Choice Message}
    (h : choice.Rel Same old) :
    Held table child (choice.select (clear child) (new child) index).1 ∧
      (choice.select (clear child) (new child) index).1.Same ((old.current index).getD (new child)) := by
  have hrel := h.current index
  rcases choice.select_cases (clear child) (new child) index with hc | ⟨hc, hs | ⟨x, hx, hs⟩⟩
  · obtain ⟨y, hy, hsame⟩ := exists_of_rel hrel hc
    rw [hy]
    exact ⟨hcurrent _ (Choice.current_eq_some_iff.mp hc), hsame⟩
  · rw [hs, (rel_none hrel).mp hc]
    exact ⟨held_new table hw, same_refl _⟩
  · rw [hs, (rel_none hrel).mp hc]
    exact ⟨held_clear hw (hspare x hx), clear_same (hspare x hx)⟩

/-! ## One field -/

/-- A list of values is absorbed one by one; `P` says what the slot holds after the first ones. -/
theorem absorbs_each {α : Type} {bytes : α → Bytes} {P : List α → Slot Message → Prop} {xs : List α}
    (step : ∀ done x slot, x ∈ xs → P done slot → ∃ slot', P (done ++ [x]) slot' ∧
      Absorbs table type room (bytes x) (m.setSlot index slot) (m.setSlot index slot'))
    {slot : Slot Message} (hs : m.body.slots[index]? = some slot) (h : P [] slot) :
    ∃ slot', P xs slot' ∧ Absorbs table type room (xs.flatMap bytes) m (m.setSlot index slot') := by
  suffices hrest : ∀ rest done slot, (∀ x ∈ rest, x ∈ xs) → P done slot → ∃ slot', P (done ++ rest) slot' ∧
      Absorbs table type room (rest.flatMap bytes) (m.setSlot index slot) (m.setSlot index slot') by
    have := hrest xs [] slot (fun _ => id) h
    rwa [setSlot_self hs] at this
  intro rest
  induction rest with
  | nil =>
    intro done slot _ hP
    rw [List.append_nil]
    exact ⟨slot, hP, absorbs_nil _⟩
  | cons x rest ih =>
    intro done slot hmem hP
    obtain ⟨next, hnext, habsorbs⟩ := step done x slot (hmem x (List.mem_cons_self ..)) hP
    obtain ⟨last, hlast, hmore⟩ := ih (done ++ [x]) next (fun y hy => hmem y (List.mem_cons_of_mem _ hy)) hnext
    rw [List.append_assoc] at hlast
    exact ⟨last, hlast, habsorbs.trans hmore⟩

theorem absorbs_elements (h : type.Numbered) (hf : type.fields[index]? = some field)
    (hstrategy : field.strategy = .repeated plain) {old : List Scalar} (hs : m.body.slots[index]? = some (.scalars old))
    {values : List Scalar} (hkinds : ∀ value ∈ values, value.kind = plain.kind) (hsized : ∀ value ∈ values, value.Sized) :
    Absorbs table type room (values.flatMap fun value => field.tagBytes ++ value.encode) m
      (m.setSlot index (.scalars (old ++ values))) := by
  have hlt := (List.getElem?_eq_some_iff.mp hs).1
  have hstep : ∀ done value slot, value ∈ values → slot = .scalars (old ++ done) →
      ∃ slot', slot' = .scalars (old ++ (done ++ [value])) ∧
        Absorbs table type room (field.tagBytes ++ value.encode) (m.setSlot index slot) (m.setSlot index slot') := by
    rintro done value _ hvalue rfl
    refine ⟨_, rfl, ?_⟩
    have hone : Absorbs table type room (field.tagBytes ++ value.encode) (m.setSlot index (.scalars (old ++ done))) _ :=
      absorbs_element h hf hstrategy (slotAt_setSlot hlt _) (hkinds value hvalue) (hsized value hvalue)
    rwa [setSlot_setSlot, List.append_assoc] at hone
  obtain ⟨_, rfl, habsorbs⟩ := absorbs_each hstep hs (by rw [List.append_nil])
  exact habsorbs

/-- The texts of a slot are the old ones and those that are done. -/
def TextsAfter (old : Repeated Scalar) (done : List Scalar) (slot : Slot Message) : Prop :=
  ∃ texts, slot = .texts texts ∧ texts.active = old.active ++ done

theorem absorbs_texts (h : type.Numbered) (hf : type.fields[index]? = some field)
    (hstrategy : field.strategy = .texts plain) {old : Repeated Scalar} (hs : m.body.slots[index]? = some (.texts old))
    {values : List Scalar} (hkinds : ∀ value ∈ values, value.kind = plain.kind) (hsized : ∀ value ∈ values, value.Sized) :
    ∃ texts, texts.active = old.active ++ values ∧
      Absorbs table type room (values.flatMap fun value => field.tagBytes ++ value.encode) m
        (m.setSlot index (.texts texts)) := by
  have hlt := (List.getElem?_eq_some_iff.mp hs).1
  have hstep : ∀ done value slot, value ∈ values → TextsAfter old done slot →
      ∃ slot', TextsAfter old (done ++ [value]) slot' ∧
        Absorbs table type room (field.tagBytes ++ value.encode) (m.setSlot index slot) (m.setSlot index slot') := by
    rintro done value _ hvalue ⟨texts, rfl, hactive⟩
    refine ⟨_, ⟨texts.push value, rfl, ?_⟩, ?_⟩
    · rw [Repeated.active_push, hactive, List.append_assoc]
    · have hone : Absorbs table type room (field.tagBytes ++ value.encode) (m.setSlot index (.texts texts)) _ :=
        absorbs_text h hf hstrategy (Nat.lt_of_lt_of_eq hlt (List.length_set ..).symm) (slotAt_setSlot hlt _)
          (hkinds value hvalue) (hsized value hvalue)
      rwa [setSlot_setSlot] at hone
  obtain ⟨_, ⟨texts, rfl, hactive⟩, habsorbs⟩ := absorbs_each hstep hs ⟨old, rfl, (List.append_nil _).symm⟩
  exact ⟨texts, hactive, habsorbs⟩

/-- The messages of a slot are the old ones and those that are done, each laid over a new one. What is kept aside
    can be read into. -/
def MessagesAfter (table : TypeTable) (child : MessageType) (old : Repeated Message) (done : List Message)
    (slot : Slot Message) : Prop :=
  ∃ messages added, slot = .messages messages ∧ messages.active = old.active ++ added ∧
    List.Forall₂ (fun out x => out.Same (x.overlay table child (new child))) added done ∧
    ∀ x ∈ messages.reserve, Held table child x

theorem absorbs_messages (h : type.Numbered) (hf : type.fields[index]? = some field) {ref : TypeRef}
    (hstrategy : field.strategy = .messages ref) (hw : (table.childAt type index).WellFormed) {old : Repeated Message}
    (hs : m.body.slots[index]? = some (.messages old))
    (hreserve : ∀ x ∈ old.reserve, Held table (table.childAt type index) x) {values : List Message}
    (hlays : ∀ x ∈ values, Lays table (table.childAt type index) (room - 1) x)
    (hlt : ∀ x ∈ values, (x.wire table (table.childAt type index)).length < 0x100000000)
    (hroom : ∀ x ∈ values, 0 < room) :
    ∃ messages added, messages.active = old.active ++ added ∧
      List.Forall₂ (fun out x => out.Same (x.overlay table (table.childAt type index) (new (table.childAt type index))))
        added values ∧
      Absorbs table type room
        (values.flatMap fun x => field.tagBytes ++ Frame.encode (x.wire table (table.childAt type index))) m
        (m.setSlot index (.messages messages)) := by
  have hindex := (List.getElem?_eq_some_iff.mp hs).1
  generalize hchild : table.childAt type index = child at *
  have hstep : ∀ done x slot, x ∈ values → MessagesAfter table child old done slot →
      ∃ slot', MessagesAfter table child old (done ++ [x]) slot' ∧
        Absorbs table type room (field.tagBytes ++ Frame.encode (x.wire table child)) (m.setSlot index slot)
          (m.setSlot index slot') := by
    rintro done x _ hx ⟨messages, added, rfl, hactive, hadded, hheld⟩
    obtain ⟨hstart, hnew⟩ := held_spare hw hheld
    obtain ⟨out, hout, hsame⟩ := hlays x hx _ _ hstart hnew
    refine ⟨_, ⟨messages.push out, added ++ [out], rfl, ?_, ?_, ?_⟩, ?_⟩
    · rw [Repeated.active_push, hactive, List.append_assoc]
    · exact List.rel_append hadded (.cons hsame .nil)
    · exact fun y hy => hheld y (List.mem_of_mem_drop hy)
    · subst hchild
      have hone : Absorbs table type room (field.tagBytes ++ Frame.encode (x.wire table (table.childAt type index)))
          (m.setSlot index (.messages messages)) _ :=
        absorbs_added h hf hstrategy (Nat.lt_of_lt_of_eq hindex (List.length_set ..).symm) (slotAt_setSlot hindex _)
          (hlt x hx) (hroom x hx) hout
      rwa [setSlot_setSlot] at hone
  obtain ⟨_, ⟨messages, added, rfl, hactive, hadded, _⟩, habsorbs⟩ :=
    absorbs_each hstep hs ⟨old, [], rfl, (List.append_nil _).symm, .nil, hreserve⟩
  exact ⟨messages, added, hactive, hadded, habsorbs⟩

/-- What is written of a map value: a value of its type, whose message can be read and is laid over a new one. -/
structure EntryWritten (table : TypeTable) (child : MessageType) (room : Nat) (key : ScalarType) (valueType : ValueType)
    (entry : Entry Message) : Prop where
  suits : entry.suits key valueType = true
  key_sized : entry.key.Sized
  value_sized : ∀ v, entry.value = .scalar v → v.Sized
  lt : (entry.map fun x => x.wire table child).wire.length < 0x100000000
  lays : ∀ x, entry.value = .message x → 0 < room ∧ (x.wire table child).length < 0x100000000 ∧
    Lays table child (room - 1) x

theorem EntryWritten.absorbs (h : type.Numbered) (hf : type.fields[index]? = some field)
    (hstrategy : field.strategy = .map key valueType) (hw : (table.childAt type index).WellFormed)
    (hslot : m.slotAt index = .map entries) {entry : Entry Message}
    (he : EntryWritten table (table.childAt type index) room key valueType entry) :
    ∃ out, out.key = entry.key ∧
      out.value.Rel Same (entry.value.map fun x => x.overlay table (table.childAt type index) (new (table.childAt type index))) ∧
      Absorbs table type room
        (field.tagBytes ++ Frame.encode (entry.map fun x => x.wire table (table.childAt type index)).wire) m
        (m.setSlot index (.map (Entry.insert entries out))) := by
  obtain ⟨k, value⟩ := entry
  obtain ⟨hkind, hvalue⟩ := Bool.and_eq_true_iff.mp he.suits
  have hkey : k.kind = .scalar key := eq_of_beq hkind
  have hsuits := (value.suits_map (fun x => x.wire table (table.childAt type index)) valueType).trans hvalue
  cases value with
  | scalar v =>
    refine ⟨⟨k, .scalar v⟩, rfl, .scalar v, ?_⟩
    have hsized : ∀ w, Value.scalar v = (Value.scalar w : Value Bytes) → w.Sized := by
      rintro _ ⟨⟩
      exact he.value_sized v rfl
    exact absorbs_entry h hf hstrategy hslot hkey he.key_sized hsuits hsized he.lt (.scalar v)
  | message x =>
    obtain ⟨hroom, hlen, hlays⟩ := he.lays x rfl
    obtain ⟨out, hout, hsame⟩ := hlays _ _ (held_new table hw) (same_refl _)
    refine ⟨⟨k, .message out⟩, rfl, .message hsame, ?_⟩
    have hsized : ∀ w, Value.message (x.wire table (table.childAt type index)) = .scalar w → w.Sized := by
      rintro _ ⟨⟩
    exact absorbs_entry h hf hstrategy hslot hkey he.key_sized hsuits hsized he.lt (.message ⟨hroom, hlen, hout⟩)

/-- The entries that are done, each message laid over a new one, were put into the old map. -/
def EntriesAfter (table : TypeTable) (child : MessageType) (old done : List (Entry Message)) (slot : Slot Message) : Prop :=
  ∃ added, slot = .map (added.foldl Entry.insert old) ∧
    List.Forall₂ (fun a b => a.key = b.key ∧ a.value.Rel Same b.value) added
      (done.map (Entry.map fun x => x.overlay table child (new child)))

theorem absorbs_entries (h : type.Numbered) (hf : type.fields[index]? = some field)
    (hstrategy : field.strategy = .map key valueType) (hw : (table.childAt type index).WellFormed)
    {old : List (Entry Message)} (hs : m.body.slots[index]? = some (.map old))
    (hentries : ∀ entry ∈ entries, EntryWritten table (table.childAt type index) room key valueType entry) :
    ∃ added, List.Forall₂ (fun a b => a.key = b.key ∧ a.value.Rel Same b.value) added
        (entries.map (Entry.map fun x => x.overlay table (table.childAt type index) (new (table.childAt type index)))) ∧
      Absorbs table type room (entries.flatMap fun entry =>
          field.tagBytes ++ Frame.encode (entry.map fun x => x.wire table (table.childAt type index)).wire) m
        (m.setSlot index (.map (added.foldl Entry.insert old))) := by
  have hindex := (List.getElem?_eq_some_iff.mp hs).1
  have hstep : ∀ done entry slot, entry ∈ entries → EntriesAfter table (table.childAt type index) old done slot →
      ∃ slot', EntriesAfter table (table.childAt type index) old (done ++ [entry]) slot' ∧
        Absorbs table type room
          (field.tagBytes ++ Frame.encode (entry.map fun x => x.wire table (table.childAt type index)).wire)
          (m.setSlot index slot) (m.setSlot index slot') := by
    rintro done entry _ hentry ⟨added, rfl, hadded⟩
    obtain ⟨out, hkey, hvalue, hone⟩ := (hentries entry hentry).absorbs h hf hstrategy hw (slotAt_setSlot hindex _)
    refine ⟨_, ⟨added ++ [out], rfl, ?_⟩, ?_⟩
    · rw [List.map_append]
      exact List.rel_append hadded (.cons ⟨hkey, hvalue⟩ .nil)
    · rw [List.foldl_append]
      rwa [setSlot_setSlot] at hone
  obtain ⟨_, ⟨added, rfl, hadded⟩, habsorbs⟩ := absorbs_each hstep hs ⟨[], rfl, .nil⟩
  exact ⟨added, hadded, habsorbs⟩

/-- The second message is the first with another slot for the field, marked present if `presence` has its bit. -/
structure Sets (field : Field) (index : Nat) (presence : PresenceBits) (slot : Slot Message) (m m' : Message) : Prop where
  slots : m'.body.slots = m.body.slots.set index slot
  choices : m'.body.choices = m.body.choices
  unknown : m'.body.unknown = m.body.unknown
  length_presence : m'.body.presence.length = m.body.presence.length
  isSet : ∀ bit, m'.body.presence.isSet bit =
    (m.body.presence.isSet bit || (field.presenceBit == some bit && presence.isSet bit))

theorem sets_setSlot {presence : PresenceBits} (h : ∀ bit, field.presenceBit = some bit → presence.isSet bit = false)
    (m : Message) (slot : Slot Message) : Sets field index presence slot m (m.setSlot index slot) := by
  refine ⟨rfl, rfl, rfl, rfl, fun bit => ?_⟩
  have hfalse : (field.presenceBit == some bit && presence.isSet bit) = false := by
    rw [Bool.and_eq_false_imp]
    exact fun he => h bit (eq_of_beq he)
  rw [hfalse, Bool.or_false]
  rfl

theorem sets_setScalar {presence : PresenceBits}
    (h : ∀ bit, field.presenceBit = some bit → presence.isSet bit = true ∧ bit / 32 < m.body.presence.length)
    (value : Scalar) : Sets field index presence (.scalar value) m (m.setScalar field index value) := by
  unfold setScalar mark
  cases hbit : field.presenceBit with
  | none =>
    refine sets_setSlot (fun bit he => ?_) m _
    rw [hbit] at he
    cases he
  | some bit =>
    obtain ⟨hset, hlt⟩ := h bit hbit
    refine ⟨rfl, rfl, rfl, PresenceBits.length_set .., fun other => ?_⟩
    show (m.body.presence.set bit).isSet other = _
    rw [PresenceBits.isSet_set hlt, hbit]
    congr 1
    by_cases he : other = bit
    · subst he
      simp [hset]
    · have hne : (some bit == some other) = false := beq_false_of_ne fun e => he (Option.some.inj e).symm
      rw [beq_false_of_ne he, hne, Bool.false_and]

theorem presenceBit_eq_none (hw : type.WellFormed) (hf : type.fields[index]? = some field)
    (h : ∀ plain presence, field.strategy ≠ .singular plain presence) : field.presenceBit = none := by
  cases hbit : field.presenceBit with
  | none => rfl
  | some bit =>
    obtain ⟨_, plain, presence, hs⟩ := hw.bits field (List.mem_of_getElem? hf) bit hbit
    exact absurd hs (h plain presence)

theorem absorbs_single (hw : type.WellFormed) (hf : type.fields[index]? = some field) {tracked : Presence}
    (hstrategy : field.strategy = .singular plain tracked) (hlen : m.body.presence.length = type.presenceWords)
    {old value : Scalar} (hs : m.body.slots[index]? = some (.scalar old)) (hkind : value.kind = plain.kind)
    (hsized : value.Sized) (presence : PresenceBits) :
    ∃ m', Sets field index presence (.scalar (if field.isWritten presence value then value else old)) m m' ∧
      Absorbs table type room (if field.isWritten presence value then field.tagBytes ++ value.encode else []) m m' := by
  by_cases hwritten : field.isWritten presence value = true
  · rw [if_pos hwritten, if_pos hwritten]
    refine ⟨_, sets_setScalar (fun bit hbit => ?_) value, absorbs_scalar hw.toNumbered hf hstrategy hkind hsized⟩
    rw [Field.isWritten, hbit] at hwritten
    exact ⟨hwritten, hlen ▸ (hw.bits field (List.mem_of_getElem? hf) bit hbit).1⟩
  · rw [if_neg hwritten, if_neg hwritten]
    refine ⟨_, sets_setSlot (fun bit hbit => ?_) m _, ?_⟩
    · rw [Field.isWritten, hbit] at hwritten
      exact Bool.eq_false_iff.mpr hwritten
    · rw [setSlot_self hs]
      exact absorbs_nil m

theorem entryWritten_of_mem {entry : Entry Message} (hsuits : entry.suits key valueType = true)
    (hsized : ∀ value ∈ (Slot.map entries).values, value.Sized)
    (hlt : ∀ n ∈ ((Slot.map entries).mapParts (fun x => (x.wire table child).length) fun x =>
      (x.wire table child).length).lengths field, n < 0x100000000)
    (hlays : ∀ x ∈ (Slot.map entries).inUse, 0 < room ∧ Lays table child (room - 1) x) (he : entry ∈ entries) :
    EntryWritten table child room key valueType entry where
  suits := hsuits
  key_sized := hsized _ (List.mem_flatMap.mpr ⟨entry, he, List.mem_cons_self ..⟩)
  value_sized := by
    intro v hv
    refine hsized v (List.mem_flatMap.mpr ⟨entry, he, List.mem_cons_of_mem _ ?_⟩)
    rw [hv]
    exact List.mem_singleton_self v
  lt := by
    rw [Entry.length_wire, Entry.map_map]
    refine hlt _ (List.mem_append_left _ ?_)
    rw [List.map_map]
    exact List.mem_map_of_mem he
  lays := by
    intro x hx
    have hmem : x ∈ (Slot.map entries).inUse := by
      refine List.mem_filterMap.mpr ⟨entry, he, ?_⟩
      rw [hx]
      rfl
    obtain ⟨hroom, hl⟩ := hlays x hmem
    refine ⟨hroom, hlt _ (List.mem_append_right _ ?_), hl⟩
    show _ ∈ ((Slot.map entries).mapParts (fun x => (x.wire table child).length) fun x =>
      (x.wire table child).length).inUse
    rw [Slot.inUse_mapParts]
    exact List.mem_map_of_mem hmem

/-- Reading the bytes of a field lays it over the slot that was there. -/
theorem absorbs_slot (hw : type.WellFormed) (hchild : (table.childAt type index).WellFormed)
    (hf : type.fields[index]? = some field) (hmember : ∀ slot value, field.strategy ≠ .member slot value)
    (hlen : m.body.presence.length = type.presenceWords) {start old new : Slot Message}
    (hs : m.body.slots[index]? = some start) (hstart : Slot.Form field.strategy start)
    (hinUse : ∀ x ∈ start.inUse, Held table (table.childAt type index) x)
    (haside : ∀ x ∈ start.aside, Held table (table.childAt type index) x) (hold : start.Rel Same old)
    (hnew : Slot.Form field.strategy new) (hsized : ∀ value ∈ new.values, value.Sized)
    (hlt : ∀ n ∈ (new.mapParts (fun x => (x.wire table (table.childAt type index)).length) fun x =>
      (x.wire table (table.childAt type index)).length).lengths field, n < 0x100000000)
    (hlays : ∀ x ∈ new.inUse, 0 < room ∧ Lays table (table.childAt type index) (room - 1) x)
    (presence : PresenceBits) (member : Option (Value Bytes)) :
    ∃ slot m', Sets field index presence slot m m' ∧
      slot.Rel Same ((new.mapParts (Message.overlay table (table.childAt type index))
        (Message.overlay table (table.childAt type index))).overlay (.new (table.childAt type index))
          (field.isWritten presence) old) ∧
      Absorbs table type room ((new.mapParts (Message.wire table (table.childAt type index))
        (Message.wire table (table.childAt type index))).wire field presence member) m m' := by
  have hn := hw.toNumbered
  -- only single values have a presence bit
  have hplain : (∀ plain tracked, field.strategy ≠ .singular plain tracked) → ∀ slot : Slot Message,
      Sets field index presence slot m (m.setSlot index slot) := by
    intro hsingular slot
    refine sets_setSlot (fun bit hbit => ?_) m slot
    rw [presenceBit_eq_none hw hf hsingular] at hbit
    cases hbit
  generalize hstrategy : field.strategy = strategy at *
  cases hnew with
  | @singular plain tracked value kind =>
    cases hstart
    cases hold
    obtain ⟨m', hsets, habsorbs⟩ := absorbs_single hw hf hstrategy hlen hs kind (hsized value (List.mem_singleton_self _))
      presence
    exact ⟨_, m', hsets, .scalar _, habsorbs⟩
  | @repeated plain values kinds =>
    cases hstart
    cases hold
    have hpacked : field.isPacked = false := by rw [Field.isPacked, hstrategy]
    refine ⟨_, _, hplain (by simp) _, .scalars _, ?_⟩
    rw [Slot.mapParts, Slot.wire, hpacked]
    exact absorbs_elements hn hf hstrategy hs kinds hsized
  | @packed plain values kinds =>
    cases hstart
    cases hold
    have hpacked : field.isPacked = true := by rw [Field.isPacked, hstrategy]
    refine ⟨_, _, hplain (by simp) _, .scalars _, ?_⟩
    rw [Slot.mapParts, Slot.wire, if_pos hpacked]
    by_cases hempty : values.isEmpty = true
    · obtain rfl := List.isEmpty_iff.mp hempty
      rw [if_pos hempty, List.append_nil, setSlot_self hs]
      exact absorbs_nil m
    · rw [if_neg hempty]
      refine absorbs_run hn hf hstrategy (slotAt_of_getElem? hs) (fun v hv => ⟨kinds v hv, hsized v hv⟩) (hlt _ ?_)
      rw [Slot.mapParts, Slot.lengths, if_pos hpacked, Scalar.length_encodeAll]
      exact List.mem_singleton_self _
  | @texts plain values kinds =>
    cases hstart
    cases hold with
    | texts hactive =>
      obtain ⟨texts, htexts, habsorbs⟩ := absorbs_texts hn hf hstrategy hs kinds hsized
      refine ⟨_, _, hplain (by simp) _, .texts ?_, habsorbs⟩
      rw [htexts, hactive]
      rfl
  | @message ref value =>
    cases hstart
    cases hold with
    | message hrel =>
      cases value with
      | absent kept =>
        refine ⟨_, _, hplain (by simp) _, .message hrel, ?_⟩
        rw [setSlot_self hs]
        exact absorbs_nil m
      | present x =>
        obtain ⟨hroom, hx⟩ := hlays x (List.mem_singleton_self x)
        obtain ⟨hheld, hsame⟩ := held_getOrInit hchild hinUse haside hrel
        obtain ⟨out, hout, hlaid⟩ := hx _ _ hheld hsame
        refine ⟨.message (.present out), _, hplain (by simp) _, .message (.some hlaid), ?_⟩
        show Absorbs table type room ((field.tagBytes ++ Frame.encode _) ++ []) m _
        rw [List.append_nil]
        exact absorbs_message hn hf hstrategy (slotAt_of_getElem? hs) (hlt _ (List.mem_singleton_self _)) hroom hout
  | @messages ref values =>
    cases hstart
    cases hold with
    | messages hrel =>
      have hlens : ∀ x ∈ values.active, (x.wire table (table.childAt type index)).length < 0x100000000 :=
        fun x hx => hlt _ (List.mem_map_of_mem hx)
      obtain ⟨messages, added, hactive, hadded, habsorbs⟩ := absorbs_messages hn hf hstrategy hchild hs haside
        (fun x hx => (hlays x hx).2) hlens fun x hx => (hlays x hx).1
      refine ⟨_, _, hplain (by simp) (.messages messages), .messages ?_, ?_⟩
      · rw [hactive]
        refine List.rel_append hrel ?_
        rw [Repeated.active_mapParts, List.map_map]
        exact List.forall₂_map_right_iff.mpr hadded
      · rw [Slot.mapParts, Slot.wire, Repeated.active_mapParts, List.flatMap_map]
        exact habsorbs
  | @map key valueType entries suit nodup =>
    cases hstart with
    | @map _ _ held _ hnodup =>
      cases hold with
      | map hrel =>
        obtain ⟨added, hadded, habsorbs⟩ := absorbs_entries hn hf hstrategy hchild hs fun entry he =>
          entryWritten_of_mem (suit entry he) hsized hlt hlays he
        have hoverlay : (entries.map (Entry.map (Message.overlay table (table.childAt type index)))).map
            (Entry.map fun lay => lay (.new (table.childAt type index))) =
            entries.map (Entry.map fun x => x.overlay table (table.childAt type index) (.new (table.childAt type index))) := by
          rw [List.map_map]
          exact List.map_congr_left fun entry _ => Entry.map_map _ _ entry
        refine ⟨_, _, hplain (by simp) (.map (added.foldl Entry.insert held)), ?_, ?_⟩
        · rw [Slot.mapParts, Slot.overlay, hoverlay]
          refine .map (Entry.rel_overlay hnodup ?_ hrel hadded)
          rw [List.map_map]
          exact nodup
        · rw [Slot.mapParts, Slot.wire, List.flatMap_map]
          exact habsorbs
  | member => exact absurd rfl (hmember _ _)

/-! ## One member -/

theorem choiceAt_of_getElem? (h : m.body.choices[slot]? = some choice) : m.choiceAt slot = choice := by
  rw [choiceAt, h]
  rfl

theorem setMember_setChoice (h : slot < m.body.choices.length) (choice : Choice Message) (member : Nat)
    (value : Value Message) :
    (m.setChoice slot choice).setMember slot member value =
      m.setChoice slot { choice with selected := some ⟨member, value⟩ } := by
  have hc : (m.setChoice slot choice).choiceAt slot = choice := choiceAt_of_getElem? (List.getElem?_set_self h)
  rw [setMember, hc]
  show mk { m.body with choices := (m.body.choices.set slot choice).set slot _ } = _
  rw [List.set_set]
  rfl

/-- Reading the bytes of a selected member lays it over the choice that was there. -/
theorem absorbs_member (hw : type.WellFormed) (hchild : (table.childAt type index).WellFormed)
    (hf : type.fields[index]? = some field) (hstrategy : field.strategy = .member slot valueType) {old : Choice Message}
    (hc : m.body.choices[slot]? = some choice)
    (hcurrent : ∀ x, choice.selected = some ⟨index, .message x⟩ → Held table (table.childAt type index) x)
    (hspare : ∀ x, choice.spare = some ⟨index, .message x⟩ → Held table (table.childAt type index) x)
    (hold : choice.Rel Same old) {value : Value Message} (hsuits : value.suits valueType = true)
    (hsized : ∀ v, value = .scalar v → v.Sized)
    (hlays : ∀ x, value = .message x → 0 < room ∧ (x.wire table (table.childAt type index)).length < 0x100000000 ∧
      Lays table (table.childAt type index) (room - 1) x) {laid : Choice (Message → Message)}
    (hlaid : laid.selected = some ⟨index, value.map (Message.overlay table (table.childAt type index))⟩) :
    ∃ out, out.Rel Same (laid.overlay (fun i => .new (table.childAt type i)) old) ∧
      Absorbs table type room (field.tagBytes ++ (value.map (Message.wire table (table.childAt type index))).wire) m
        (m.setChoice slot out) := by
  have hlt := (List.getElem?_eq_some_iff.mp hc).1
  rw [Choice.overlay, hlaid]
  cases value with
  | scalar v =>
    cases valueType with
    | message ref => cases hsuits
    | plain plain =>
      refine ⟨_, ?_, absorbs_member_scalar hw.toNumbered hf hstrategy (eq_of_beq hsuits) (hsized v rfl)⟩
      exact Option.Rel.some ⟨rfl, .scalar v⟩
  | message x =>
    cases valueType with
    | plain plain => cases hsuits
    | message ref =>
      obtain ⟨hroom, hlen, hx⟩ := hlays x rfl
      obtain ⟨hheld, hsame⟩ := held_select hchild hcurrent hspare hold
      obtain ⟨out, hout, hlaid⟩ := hx _ _ hheld hsame
      have habsorbs := absorbs_member_message hw.toNumbered hf hstrategy hlen hroom
        (m := m) (by rw [choiceAt_of_getElem? hc]) hout
      rw [setMember_setChoice hlt] at habsorbs
      refine ⟨_, ?_, habsorbs⟩
      exact Option.Rel.some ⟨rfl, .message hlaid⟩

end Message

end Protobuf
