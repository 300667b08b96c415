/-
  Protobuf.Proofs.Items — the bytes of a message as fields.

  A level is written as whole fields, each behind its own tag (`Body.wireItems`), and then the unknown bytes. Bytes
  have only one reading as whole fields, so a merge of these bytes runs over just these fields (`runs_items`): it
  found a level to open for each sub-message, and merged its bytes with the levels left (`admits_of_part`).
-/

import Protobuf.Proofs.Confined
import Protobuf.Proofs.Unknown

namespace Protobuf

open Schema

/-! ## Payloads -/

theorem payload_encode {v : Scalar} (h : v.Sized) {tag : Tag} (ht : tag.wireType? = some v.kind.wireType) :
    Payload tag v.encode := by
  obtain ⟨hv, hw⟩ := Reader.valid_ofBytesWithin v.encode 0
  have hread := Reader.takes_readScalar h _ [] hv (by rw [hw, List.append_nil])
  obtain ⟨payload, rest, hsplit, hpayload, hpast⟩ := Reader.readScalar_payload ht hv hread
  have hlen : 0 + v.encode.length = 0 + payload.length := congrArg Reader.pos hpast
  rw [hw] at hsplit
  have heq : v.encode = payload := by
    have htake := congrArg (List.take payload.length) hsplit
    rwa [List.take_left, List.take_of_length_le (by omega)] at htake
  rwa [heq]

theorem payload_frame {body : Bytes} (h : body.length < 0x100000000) {tag : Tag}
    (ht : tag.wireType? = some .lengthDelimited) : Payload tag (Frame.encode body) :=
  .framed ht (Reader.spells_encode (Nat.lt_trans h (by decide)))

/-- The payloads of one field, given the value of its choice if that selects it. -/
def Slot.payloads (field : Field) (presence : PresenceBits) (member : Option (Value Bytes)) : Slot Bytes → List Bytes
  | scalar value => if field.isWritten presence value then [value.encode] else []
  | scalars values =>
    if field.isPacked then
      if values.isEmpty then [] else [Frame.encode (Scalar.encodeAll values)]
    else values.map Scalar.encode
  | texts values => values.active.map Scalar.encode
  | message value => value.get?.toList.map Frame.encode
  | messages values => values.active.map Frame.encode
  | map entries => entries.map fun entry => Frame.encode entry.wire
  | .member => member.toList.map Value.wire

theorem Slot.wire_eq (field : Field) (presence : PresenceBits) (member : Option (Value Bytes)) (slot : Slot Bytes) :
    slot.wire field presence member = (slot.payloads field presence member).flatMap (field.tagBytes ++ ·) := by
  cases slot with
  | scalar value =>
    by_cases h : field.isWritten presence value = true
    · simp [wire, payloads, h]
    · simp [wire, payloads, h]
  | scalars values =>
    by_cases hp : field.isPacked = true
    · by_cases he : values.isEmpty = true
      · simp [wire, payloads, hp, he]
      · simp [wire, payloads, hp, he]
    · simp [wire, payloads, hp, List.flatMap_map]
  | texts values | message value | messages values | map entries | member => simp [wire, payloads, List.flatMap_map]

namespace Body

/-- The fields that a level is written as, each with its tag and all its bytes. -/
def items (type : MessageType) (body : Body Bytes) : List (Tag × Bytes) :=
  (type.fields.zip body.slots).zipIdx.flatMap fun ((field, slot), index) =>
    (slot.payloads field body.presence (body.memberAt field index)).map fun payload =>
      (Tag.make field.number field.strategy.wireType, field.tagBytes ++ payload)

variable {type : MessageType} {body : Body Bytes}

theorem bytesOf_items (type : MessageType) (body : Body Bytes) :
    bytesOf (body.items type) = (body.segments type).flatten := by
  rw [bytesOf, items, segments, List.mapIdx_eq_zipIdx_map, ← List.flatMap_def, List.flatMap_assoc]
  refine List.flatMap_congr fun pair _ => ?_
  obtain ⟨⟨field, slot⟩, index⟩ := pair
  rw [List.flatMap_map]
  exact (Slot.wire_eq ..).symm

theorem mem_items_iff {item : Tag × Bytes} :
    item ∈ body.items type ↔ ∃ (index : Nat) (field : Field) (slot : Slot Bytes) (payload : Bytes),
      type.fields[index]? = some field ∧ body.slots[index]? = some slot ∧
      payload ∈ slot.payloads field body.presence (body.memberAt field index) ∧
      item = (Tag.make field.number field.strategy.wireType, field.tagBytes ++ payload) := by
  constructor
  · intro h
    obtain ⟨⟨⟨field, slot⟩, index⟩, hpair, hitem⟩ := List.mem_flatMap.mp h
    obtain ⟨payload, hp, rfl⟩ := List.mem_map.mp hitem
    obtain ⟨hf, hs⟩ := List.getElem?_zip_eq_some.mp (List.mem_zipIdx_iff_getElem?.mp hpair)
    exact ⟨index, field, slot, payload, hf, hs, hp, rfl⟩
  · intro h
    obtain ⟨index, field, slot, payload, hf, hs, hp, rfl⟩ := h
    have hpair : ((field, slot), index) ∈ (type.fields.zip body.slots).zipIdx :=
      List.mem_zipIdx_iff_getElem?.mpr (List.getElem?_zip_eq_some.mpr ⟨hf, hs⟩)
    exact List.mem_flatMap.mpr ⟨((field, slot), index), hpair, List.mem_map.mpr ⟨payload, hp, rfl⟩⟩

theorem complete_of_items {depth : Nat} {fields : List (Tag × Bytes)}
    (h : ∀ item ∈ fields, ∃ head payload, item.2 = head ++ payload ∧ Tag.Spells head item.1 ∧ Payload item.1 payload) :
    Complete depth fields := by
  induction fields with
  | nil => exact .nil depth
  | cons item fields ih =>
    obtain ⟨head, payload, hbytes, hs, hp⟩ := h item (List.mem_cons_self ..)
    obtain ⟨tag, bytes⟩ := item
    subst hbytes
    exact .plain hs hp (ih fun other ho => h other (List.mem_cons_of_mem _ ho))

end Body

/-! ## Written levels -/

theorem Complete.of_append {depth : Nat} {a b : List (Tag × Bytes)} (h : Complete depth (a ++ b)) : Complete depth b := by
  induction a with
  | nil => exact h
  | cons field a ih => exact ih (complete_cons_inv h).2

section Written

variable (table : TypeTable) (type : MessageType) (body : Body Message)

/-- The bytes of a level as fields. -/
def Body.wireItems : List (Tag × Bytes) := (body.mapTyped table type (Message.wire table)).items type

/-- The payloads of the field at `index`. -/
def Body.payloadsAt (field : Field) (index : Nat) (slot : Slot Message) : List Bytes :=
  let write := Message.wire table (table.childAt type index)
  (slot.mapParts write write).payloads field body.presence ((body.memberAt field index).map (Value.map write))

theorem Body.mem_wireItems_iff {item : Tag × Bytes} :
    item ∈ body.wireItems table type ↔ ∃ (index : Nat) (field : Field) (slot : Slot Message) (payload : Bytes),
      type.fields[index]? = some field ∧ body.slots[index]? = some slot ∧
      payload ∈ body.payloadsAt table type field index slot ∧
      item = (Tag.make field.number field.strategy.wireType, field.tagBytes ++ payload) := by
  rw [wireItems, mem_items_iff]
  constructor
  · intro h
    obtain ⟨index, field, slot, payload, hf, hs, hp, hitem⟩ := h
    rw [slots_mapTyped] at hs
    obtain ⟨slot, hslot, rfl⟩ := Option.map_eq_some_iff.mp hs
    rw [memberAt_mapTyped] at hp
    exact ⟨index, field, slot, payload, hf, hslot, hp, hitem⟩
  · intro h
    obtain ⟨index, field, slot, payload, hf, hs, hp, hitem⟩ := h
    have hslot := slots_mapTyped table type (Message.wire table) body index
    rw [hs] at hslot
    refine ⟨index, field, _, payload, hf, hslot, ?_, hitem⟩
    rw [memberAt_mapTyped]
    exact hp

end Written

/-- A level whose bytes are those that its fields and values say. -/
structure Body.Writable (table : TypeTable) (type : MessageType) (body : Body Message) : Prop where
  shaped : body.Shaped type
  sized : ∀ value ∈ body.values, value.Sized
  fits : ∀ n ∈ (body.sizes table type).lengths type, n < 0x100000000

namespace Body.Writable

variable {table : TypeTable} {type : MessageType} {index : Nat} {field : Field} {body : Body Message}

theorem part_length (w : body.Writable table type) {x : Message} (hx : (index, x) ∈ body.inUse) :
    (x.wire table (table.childAt type index)).length < 0x100000000 := by
  have hsize : (index, (x.wire table (table.childAt type index)).length) ∈ (body.sizes table type).inUse :=
    (inUse_mapTyped table type _ body).mpr ⟨x, hx, rfl⟩
  exact w.fits _ ((w.shaped.mapTyped table _).mem_lengths hsize)

theorem slot_length (w : body.Writable table type) (hf : type.fields[index]? = some field) {slot : Slot Message}
    (hs : body.slots[index]? = some slot) {n : Nat}
    (hn : n ∈ (slot.mapParts (fun x => (x.wire table (table.childAt type index)).length) fun x =>
      (x.wire table (table.childAt type index)).length).lengths field) : n < 0x100000000 := by
  refine w.fits n (List.mem_append_left _ (List.mem_flatMap.mpr ⟨(field, _), List.mem_of_getElem? (i := index) ?_, hn⟩))
  refine List.getElem?_zip_eq_some.mpr ⟨hf, ?_⟩
  rw [sizes, slots_mapTyped, hs]
  rfl

theorem entry_length (w : body.Writable table type) (hf : type.fields[index]? = some field)
    {entries : List (Entry Message)} (hs : body.slots[index]? = some (.map entries)) {entry : Entry Message}
    (he : entry ∈ entries) :
    (entry.map (Message.wire table (table.childAt type index))).wire.length < 0x100000000 := by
  rw [Entry.length_wire, Entry.map_map]
  refine w.slot_length hf hs (List.mem_append_left _ ?_)
  rw [List.map_map]
  exact List.mem_map_of_mem he

/-- What is written behind a field's own tag is a payload of that tag. -/
theorem payload_of_slot (w : body.Writable table type) (hf : type.fields[index]? = some field)
    {slot : Slot Message} (hs : body.slots[index]? = some slot) {payload : Bytes}
    (hp : payload ∈ body.payloadsAt table type field index slot) :
    Payload (Tag.make field.number field.strategy.wireType) payload := by
  have htag := Tag.wireType?_make field.number field.strategy.wireType
  have hvalue : ∀ value ∈ slot.values, value.Sized := fun value hv =>
    w.sized value (List.mem_append_left _ (List.mem_flatMap.mpr ⟨slot, List.mem_of_getElem? hs, hv⟩))
  have hslot : ∀ x ∈ slot.inUse, (index, x) ∈ body.inUse := fun x hx => mem_parts_iff.mpr (.inl ⟨slot, hs, hx⟩)
  have hform := w.shaped.form hf hs
  dsimp only [payloadsAt] at hp
  generalize hstrategy : field.strategy = strategy at *
  cases hform with
  | @singular plain tracked value kind =>
    rw [Slot.mapParts, Slot.payloads] at hp
    split at hp
    · rw [List.mem_singleton.mp hp]
      exact payload_encode (hvalue value (List.mem_singleton_self value)) (by rw [htag, kind]; rfl)
    · cases hp
  | @repeated plain values kinds =>
    have hpacked : field.isPacked = false := by rw [Field.isPacked, hstrategy]
    rw [Slot.mapParts, Slot.payloads, hpacked] at hp
    obtain ⟨value, hv, rfl⟩ := List.mem_map.mp hp
    exact payload_encode (hvalue value hv) (by rw [htag, kinds value hv]; rfl)
  | @packed plain values kinds =>
    have hpacked : field.isPacked = true := by rw [Field.isPacked, hstrategy]
    rw [Slot.mapParts, Slot.payloads, if_pos hpacked] at hp
    split at hp
    · cases hp
    · rw [List.mem_singleton.mp hp]
      refine payload_frame (w.slot_length hf hs ?_) htag
      rw [Slot.mapParts, Slot.lengths, if_pos hpacked, Scalar.length_encodeAll]
      exact List.mem_singleton_self _
  | @texts plain values kinds =>
    obtain ⟨value, hv, rfl⟩ := List.mem_map.mp hp
    exact payload_encode (hvalue value hv) (by rw [htag, kinds value hv, Field.kind_of_texts hstrategy]; rfl)
  | @message ref value =>
    rw [Slot.mapParts, Slot.payloads, Singular.get?_mapParts] at hp
    cases value with
    | absent kept => cases hp
    | present x =>
      rw [List.mem_singleton.mp hp]
      exact payload_frame (w.part_length (hslot x (List.mem_singleton_self x))) htag
  | @messages ref values =>
    rw [Slot.mapParts, Slot.payloads, Repeated.active_mapParts, List.map_map] at hp
    obtain ⟨x, hx, rfl⟩ := List.mem_map.mp hp
    exact payload_frame (w.part_length (hslot x hx)) htag
  | @map key valueType entries suit nodup =>
    rw [Slot.mapParts, Slot.payloads, List.map_map] at hp
    obtain ⟨entry, he, rfl⟩ := List.mem_map.mp hp
    exact payload_frame (w.entry_length hf hs he) htag
  | @member oneof valueType =>
    obtain ⟨bytes, hbytes, rfl⟩ := List.mem_map.mp hp
    obtain ⟨value, hat, rfl⟩ := Option.map_eq_some_iff.mp (Option.mem_toList.mp hbytes)
    obtain ⟨choice, hc, hsel⟩ := (memberAt_eq_some_iff hstrategy).mp hat
    obtain ⟨field', valueType', hf', hstrategy', hsuits⟩ := w.shaped.strategy_of_member hc hsel
    cases hf.symm.trans hf'
    cases hstrategy.symm.trans hstrategy'
    cases value with
    | scalar v =>
      cases valueType with
      | message ref => cases hsuits
      | plain plain =>
        exact payload_encode (w.sized v (mem_values_of_memberAt hat)) (by rw [htag, eq_of_beq hsuits]; rfl)
    | message x =>
      cases valueType with
      | plain plain => cases hsuits
      | message ref => exact payload_frame (w.part_length (mem_inUse_of_memberAt hat)) htag

theorem complete_items (w : body.Writable table type) (hn : type.Numbered) (depth : Nat) :
    Complete depth (body.wireItems table type) := by
  refine complete_of_items fun item hitem => ?_
  obtain ⟨index, field, slot, payload, hf, hs, hp, rfl⟩ := (mem_wireItems_iff ..).mp hitem
  exact ⟨_, payload, rfl, Message.spells_own hn hf, w.payload_of_slot hf hs hp⟩

end Body.Writable

/-! ## Reading the fields of a level -/

theorem frame_unique {head body rest body' rest' : Bytes} (hs : Varint.Spells head body.length)
    (hlt : body'.length < 0x100000000) (he : head ++ (body ++ rest) = Frame.encode body' ++ rest') : body = body' := by
  rw [Frame.encode, List.append_assoc] at he
  have hs' : Varint.Spells (Varint.encode body'.length) body'.length := Reader.spells_encode (Nat.lt_trans hlt (by decide))
  have hd := Reader.decode_of_spells hs (body ++ rest)
  rw [he, Reader.decode_of_spells hs'] at hd
  obtain ⟨hbody, hhead⟩ := Prod.mk.inj (Except.ok.inj hd)
  exact (List.append_inj (List.append_inj he hhead.symm).2 hbody.symm).1

namespace Message

variable {table : TypeTable} {type : MessageType} {index room : Nat} {field : Field} {tag : Tag} {head payload : Bytes}
  {m m' out : Message} {fields : List (Tag × Bytes)}

theorem Reads.held (hg : table.Generated) (hw : type.WellFormed) (h : Held table type m)
    (hr : Reads table type room tag head payload m m') : Held table type m' := by
  obtain ⟨r, hv, hb, hwin, hroom⟩ := exists_behind room head payload
  obtain ⟨s, hs, _⟩ := hr r [] hv hb hwin (Nat.le_of_eq hroom.symm)
  have hheld := held_readOne hg hw h tag r
  rwa [hs] at hheld

/-- Every field of a run is read, from a message of the type. -/
theorem Runs.reads_of_mem (hg : table.Generated) (hw : type.WellFormed) (h : Held table type m)
    (hr : Runs table type room m fields out) (hs : Tag.Spells head tag) (hmem : (tag, head ++ payload) ∈ fields) :
    ∃ n n', Held table type n ∧ Reads table type room tag head payload n n' := by
  induction hr with
  | nil m => cases hmem
  | @cons m m' out tag' head' payload' fields spells tail reads rest ih =>
    rcases List.mem_cons.mp hmem with heq | hmem
    · obtain ⟨rfl, hbytes⟩ := Prod.mk.inj heq
      obtain ⟨rfl, _, rfl⟩ := hs.unique spells hbytes
      exact ⟨m, m', h, reads⟩
    · exact ih (reads.held hg hw h) hmem

/-- A sub-message that was read had its levels, and its bytes were merged whole with those left. -/
theorem Reads.nested (hg : table.Generated) (hw : type.WellFormed) (h : Held table type m) {body : Bytes}
    (hlt : body.length < 0x100000000) (hr : Reads table type room tag head (Frame.encode body) m m') {counted : Bool}
    {m₁ child : Message} {place : Place} {childType : MessageType}
    (hstep : m.step table type tag = fun r => .ofNested counted r m₁ place childType child) :
    Reader.levels counted ≤ room ∧ Held table childType child ∧ childType.WellFormed ∧
      (mergeWithin table childType (room - Reader.levels counted) child body).2 = none := by
  obtain ⟨r, hv, hb, hwin, hroom⟩ := exists_behind room head (Frame.encode body)
  obtain ⟨s, hs, _⟩ := hr r [] hv hb hwin (Nat.le_of_eq hroom.symm)
  have htwins := step_twins hg hw h.twins tag r
  cases ho : Reader.openNested counted r with
  | error e s' =>
    have hstop : m.step table type tag r = .stop m₁ s' e := by
      rw [hstep]
      simp only [Step.ofNested, ho]
    rw [readOne_stop hstop] at hs
    cases hs
  | ok nested s' =>
    have hinto : m.step table type tag r = .into m₁ place childType child nested.inner nested.outer := by
      rw [hstep]
      simp only [Step.ofNested, ho]
    obtain ⟨front, body', rest, hsplit, hspells, hlevels, hinside, _⟩ := Reader.openNested_ok hv ho
    obtain rfl := frame_unique hspells hlt (hsplit.symm.trans hwin)
    rw [hinto] at htwins
    cases htwins with
    | into _ _ _ hplace hchild =>
      refine ⟨hroom ▸ hlevels, hchild.left, wellFormed_of_suits hg hw hplace, ?_⟩
      cases he : (child.merge table childType nested.inner).error with
      | some e =>
        rw [readOne_into_failed hinto he] at hs
        cases hs
      | none =>
        have hmatches : Reader.Matches _ _ (child.merge table childType nested.inner).ending _ :=
          (merge_same hinside.alike).2
        rw [Outcome.ending_of_none he, hroom] at hmatches
        generalize hend : Outcome.ending _ = ending at hmatches
        cases hmatches
        exact (Outcome.error_eq (hend.trans (Outcome.ending_of_none he).symm)).trans he

variable (table type) in
/-- There is a level to open, and the bytes can be merged into some message with the levels left. -/
def Admits (room : Nat) (bytes : Bytes) : Prop :=
  0 < room ∧ ∃ start, Held table type start ∧ (mergeWithin table type (room - 1) start bytes).2 = none

section OneField

variable (hg : table.Generated) (hw : type.WellFormed) (h : Held table type m) (hf : type.fields[index]? = some field)
  {body : Bytes} (hlt : body.length < 0x100000000)
  (hr : Reads table type room (Tag.make field.number field.strategy.wireType) field.tagBytes (Frame.encode body) m m')

include hg hw h hf hlt hr

theorem Reads.message {ref : TypeRef} (hstrategy : field.strategy = .message ref) :
    Admits table (table.childAt type index) room body := by
  obtain ⟨held⟩ := m
  obtain ⟨slot, hs, hform⟩ := h.shaped.slot_of_field hf
  rw [hstrategy] at hform
  cases hform with
  | @message _ value =>
    have hread : (mk held).step table type (Tag.make field.number field.strategy.wireType) = fun r =>
        let start := value.getOrInit (clear (table.childAt type index)) (new (table.childAt type index))
        .ofNested true r ((mk held).setSlot index (.message (.present start))) (.field index) (table.childAt type index)
          start := by
      rw [step_own hw.toNumbered hf]
      funext r
      simp only [readField, hstrategy, slotAt_of_getElem? (m := mk held) hs]
    obtain ⟨hroom, hheld, _, hmerge⟩ := hr.nested hg hw h hlt hread
    exact ⟨hroom, _, hheld, hmerge⟩

theorem Reads.element {ref : TypeRef} (hstrategy : field.strategy = .messages ref) :
    Admits table (table.childAt type index) room body := by
  obtain ⟨held⟩ := m
  obtain ⟨slot, hs, hform⟩ := h.shaped.slot_of_field hf
  rw [hstrategy] at hform
  cases hform with
  | @messages _ values =>
    have hread : (mk held).step table type (Tag.make field.number field.strategy.wireType) = fun r =>
        let start := values.spare (clear (table.childAt type index)) (new (table.childAt type index))
        .ofNested true r ((mk held).setSlot index (.messages (values.push start))) (.element index) (table.childAt type index)
          start := by
      rw [step_own hw.toNumbered hf]
      funext r
      simp only [readField, hstrategy, slotAt_of_getElem? (m := mk held) hs]
    obtain ⟨hroom, hheld, _, hmerge⟩ := hr.nested hg hw h hlt hread
    exact ⟨hroom, _, hheld, hmerge⟩

theorem Reads.member {slot : Nat} {ref : TypeRef} (hstrategy : field.strategy = .member slot (.message ref)) :
    Admits table (table.childAt type index) room body := by
  have hread : m.step table type (Tag.make field.number field.strategy.wireType) = fun r =>
      let selected := (m.choiceAt slot).select (clear (table.childAt type index)) (new (table.childAt type index)) index
      .ofNested true r (m.setChoice slot selected.2) (.member slot index) (table.childAt type index) selected.1 := by
    rw [step_own hw.toNumbered hf]
    funext r
    simp only [readField, hstrategy]
  obtain ⟨hroom, hheld, _, hmerge⟩ := hr.nested hg hw h hlt hread
  exact ⟨hroom, _, hheld, hmerge⟩

/-- A map entry takes no level, and the message in it is read as a field of the entry. -/
theorem Reads.entry {key : ScalarType} {ref : TypeRef} (hstrategy : field.strategy = .map key (.message ref)) {k : Scalar}
    (hsized : k.Sized) {inner : Bytes} (hinner : inner.length < 0x100000000)
    (hbody : body = Entry.wire ⟨k, .message inner⟩) : Admits table (table.childAt type index) room inner := by
  obtain ⟨start, htype⟩ := type_of_map hstrategy
  have hread : m.step table type (Tag.make field.number field.strategy.wireType) = fun r =>
      .ofNested false r m (.entry index) (entryType key (.message ref) start) (new (entryType key (.message ref) start)) := by
    rw [step_own hw.toNumbered hf]
    funext r
    simp only [readField, hstrategy, htype]
  obtain ⟨_, hheld, hentry, hmerge⟩ := hr.nested hg hw h hlt hread
  obtain ⟨fields, hbytes, hruns⟩ := runs_of_mergeWithin hg hentry hheld (Prod.ext rfl hmerge)
  -- the bytes of an entry are those of its two fields
  obtain ⟨f, hf₁, hs₁, hown⟩ : ∃ f, (entryType key (.message ref) start).fields[1]? = some f ∧
      f.strategy = .message ref ∧ Tag.make f.number f.strategy.wireType = Tag.make 2 .lengthDelimited := ⟨_, rfl, rfl, rfl⟩
  have hsplit : bytesOf fields = bytesOf [(Tag.make 1 k.kind.wireType, Tag.encode (Tag.make 1 k.kind.wireType) ++ k.encode),
      (Tag.make 2 .lengthDelimited, Tag.encode (Tag.make 2 .lengthDelimited) ++ Frame.encode inner)] := by
    rw [← hbytes, hbody]
    simp [bytesOf, Entry.wire, Value.wire, Value.wireType]
  have hcomplete := complete_unique hruns.complete (.plain (Tag.spells_make (by decide) (by decide) _)
    (payload_encode hsized (Tag.wireType?_make ..)) (.plain (Tag.spells_make (by decide) (by decide) _)
      (payload_frame hinner (Tag.wireType?_make ..)) (.nil 0))) hsplit
  obtain ⟨n, n', hn, hreads⟩ := hruns.reads_of_mem hg hentry hheld (Tag.spells_make (by decide) (by decide) .lengthDelimited)
    (hcomplete ▸ List.mem_cons_of_mem _ (List.mem_singleton_self _))
  rw [← hown] at hreads
  have hadmits := Reads.message hg hentry hn hf₁ hinner hreads hs₁
  rwa [childAt_entryType hf htype] at hadmits

end OneField

/-! ## Reading the fields of a written level -/

section Level

variable {body : Body Message} {start : Message} (hg : table.Generated) (hw : type.WellFormed)
  (w : body.Writable table type) (h : Held table type start) {others : List (Tag × Bytes)}
  (hunknown : body.unknown = bytesOf others) {depth : Nat} (hothers : Complete depth others)
  (hok : (mergeWithin table type room start ((mk body).wire table type)).2 = none)

include hg hw w h hunknown hothers hok

/-- A written level that is merged is merged field by field, and its unknown fields behind those of the type. -/
theorem runs_items : ∃ out, Runs table type room start (body.wireItems table type ++ others) out := by
  obtain ⟨fields, hbytes, hruns⟩ := runs_of_mergeWithin hg hw h (Prod.ext rfl hok)
  have hsplit : bytesOf fields = bytesOf (body.wireItems table type ++ others) := by
    rw [← hbytes, wire_mk, Body.wire, bytesOf_append, Body.wireItems, Body.bytesOf_items, ← hunknown]
    rfl
  have heq := complete_unique hruns.complete ((w.complete_items hw.toNumbered depth).append hothers) hsplit
  exact ⟨_, heq ▸ hruns⟩

/-- Groups in the unknown bytes found their levels. -/
theorem complete_of_merged : Complete room others := by
  obtain ⟨out, hruns⟩ := runs_items hg hw w h hunknown hothers hok
  exact hruns.complete.of_append

/-- The field of a sub-message was read. -/
theorem reads_of_payload {slot : Slot Message} (hf : type.fields[index]? = some field)
    (hs : body.slots[index]? = some slot) : ∀ payload ∈ body.payloadsAt table type field index slot,
      ∃ n n', Held table type n ∧
        Reads table type room (Tag.make field.number field.strategy.wireType) field.tagBytes payload n n' := by
  intro payload hp
  obtain ⟨out, hruns⟩ := runs_items hg hw w h hunknown hothers hok
  have hitem := (Body.mem_wireItems_iff table type body).mpr ⟨index, field, slot, payload, hf, hs, hp, rfl⟩
  exact hruns.reads_of_mem hg hw h (spells_own hw.toNumbered hf) (List.mem_append_left _ hitem)

/-- Each sub-message found a level to open. -/
theorem admits_of_part {x : Message} (hx : (index, x) ∈ body.inUse) :
    Admits table (table.childAt type index) room (x.wire table (table.childAt type index)) := by
  have hlt := w.part_length hx
  rcases Body.mem_parts_iff.mp hx with ⟨slot, hs, hmem⟩ | ⟨oneof, choice, hc, hsel⟩
  · obtain ⟨field, hf, hform⟩ := w.shaped.field_of_slot hs
    have hreads := reads_of_payload hg hw w h hunknown hothers hok hf hs
    dsimp only [Body.payloadsAt] at hreads
    generalize hstrategy : field.strategy = strategy at hform
    cases hform with
    | singular kind => cases hmem
    | repeated kinds => cases hmem
    | packed kinds => cases hmem
    | texts kinds => cases hmem
    | member => cases hmem
    | @message ref value =>
      cases value with
      | absent kept => cases hmem
      | present y =>
        cases List.mem_singleton.mp hmem
        obtain ⟨n, n', hn, hr⟩ := hreads _ (List.mem_singleton_self _)
        exact hr.message hg hw hn hf hlt hstrategy
    | @messages ref values =>
      rw [Slot.mapParts, Slot.payloads, Repeated.active_mapParts, List.map_map] at hreads
      obtain ⟨n, n', hn, hr⟩ := hreads _ (List.mem_map_of_mem hmem)
      exact hr.element hg hw hn hf hlt hstrategy
    | @map key valueType entries suit nodup =>
      rw [Slot.mapParts, Slot.payloads, List.map_map] at hreads
      obtain ⟨entry, he, hvalue⟩ := List.mem_filterMap.mp hmem
      obtain ⟨n, n', hn, hr⟩ := hreads _ (List.mem_map_of_mem he)
      have hlen := w.entry_length hf hs he
      have hsuits := (Bool.and_eq_true_iff.mp (suit entry he)).2
      have hkey : entry.key ∈ (Slot.map entries).values := List.mem_flatMap.mpr ⟨entry, he, List.mem_cons_self ..⟩
      have hsized := w.sized _ (List.mem_append_left _ (List.mem_flatMap.mpr ⟨_, List.mem_of_getElem? hs, hkey⟩))
      obtain ⟨k, value⟩ := entry
      cases value with
      | scalar v => cases hvalue
      | message y =>
        cases hvalue
        cases valueType with
        | plain plain => cases hsuits
        | message ref => exact hr.entry hg hw hn hf hlen hstrategy hsized hlt rfl
  · obtain ⟨field, valueType, hf, hstrategy, hsuits⟩ := w.shaped.strategy_of_member hc hsel
    obtain ⟨slot, hs, hform⟩ := w.shaped.slot_of_field hf
    have hat := (Body.memberAt_eq_some_iff hstrategy).mpr ⟨choice, hc, hsel⟩
    have hreads := reads_of_payload hg hw w h hunknown hothers hok hf hs
    rw [hstrategy] at hform
    cases hform
    dsimp only [Body.payloadsAt] at hreads
    rw [hat] at hreads
    obtain ⟨n, n', hn, hr⟩ := hreads _ (List.mem_singleton_self _)
    cases valueType with
    | plain plain => cases hsuits
    | message ref => exact hr.member hg hw hn hf hlt hstrategy

end Level

end Message

end Protobuf
