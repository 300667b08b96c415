/-
  Protobuf.Proofs.Reference — the encoding said without remembered sizes.

  `Message.wire` is the bytes of each field in declaration order, every payload behind its own length,
  then the unknown bytes.

  Measuring counts these bytes (`Body.length_wire`). One sums over choices and the other over member
  fields, but it is the same sum: a choice adds to the field it selects. What is kept aside counts in
  neither.
-/

import Protobuf.Proofs.Content

namespace Protobuf

open Schema

/-! ## The encoding without memory -/

def Value.wire : Value Bytes → Bytes
  | scalar value => value.encode
  | message payload => Frame.encode payload

/-- A map entry is a message of two fields, both always written. -/
def Entry.wire (entry : Entry Bytes) : Bytes :=
  (Tag.encode (Tag.make 1 entry.key.kind.wireType) ++ entry.key.encode) ++
    (Tag.encode (Tag.make 2 entry.value.wireType) ++ entry.value.wire)

/-- The bytes of one field, given the value of its choice if that selects it. -/
def Slot.wire (field : Field) (presence : PresenceBits) (member : Option (Value Bytes)) : Slot Bytes → Bytes
  | scalar value => if field.isWritten presence value then field.tagBytes ++ value.encode else []
  | scalars values =>
    if field.isPacked then
      if values.isEmpty then [] else field.tagBytes ++ Frame.encode (Scalar.encodeAll values)
    else values.flatMap fun value => field.tagBytes ++ value.encode
  | texts values => values.active.flatMap fun value => field.tagBytes ++ value.encode
  | message value => value.get?.toList.flatMap fun payload => field.tagBytes ++ Frame.encode payload
  | messages values => values.active.flatMap fun payload => field.tagBytes ++ Frame.encode payload
  | map entries => entries.flatMap fun entry => field.tagBytes ++ Frame.encode entry.wire
  | .member => member.toList.flatMap fun value => field.tagBytes ++ value.wire

namespace Body

/-- The bytes of each field of a level. -/
def segments (type : MessageType) (body : Body Bytes) : List Bytes :=
  (type.fields.zip body.slots).mapIdx fun index (field, slot) =>
    slot.wire field body.presence (body.memberAt field index)

def wire (type : MessageType) (body : Body Bytes) : Bytes := (body.segments type).flatten ++ body.unknown

end Body

/-- The bytes of a message, said without remembered sizes. -/
def Message.wire (table : TypeTable) (type : MessageType) (m : Message) : Bytes := m.foldTyped table type Body.wire

/-! ## Lengths -/

/-- The payload sizes written in a slot, sub-messages given by their own. -/
def Slot.lengths (field : Field) : Slot Nat → List Nat
  | scalars values => if field.isPacked then [Scalar.sizeAll values] else []
  | map entries => entries.map Entry.size ++ (Slot.map entries).inUse
  | slot => slot.inUse

/-- Every payload size written in a level. -/
def Body.lengths (type : MessageType) (body : Body Nat) : List Nat :=
  (type.fields.zip body.slots).flatMap (fun (field, slot) => slot.lengths field) ++
    body.choices.filterMap fun choice => choice.selected.bind fun member => member.value.message?

/-- The level with each sub-message given by the number of its bytes. -/
def Body.sizes (table : TypeTable) (type : MessageType) (body : Body Message) : Body Nat :=
  body.mapTyped table type fun type m => (m.wire table type).length

/-- No sub-message, run of values or map entry takes 2^32 bytes or more. -/
def Message.Fits (table : TypeTable) : MessageType → Message → Prop :=
  Message.Throughout table fun type body => ∀ n ∈ (body.sizes table type).lengths type, n < 0x100000000

/-! ## Counting -/

/-- A sum to which one position adds. -/
theorem total_eq_of_unique {α : Type} {f : α → Nat} {xs : List α} {i : Nat}
    (h : ∀ (k : Nat) (x : α), xs[k]? = some x → k ≠ i → f x = 0) : total f xs = (xs[i]?.map f).getD 0 := by
  induction xs generalizing i with
  | nil => rfl
  | cons x xs ih =>
    cases i with
    | zero =>
      have hrest : total f xs = 0 := by
        refine total_eq_zero_iff.mpr fun y hy => ?_
        obtain ⟨k, hk⟩ := List.getElem?_of_mem hy
        exact h (k + 1) y hk (Nat.succ_ne_zero k)
      show f x + total f xs = f x
      rw [hrest, Nat.add_zero]
    | succ i =>
      have hx : f x = 0 := h 0 x rfl (Nat.succ_ne_zero i).symm
      show f x + total f xs = (xs[i]?.map f).getD 0
      rw [hx, Nat.zero_add]
      exact ih fun k y hk hne => h (k + 1) y hk fun he => hne (Nat.succ.inj he)

theorem Frame.length_encode (payload : Bytes) : (Frame.encode payload).length = Frame.size payload.length := by
  rw [Frame.encode, List.length_append, Varint.length_encode]
  rfl

theorem Value.length_wire (value : Value Bytes) : value.wire.length = (value.map List.length).size := by
  cases value with
  | scalar v => exact v.length_encode
  | message payload => exact Frame.length_encode payload

theorem Entry.length_wire (entry : Entry Bytes) : entry.wire.length = (entry.map List.length).size := by
  rw [wire, List.length_append, List.length_append, List.length_append, Tag.length_encode_make,
    Tag.length_encode_make, Scalar.length_encode, Value.length_wire]
  show 1 + entry.key.size + (1 + (entry.value.map List.length).size) = 2 + entry.key.size + (entry.value.map List.length).size
  omega

namespace Schema.Field

theorem length_tagBytes (field : Field) : field.tagBytes.length = field.tagSize := Tag.length_encode_make ..

end Schema.Field

/-- What the selected member adds to a field that is held by its choice. -/
def Slot.memberSize (field : Field) (member : Option (Value Nat)) : Slot Nat → Nat
  | .member => (member.map fun value => field.tagSize + value.size).getD 0
  | _ => 0

theorem Slot.length_wire (field : Field) (presence : PresenceBits) (member : Option (Value Bytes)) (slot : Slot Bytes) :
    (slot.wire field presence member).length =
      (slot.mapParts List.length List.length).size field presence +
        (slot.mapParts List.length List.length).memberSize field (member.map (Value.map List.length)) := by
  have htag := field.length_tagBytes
  cases slot with
  | scalar v =>
    refine Eq.trans ?_ (Nat.add_zero _).symm
    rw [wire, mapParts, size]
    split
    · rw [List.length_append, htag, v.length_encode]
    · rfl
  | scalars vs =>
    refine Eq.trans ?_ (Nat.add_zero _).symm
    rw [wire, mapParts, size]
    split
    · split
      · rfl
      · rw [List.length_append, htag, Frame.length_encode, Scalar.length_encodeAll]
    · rw [length_flatMap_eq_total, Scalar.sizeAll]
      simp only [List.length_append, htag, Scalar.length_encode]
      rw [total_add]
      congr 1
      induction vs with
      | nil => rfl
      | cons v vs ih => rw [total_cons, ih, List.length_cons, Nat.mul_succ, Nat.add_comm]
  | texts vs =>
    refine Eq.trans ?_ (Nat.add_zero _).symm
    rw [wire, mapParts, size, length_flatMap_eq_total]
    simp only [List.length_append, htag, Scalar.length_encode]
  | message value =>
    refine Eq.trans ?_ (Nat.add_zero _).symm
    rw [wire, mapParts, size, length_flatMap_eq_total, Singular.get?_mapParts]
    cases value.get? with
    | none => rfl
    | some payload =>
      show (field.tagBytes ++ Frame.encode payload).length + 0 = _
      rw [List.length_append, htag, Frame.length_encode]
      rfl
  | messages values =>
    refine Eq.trans ?_ (Nat.add_zero _).symm
    rw [wire, mapParts, size, length_flatMap_eq_total, Repeated.active_mapParts, total_map]
    simp only [List.length_append, htag, Frame.length_encode]
  | map entries =>
    refine Eq.trans ?_ (Nat.add_zero _).symm
    rw [wire, mapParts, size, length_flatMap_eq_total, total_map]
    simp only [List.length_append, htag, Frame.length_encode, Entry.length_wire]
  | member =>
    rw [wire, mapParts, size, memberSize, length_flatMap_eq_total, Nat.zero_add]
    cases member with
    | none => rfl
    | some value =>
      show (field.tagBytes ++ value.wire).length + 0 = _
      rw [List.length_append, htag, Value.length_wire]
      rfl

/-! ### Choices and member fields -/

/-- What a choice adds to the field at a position. -/
def Choice.sizeAt (type : MessageType) (index : Nat) (choice : Choice Nat) : Nat :=
  match choice.selected with
  | some ⟨field, value⟩ => if field = index then (type.fields[index]?.getD default).tagSize + value.size else 0
  | none => 0

theorem Choice.sizeAt_of_selected (type : MessageType) {index : Nat} {choice : Choice Nat} {field : Nat}
    {value : Value Nat} (h : choice.selected = some ⟨field, value⟩) :
    choice.sizeAt type index =
      if field = index then (type.fields[index]?.getD default).tagSize + value.size else 0 := by
  rw [sizeAt, h]

theorem Choice.sizeAt_of_none (type : MessageType) {index : Nat} {choice : Choice Nat} (h : choice.selected = none) :
    choice.sizeAt type index = 0 := by
  rw [sizeAt, h]

namespace Body

variable {M : Type} {type : MessageType}

/-- A member that is selected belongs to the oneof that selects it. -/
theorem Shaped.strategy_of_member {body : Body M} (h : body.Shaped type) {slot : Nat} {choice : Choice M}
    {member : Member M} (hc : body.choices[slot]? = some choice) (hm : choice.selected = some member) :
    ∃ field value, type.fields[member.field]? = some field ∧ field.strategy = .member slot value ∧
      member.value.suits value = true := by
  have hs := h.member hc hm
  unfold Member.suits at hs
  split at hs
  · rename_i oneof value hstrategy
    obtain ⟨field, hf, hfs⟩ := Option.map_eq_some_iff.mp hstrategy
    obtain ⟨heq, hsuits⟩ := Bool.and_eq_true_iff.mp hs
    cases eq_of_beq heq
    exact ⟨field, value, hf, hfs, hsuits⟩
  · cases hs

end Body

theorem Schema.Field.oneof_of_strategy {field : Field} {slot : Nat} {value : ValueType}
    (h : field.strategy = .member slot value) : field.oneof = some slot := by
  unfold strategy at h
  cases htype : field.type with
  | map key value d =>
    rw [htype] at h
    cases h
  | value type =>
    rw [htype] at h
    cases hone : field.oneof with
    | some oneof =>
      rw [hone] at h
      cases h
      rfl
    | none =>
      -- outside a oneof there are the strategies of single and repeated fields only
      rw [hone] at h
      cases hcard : field.cardinality <;> cases type <;> simp only [hcard] at h <;>
        (try (split at h <;> try split at h)) <;> cases h

theorem Body.memberAt_eq_some_iff {M : Type} {body : Body M} {field : Field} {slot : Nat} {type : ValueType}
    (h : field.strategy = .member slot type) {index : Nat} {value : Value M} :
    body.memberAt field index = some value ↔
      ∃ choice, body.choices[slot]? = some choice ∧ choice.selected = some ⟨index, value⟩ := by
  rw [memberAt, Field.oneof_of_strategy h]
  simp only [Option.map_eq_some_iff, Option.filter_eq_some_iff, Option.bind_eq_some_iff, beq_iff_eq]
  constructor
  · rintro ⟨⟨field, value⟩, ⟨⟨choice, hc, hsel⟩, rfl⟩, rfl⟩
    exact ⟨choice, hc, hsel⟩
  · rintro ⟨choice, hc, hsel⟩
    exact ⟨_, ⟨⟨choice, hc, hsel⟩, rfl⟩, rfl⟩

theorem Body.exists_choice_of_memberAt {M : Type} {body : Body M} {field : Field} {index : Nat} {value : Value M}
    (h : body.memberAt field index = some value) :
    ∃ (slot : Nat) (choice : Choice M), body.choices[slot]? = some choice ∧ choice.selected = some ⟨index, value⟩ := by
  unfold memberAt at h
  cases hone : field.oneof with
  | none =>
    rw [hone] at h
    cases h
  | some slot =>
    rw [hone] at h
    simp only [Option.map_eq_some_iff, Option.filter_eq_some_iff, Option.bind_eq_some_iff, beq_iff_eq] at h
    obtain ⟨⟨_, _⟩, ⟨⟨choice, hc, hsel⟩, rfl⟩, rfl⟩ := h
    exact ⟨slot, choice, hc, hsel⟩

theorem Body.mem_inUse_of_memberAt {M : Type} {body : Body M} {field : Field} {index : Nat} {m : M}
    (h : body.memberAt field index = some (.message m)) : (index, m) ∈ body.inUse :=
  mem_parts_iff.mpr (.inr (exists_choice_of_memberAt h))

theorem Body.mem_values_of_memberAt {M : Type} {body : Body M} {field : Field} {index : Nat} {v : Scalar}
    (h : body.memberAt field index = some (.scalar v)) : v ∈ body.values := by
  obtain ⟨_, choice, hc, hsel⟩ := exists_choice_of_memberAt h
  refine List.mem_append_right _ (List.mem_filterMap.mpr ⟨choice, List.mem_of_getElem? hc, ?_⟩)
  rw [hsel]
  rfl

namespace Body

variable {type : MessageType} {body : Body Nat}

/-- The size of a sub-message in use is written. -/
theorem Shaped.mem_lengths (h : body.Shaped type) {index n : Nat} (hn : (index, n) ∈ body.inUse) :
    n ∈ body.lengths type := by
  rcases mem_parts_iff.mp hn with ⟨slot, hs, hn⟩ | ⟨_, choice, hc, hsel⟩
  · obtain ⟨field, hf, _⟩ := h.field_of_slot hs
    refine List.mem_append_left _ (List.mem_flatMap.mpr
      ⟨(field, slot), List.mem_of_getElem? (List.getElem?_zip_eq_some.mpr ⟨hf, hs⟩), ?_⟩)
    cases slot with
    | map entries => exact List.mem_append_right _ hn
    | scalars vs => cases hn
    | message value => exact hn
    | messages values => exact hn
    | scalar v => cases hn
    | texts vs => cases hn
    | member => cases hn
  · refine List.mem_append_right _ (List.mem_filterMap.mpr ⟨choice, List.mem_of_getElem? hc, ?_⟩)
    rw [hsel]
    rfl

/-- A choice adds nothing to a field of another oneof or of none. -/
theorem Shaped.sizeAt_eq_zero (h : body.Shaped type) {index slot : Nat} {field : Field} {choice : Choice Nat}
    (hf : type.fields[index]? = some field) (hc : body.choices[slot]? = some choice)
    (hne : ∀ value, field.strategy ≠ .member slot value) : choice.sizeAt type index = 0 := by
  cases hsel : choice.selected with
  | none => exact Choice.sizeAt_of_none type hsel
  | some member =>
    obtain ⟨field', value, hf', hstrategy, _⟩ := h.strategy_of_member hc hsel
    rw [Choice.sizeAt_of_selected type hsel, if_neg]
    rintro rfl
    rw [hf] at hf'
    cases hf'
    exact hne value hstrategy

/-- A field held by its choice gets what that choice adds to it, any other field nothing. -/
theorem Shaped.memberSize_eq (h : body.Shaped type) {index : Nat} {field : Field} {slot : Slot Nat}
    (hf : type.fields[index]? = some field) (hs : body.slots[index]? = some slot) :
    slot.memberSize field (body.memberAt field index) = total (Choice.sizeAt type index) body.choices := by
  have hform := h.form hf hs
  by_cases hmember : ∃ oneof value, field.strategy = .member oneof value
  · obtain ⟨oneof, value, hstrategy⟩ := hmember
    rw [hstrategy] at hform
    cases hform
    have hunique : ∀ (k : Nat) (choice : Choice Nat), body.choices[k]? = some choice → k ≠ oneof →
        choice.sizeAt type index = 0 := by
      intro k choice hc hne
      refine h.sizeAt_eq_zero hf hc fun value' he => hne ?_
      rw [hstrategy] at he
      cases he
      rfl
    rw [total_eq_of_unique hunique]
    cases hat : body.memberAt field index with
    | some value =>
      obtain ⟨choice, hc, hsel⟩ := (memberAt_eq_some_iff hstrategy).mp hat
      rw [hc]
      show _ = choice.sizeAt type index
      rw [Choice.sizeAt_of_selected type hsel, if_pos rfl, hf]
      rfl
    | none =>
      cases hc : body.choices[oneof]? with
      | none => rfl
      | some choice =>
        show 0 = choice.sizeAt type index
        cases hsel : choice.selected with
        | none => exact (Choice.sizeAt_of_none type hsel).symm
        | some member =>
          rw [Choice.sizeAt_of_selected type hsel, if_neg]
          rintro rfl
          rw [(memberAt_eq_some_iff hstrategy).mpr ⟨choice, hc, hsel⟩] at hat
          cases hat
  · have hzero : total (Choice.sizeAt type index) body.choices = 0 := by
      refine total_eq_zero_iff.mpr fun choice hc => ?_
      obtain ⟨k, hk⟩ := List.getElem?_of_mem hc
      exact h.sizeAt_eq_zero hf hk fun value he => hmember ⟨k, value, he⟩
    rw [hzero]
    cases slot with
    | member =>
      generalize field.strategy = strategy at hform hmember
      cases hform
      exact absurd ⟨_, _, rfl⟩ hmember
    | _ => rfl

/-- Over all fields, a choice adds what it takes. -/
theorem Shaped.total_sizeAt (h : body.Shaped type) {slot : Nat} {choice : Choice Nat}
    (hc : body.choices[slot]? = some choice) {α : Type} {xs : List α} (hlen : xs.length = type.fields.length) :
    total (fun pair => choice.sizeAt type pair.2) xs.zipIdx = choice.size type := by
  cases hsel : choice.selected with
  | none =>
    rw [Choice.size, hsel]
    exact total_eq_zero_iff.mpr fun _ _ => Choice.sizeAt_of_none type hsel
  | some member =>
    obtain ⟨index, value⟩ := member
    obtain ⟨field, _, hf, _, _⟩ := h.strategy_of_member hc hsel
    have hlt : index < xs.length := hlen ▸ (List.getElem?_eq_some_iff.mp hf).1
    have hunique : ∀ (k : Nat) (pair : α × Nat), xs.zipIdx[k]? = some pair → k ≠ index →
        choice.sizeAt type pair.2 = 0 := by
      intro k pair hk hne
      rw [List.getElem?_zipIdx] at hk
      obtain ⟨x, _, rfl⟩ := Option.map_eq_some_iff.mp hk
      rw [Choice.sizeAt_of_selected type hsel, if_neg]
      rw [Nat.zero_add]
      exact Ne.symm hne
    rw [total_eq_of_unique hunique, List.getElem?_zipIdx, List.getElem?_eq_getElem hlt]
    show choice.sizeAt type (0 + index) = _
    rw [Nat.zero_add, Choice.sizeAt_of_selected type hsel, if_pos rfl, Choice.size, hsel]

theorem memberAt_mapTyped {M N : Type} (table : TypeTable) (f : MessageType → M → N) (body : Body M) (field : Field)
    (index : Nat) :
    (body.mapTyped table type f).memberAt field index =
      (body.memberAt field index).map (Value.map (f (table.childAt type index))) := by
  unfold memberAt
  cases field.oneof with
  | none => rfl
  | some slot =>
    dsimp only
    rw [mapTyped, List.getElem?_map]
    cases body.choices[slot]? with
    | none => rfl
    | some choice =>
      cases hsel : choice.selected with
      | none => simp [hsel]
      | some member =>
        by_cases hm : member.field = index
        · subst hm
          simp [hsel, Member.mapTyped, Member.map, Option.filter]
        · simp [hsel, Member.mapTyped, Member.map, Option.filter, hm]

theorem getElem?_segments {body : Body Bytes} {index : Nat} {field : Field} {slot : Slot Bytes}
    (hf : type.fields[index]? = some field) (hs : body.slots[index]? = some slot) :
    (body.segments type)[index]? = some (slot.wire field body.presence (body.memberAt field index)) := by
  have hz : (type.fields.zip body.slots)[index]? = some (field, slot) := List.getElem?_zip_eq_some.mpr ⟨hf, hs⟩
  rw [segments, List.getElem?_mapIdx, hz]
  rfl

theorem length_segments (type : MessageType) (body : Body Bytes) :
    (body.segments type).flatten.length =
      total (fun pair => (pair.1.2.wire pair.1.1 body.presence (body.memberAt pair.1.1 pair.2)).length)
        (type.fields.zip body.slots).zipIdx := by
  rw [segments, List.mapIdx_eq_zipIdx_map, ← List.flatMap_def, length_flatMap_eq_total]

/-- Measuring counts the bytes of the encoding. -/
theorem length_wire (table : TypeTable) {body : Body Bytes} (h : body.Shaped type) :
    (body.wire type).length = (body.mapTyped table type fun _ => List.length).size type := by
  have hsizes := h.mapTyped table fun _ => List.length
  have hslots : (body.mapTyped table type fun _ => List.length).slots =
      body.slots.map (Slot.mapParts List.length List.length) := by
    refine List.ext_getElem? fun index => ?_
    rw [slots_mapTyped, List.getElem?_map]
  have hlen : (type.fields.zip body.slots).length = type.fields.length := by
    rw [List.length_zip, h.length_slots, Nat.min_self]
  -- a field's bytes are those of its slot, and those that its choice adds to it
  have hfield : ∀ pair ∈ (type.fields.zip body.slots).zipIdx,
      (pair.1.2.wire pair.1.1 body.presence (body.memberAt pair.1.1 pair.2)).length =
        (pair.1.2.mapParts List.length List.length).size pair.1.1 body.presence +
          total (Choice.sizeAt type pair.2) (body.mapTyped table type fun _ => List.length).choices := by
    rintro ⟨⟨field, slot⟩, index⟩ hp
    obtain ⟨hf, hs⟩ := List.getElem?_zip_eq_some.mp (List.mem_zipIdx_iff_getElem?.mp hp)
    have hs' : (body.mapTyped table type fun _ => List.length).slots[index]? =
        some (slot.mapParts List.length List.length) := by
      rw [hslots, List.getElem?_map, hs]
      rfl
    rw [Slot.length_wire, ← hsizes.memberSize_eq hf hs', memberAt_mapTyped]
  rw [wire, List.length_append, length_segments, total_congr hfield, total_add, size, hslots]
  congr 1
  congr 1
  · have hfst := total_map (fun pair : Field × Slot Bytes =>
      (pair.2.mapParts List.length List.length).size pair.1 body.presence) Prod.fst (type.fields.zip body.slots).zipIdx
    rw [List.zipIdx_map_fst] at hfst
    rw [List.zip_map_right, total_map]
    exact hfst.symm
  · rw [total_comm]
    refine total_congr fun choice hc => ?_
    obtain ⟨slot, hslot⟩ := List.getElem?_of_mem hc
    exact hsizes.total_sizeAt hslot hlen

/-! ## What is kept aside makes no difference -/

theorem getElem?_zip_tidy {M : Type} (body : Body M) (index : Nat) :
    (type.fields.zip body.tidy.slots)[index]? =
      (type.fields.zip body.slots)[index]?.map (Prod.map id Slot.tidy) := by
  rw [tidy, List.zip_map_right, List.getElem?_map]

theorem memberAt_tidy {M : Type} (body : Body M) (field : Field) (index : Nat) :
    body.tidy.memberAt field index = body.memberAt field index := by
  unfold memberAt
  cases field.oneof with
  | none => rfl
  | some slot =>
    dsimp only [tidy]
    rw [List.getElem?_map]
    cases body.choices[slot]? <;> rfl

theorem segments_tidy (type : MessageType) (body : Body Bytes) : body.tidy.segments type = body.segments type := by
  refine List.ext_getElem? fun index => ?_
  rw [segments, segments, List.getElem?_mapIdx, List.getElem?_mapIdx, getElem?_zip_tidy, Option.map_map]
  refine congrArg (Option.map · _) (funext fun ⟨field, slot⟩ => ?_)
  show slot.tidy.wire field body.presence (body.tidy.memberAt field index) = _
  rw [memberAt_tidy]
  cases slot with
  | message value => cases value <;> rfl
  | _ => rfl

theorem wire_tidy (type : MessageType) (body : Body Bytes) : body.tidy.wire type = body.wire type := by
  rw [wire, wire, segments_tidy]
  rfl

theorem size_tidy (type : MessageType) (body : Body Nat) : body.tidy.size type = body.size type := by
  have hslots : total (fun pair => pair.2.size pair.1 body.presence) (type.fields.zip body.tidy.slots) =
      total (fun pair => pair.2.size pair.1 body.presence) (type.fields.zip body.slots) := by
    rw [tidy, List.zip_map_right, total_map]
    refine total_congr fun pair _ => ?_
    obtain ⟨field, slot⟩ := pair
    cases slot with
    | message value => cases value <;> rfl
    | _ => rfl
  have hchoices : total (Choice.size type) body.tidy.choices = total (Choice.size type) body.choices := by
    rw [tidy, total_map]
    rfl
  rw [size, size, hchoices]
  exact congrArg (· + _ + _) hslots

theorem lengths_tidy (type : MessageType) (body : Body Nat) : body.tidy.lengths type = body.lengths type := by
  have hslots : (type.fields.zip body.tidy.slots).flatMap (fun pair => pair.2.lengths pair.1) =
      (type.fields.zip body.slots).flatMap fun pair => pair.2.lengths pair.1 := by
    rw [tidy, List.zip_map_right, List.flatMap_map]
    refine List.flatMap_congr fun pair _ => ?_
    obtain ⟨field, slot⟩ := pair
    cases slot with
    | message value => cases value <;> rfl
    | _ => rfl
  refine congrArg₂ (· ++ ·) hslots ?_
  rw [tidy, List.filterMap_map]
  rfl

end Body

/-! ## The order of map entries makes no difference in size -/

theorem total_eq_of_map_eq {α β : Type} {f : α → Nat} {g : β → Nat} {xs : List α} {ys : List β}
    (h : xs.map f = ys.map g) : total f xs = total g ys :=
  congrArg _ h

theorem Value.Rel.eq {M : Type} {a b : Value M} (h : a.Rel (· = ·) b) : a = b := by
  cases h with
  | scalar v => rfl
  | message h => rw [h]

theorem Entry.Rel.perm {M : Type} {as bs : List (Entry M)} (h : Entry.Rel (· = ·) as bs)
    (hn : (bs.map Entry.key).Nodup) : as.Perm bs := by
  obtain ⟨cs, hperm, hcs⟩ := h.exists_perm hn
  have hsame : as = cs := by
    clear hperm h
    induction hcs with
    | nil => rfl
    | @cons a c as cs hrel _ ih =>
      obtain ⟨key, value⟩ := a
      obtain ⟨key', value'⟩ := c
      cases hrel.1
      cases hrel.2.eq
      rw [ih]
  exact hsame ▸ hperm

theorem forall₂_eq {α : Type} {as bs : List α} (h : List.Forall₂ (· = ·) as bs) : as = bs := by
  rwa [List.forall₂_eq_eq_eq] at h

theorem rel_eq {α : Type} {a b : Option α} (h : Option.Rel (· = ·) a b) : a = b := by
  cases h with
  | none => rfl
  | some h => rw [h]

theorem Slot.Rel.size_eq {a b : Slot Nat} (h : a.Rel (· = ·) b) {strategy : Strategy} (hb : Slot.Form strategy b)
    (field : Field) (presence : PresenceBits) : a.size field presence = b.size field presence := by
  cases h with
  | scalar v => rfl
  | scalars vs => rfl
  | texts h => rw [size, size, h]
  | message h => rw [size, size, rel_eq h]
  | messages h => rw [size, size, forall₂_eq h]
  | map h =>
    cases hb with
    | map _ nodup => exact total_perm _ (h.perm nodup)
  | member => rfl

theorem Slot.Rel.mem_lengths {a b : Slot Nat} (h : a.Rel (· = ·) b) {strategy : Strategy} (hb : Slot.Form strategy b)
    {field : Field} {n : Nat} (hn : n ∈ a.lengths field) : n ∈ b.lengths field := by
  cases h with
  | scalar v => exact hn
  | scalars vs => exact hn
  | texts h => cases hn
  | @message a b h =>
    show n ∈ b.get?.toList
    rw [← rel_eq h]
    exact hn
  | @messages a b h =>
    show n ∈ b.active
    rw [← forall₂_eq h]
    exact hn
  | map h =>
    cases hb with
    | map _ nodup =>
      have hperm := h.perm nodup
      exact ((hperm.map Entry.size).append (hperm.filterMap _)).mem_iff.mp hn
  | member => exact hn

theorem Choice.Rel.selected_eq {M : Type} {a b : Choice M} (h : a.Rel (· = ·) b) : a.selected = b.selected := by
  have h : Option.Rel _ a.selected b.selected := h
  cases ha : a.selected with
  | none => exact ((rel_none h).mp ha).symm
  | some member =>
    obtain ⟨⟨field, value⟩, hb, hfield, hvalue⟩ := exists_of_rel h ha
    rw [hb]
    cases member
    cases hfield
    cases hvalue.eq
    rfl

theorem Body.Rel.size_eq {type : MessageType} {a b : Body Nat} (h : a.Rel (· = ·) b) (hb : b.Shaped type) :
    a.size type = b.size type := by
  have hslots : total (fun (field, slot) => Slot.size field a.presence slot) (type.fields.zip a.slots) =
      total (fun (field, slot) => Slot.size field b.presence slot) (type.fields.zip b.slots) := by
    refine total_eq_of_map_eq (List.ext_getElem? fun index => ?_)
    rw [List.getElem?_map, List.getElem?_map]
    cases hf : type.fields[index]? with
    | none =>
      have hnone : ∀ slots : List (Slot Nat), (type.fields.zip slots)[index]? = none := by
        intro slots
        rw [List.getElem?_eq_none_iff] at hf ⊢
        rw [List.length_zip]
        omega
      rw [hnone, hnone]
      rfl
    | some field =>
      obtain ⟨slot, hs, hform⟩ := hb.slot_of_field hf
      obtain ⟨slot', hs', _⟩ := (h.shaped hb).slot_of_field hf
      have hrel : slot'.Rel (· = ·) slot := by
        obtain ⟨s, hs'', hrel⟩ := exists_of_rel (h.slots index) hs'
        rw [hs] at hs''
        cases hs''
        exact hrel
      have hz : (type.fields.zip b.slots)[index]? = some (field, slot) := List.getElem?_zip_eq_some.mpr ⟨hf, hs⟩
      have hz' : (type.fields.zip a.slots)[index]? = some (field, slot') := List.getElem?_zip_eq_some.mpr ⟨hf, hs'⟩
      rw [hz, hz', h.presence]
      exact congrArg some (hrel.size_eq hform field b.presence)
  have hchoices : total (Choice.size type) a.choices = total (Choice.size type) b.choices := by
    refine total_eq_of_map_eq (List.ext_getElem? fun slot => ?_)
    rw [List.getElem?_map, List.getElem?_map]
    cases ha : a.choices[slot]? with
    | none =>
      rw [(rel_none (h.choices slot)).mp ha]
    | some choice =>
      obtain ⟨choice', hb', hrel⟩ := exists_of_rel (h.choices slot) ha
      rw [hb']
      show some (choice.size type) = some (choice'.size type)
      rw [Choice.size, Choice.size, Choice.Rel.selected_eq hrel]
  rw [size, size, hslots, hchoices, h.unknown]

theorem Body.Rel.mem_lengths {type : MessageType} {a b : Body Nat} (h : a.Rel (· = ·) b) (hb : b.Shaped type) {n : Nat}
    (hn : n ∈ a.lengths type) : n ∈ b.lengths type := by
  rcases List.mem_append.mp hn with hn | hn
  · obtain ⟨⟨field, slot⟩, hz, hn⟩ := List.mem_flatMap.mp hn
    obtain ⟨index, hz⟩ := List.getElem?_of_mem hz
    obtain ⟨hf, hs⟩ := List.getElem?_zip_eq_some.mp hz
    obtain ⟨slot', hs', hrel⟩ := exists_of_rel (h.slots index) hs
    refine List.mem_append_left _ (List.mem_flatMap.mpr ⟨(field, slot'), ?_, hrel.mem_lengths (hb.form hf hs') hn⟩)
    exact List.mem_of_getElem? (List.getElem?_zip_eq_some.mpr ⟨hf, hs'⟩)
  · obtain ⟨choice, hc, hn⟩ := List.mem_filterMap.mp hn
    obtain ⟨slot, hc⟩ := List.getElem?_of_mem hc
    obtain ⟨choice', hc', hrel⟩ := exists_of_rel (h.choices slot) hc
    refine List.mem_append_right _ (List.mem_filterMap.mpr ⟨choice', List.mem_of_getElem? hc', ?_⟩)
    rw [← Choice.Rel.selected_eq hrel]
    exact hn

end Protobuf
