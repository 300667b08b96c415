/-
  Protobuf.Proofs.Omission — values that are not written, and where fields start.

  A single value whose presence is not tracked is written unless it is zero, whatever the schema gives the field to
  start with. So a zero is read back as that start (`back_of_slot`), and a new message takes no bytes just if all
  such fields start at zero (`encode_new`). They do if no default is declared for them and the enums among them
  start at zero (`zeroDefaults_of_declared`); resolving a file does not ask for either.
-/

import Protobuf.Message.Access
import Protobuf.Proofs.Declared
import Protobuf.Proofs.Settled

namespace Protobuf

open Schema

/-! ## Declared starts -/

namespace Schema

/-- No default is declared for the field, and an enum that its type name stands for starts at zero. -/
def Registry.StartsAtZero (declared : List (String × Declaration)) (scope : String) (decl : Descriptor.Field) : Prop :=
  decl.default = none ∧ ∀ enum, Means declared scope decl.typeNameText (.enum enum) →
    ∀ first ∈ enum.values.head?, first.numberValue = 0

namespace Context

variable {context : Context} {files : List Descriptor.File}

/-- Where none is declared, only an enum has a default: its first value if that is not zero. -/
theorem defaultValue_eq_none {decl : Descriptor.Field} {fieldName : String} {type : ValueType}
    {declaration : Option Declaration} {start : Option Scalar} (hnone : decl.default = none)
    (henum : ∀ enum, declaration = some (.enum enum) → ∀ first ∈ enum.values.head?, first.numberValue = 0)
    (h : defaultValue decl fieldName type declaration = .ok start) : start = none := by
  unfold defaultValue at h
  rw [hnone] at h
  cases type with
  | message ref =>
    cases h
    rfl
  | plain plain =>
    cases plain with
    | scalar scalar =>
      cases h
      rfl
    | enum ref =>
      cases declaration with
      | none =>
        cases h
        rfl
      | some declaration =>
        cases declaration with
        | message message =>
          cases h
          rfl
        | enum enum =>
          cases h
          cases hhead : enum.values.head? with
          | none => rfl
          | some first => simp [henum enum rfl first hhead]

/-- A field that starts at zero is resolved without a default. -/
theorem default_of_startsAtZero (hfiles : Registry.ofFiles files = .ok context.registry) {decl : Descriptor.Field}
    {fieldName scope : String} {number : Nat} {field : Field}
    (hzero : Registry.StartsAtZero (files.flatMap declaredFile) scope decl)
    (h : context.field decl fieldName number scope = .ok field) : field.default = none := by
  obtain ⟨hnone, hmeans⟩ := hzero
  obtain ⟨type, declaration, htype, _, hstart, _⟩ := field_steps h
  have henum : ∀ enum, declaration = some (.enum enum) → ∀ first ∈ enum.values.head?, first.numberValue = 0 := by
    intro enum hdeclaration
    obtain ⟨_, _, _, hscalar⟩ | ⟨name, entry, hfind, hentry, _⟩ := valueType_ok htype
    · cases hscalar.symm.trans hdeclaration
    · have hfound := Registry.find?_means hfiles hfind
      rw [Option.some.inj (hentry.symm.trans hdeclaration)] at hfound
      exact hmeans enum hfound
  unfold fieldDefault at hstart
  rw [hnone] at hstart
  cases hwhole : field.type with
  | value valueType =>
    rw [hwhole] at hstart
    exact defaultValue_eq_none hnone henum hstart
  | map key value valueDefault =>
    rw [hwhole] at hstart
    exact (Except.ok.inj hstart).symm

end Context

/-- If no default is declared in a message and the enums it names start at zero, so do its fields. -/
theorem Registry.zeroDefaults_of_declared {registry : Registry} {files : List Descriptor.File} {file : Descriptor.File}
    {keepsUnknown : Bool} {resolved : File} (hfiles : ofFiles files = .ok registry)
    (h : registry.resolve file keepsUnknown = .ok resolved) {type : MessageType} (ht : type ∈ resolved.messageTypes)
    (hzero : ∀ decl, (type.fullName, Declaration.message decl) ∈ declaredFile file →
      ∀ field ∈ decl.fields, StartsAtZero (files.flatMap declaredFile) type.fullName field) :
    type.ZeroDefaults := by
  obtain ⟨context, decl, rfl, hdeclared, hfields⟩ := resolve_fields h ht
  intro field hf
  obtain ⟨fieldDecl, hmem, hfrom⟩ := exists_of_forall₂ (forall₂_symm hfields fun _ _ _ h => h) hf
  obtain ⟨alone, halone, _, _, hdefault⟩ := hfrom.alone
  rw [Context.default_of_startsAtZero hfiles (hzero decl hdeclared fieldDecl hmem) halone] at hdefault
  unfold Field.startsAtZero
  split
  · simp [Field.initial, hdefault, Scalar.isZero]
  · rfl

/-- Only fields whose presence is tracked have a presence bit. -/
theorem Registry.presenceBit_of_implicit {registry : Registry} {file : Descriptor.File} {keepsUnknown : Bool}
    {resolved : File} (h : registry.resolve file keepsUnknown = .ok resolved) {type : MessageType}
    (ht : type ∈ resolved.messageTypes) {field : Field} (hf : field ∈ type.fields) {plain : PlainType}
    (hs : field.strategy = .singular plain .implicit) : field.presenceBit = none := by
  obtain ⟨context, decl, _, _, hfields⟩ := resolve_fields h ht
  obtain ⟨fieldDecl, _, hfrom⟩ := exists_of_forall₂ (forall₂_symm hfields fun _ _ _ h => h) hf
  by_contra hbit
  have hneeds := hfrom.bit (Option.isSome_iff_ne_none.mpr hbit)
  simp [Context.needsBit, (Context.of_singular hs).2.2.2] at hneeds

end Schema

/-! ## A field that is not tracked -/

namespace Message

variable {table : TypeTable} {type : MessageType} {index : Nat} {field : Field} {plain : PlainType} {m : Message}

theorem isWritten_untracked (hbit : field.presenceBit = none) (presence : PresenceBits) (value : Scalar) :
    field.isWritten presence value = true ↔ value ≠ .zero value.kind := by
  simp [Field.isWritten, hbit, Scalar.isZero]

/-- Just zero is left out. -/
theorem encodeSlot_eq_nil_iff (hbit : field.presenceBit = none) (index : Nat) (body : Body Written) (value : Scalar) :
    body.encodeSlot field index (.scalar value) = [] ↔ value = .zero value.kind := by
  have hne : field.tagBytes ++ value.encode ≠ [] := by
    intro h
    have hpos := value.length_encode_pos
    rw [(List.append_eq_nil_iff.mp h).2] at hpos
    cases hpos
  by_cases hw : field.isWritten body.presence value = true
  · have hvalue := (isWritten_untracked hbit _ _).mp hw
    simp [Body.encodeSlot, hw, hvalue, hne]
  · have hvalue := not_not.mp (mt (isWritten_untracked hbit _ _).mpr hw)
    rw [Body.encodeSlot, if_neg hw]
    exact ⟨fun _ => hvalue, fun _ => rfl⟩

theorem slot_new (hs : field.strategy = .singular plain .implicit) : Slot.new field = .scalar (field.initial plain) := by
  rw [Slot.new, hs]

theorem slotAt_new (hf : type.fields[index]? = some field) : (new type).slotAt index = Slot.new field :=
  slotAt_of_getElem? (slots_new hf)

/-- The slot of the field holds a value of its kind. -/
theorem Held.scalar_slot (hm : Held table type m) (hf : type.fields[index]? = some field)
    (hs : field.strategy = .singular plain .implicit) :
    ∃ value, m.body.slots[index]? = some (.scalar value) ∧ value.kind = plain.kind := by
  obtain ⟨body⟩ := m
  obtain ⟨slot, hslot, hform⟩ := hm.shaped.slot_of_field hf
  rw [hs] at hform
  cases hform with
  | singular kind => exact ⟨_, hslot, kind⟩

theorem slotAt_clear (hm : Held table type m) (hf : type.fields[index]? = some field)
    (hs : field.strategy = .singular plain .implicit) : (m.clear type).slotAt index = .scalar (field.initial plain) := by
  obtain ⟨value, hslot, _⟩ := hm.scalar_slot hf hs
  apply slotAt_of_getElem?
  show (List.zipWith Slot.clear type.fields m.body.slots)[index]? = _
  rw [List.getElem?_zipWith, hf, hslot]
  exact congrArg some (slot_new hs)

theorem slotAt_clearField (hm : Held table type m) (hf : type.fields[index]? = some field)
    (hs : field.strategy = .singular plain .implicit) (hbit : field.presenceBit = none) :
    (m.clearField field index).slotAt index = .scalar (field.initial plain) := by
  obtain ⟨value, hslot, _⟩ := hm.scalar_slot hf hs
  have hclear : m.clearField field index = m.setSlot index (.scalar (field.initial plain)) := by
    simp [clearField, (Context.of_singular hs).2.1, slotAt_of_getElem? hslot, Slot.clear, slot_new hs, unmark, hbit]
  rw [hclear, slotAt_setSlot (List.getElem?_eq_some_iff.mp hslot).1]

theorem set_untracked (hm : Held table type m) (hf : type.fields[index]? = some field)
    (hs : field.strategy = .singular plain .implicit) (hbit : field.presenceBit = none) (value : Scalar) :
    (m.set field index (.scalar value)).body.slots[index]? = some (.scalar value) := by
  obtain ⟨old, hslot, _⟩ := hm.scalar_slot hf hs
  have hset : m.set field index (.scalar value) = m.setSlot index (.scalar value) := by
    simp [set, (Context.of_singular hs).2.1, slotAt_of_getElem? hslot, setScalar, mark, hbit]
  rw [hset, getElem?_setSlot (List.getElem?_eq_some_iff.mp hslot).1]

/-- What is read back from a message that holds a value: where the field starts, if the value is zero. -/
theorem back_of_slot (hg : table.Generated) (htype : type ∈ table.messages) (ht : Typed table type m)
    (hfits : Fits table type m) (hn : Nests table 100 type m) (hf : type.fields[index]? = some field)
    (hs : field.strategy = .singular plain .implicit) (hbit : field.presenceBit = none) {value : Scalar}
    (hslot : m.body.slots[index]? = some (.scalar value)) :
    ∃ back, mergeBytes table type (new type) (m.encode table type) = (back, none) ∧
      back.slotAt index = .scalar (if value = .zero value.kind then field.initial plain else value) := by
  have hw := hg.wellFormed htype
  obtain ⟨back, hback, hsame⟩ := mergeBytes_of_lays (lays_of_typed hg.childAt hw ht hfits hn) ht hfits (held_new table hw)
  refine ⟨back, hback, ?_⟩
  obtain ⟨body⟩ := m
  obtain ⟨out⟩ := back
  change body.slots[index]? = _ at hslot
  have hlaid : (body.mapTyped table type (overlay table)).slots[index]? = some (.scalar value) := by
    rw [Body.slots_mapTyped, hslot]
    rfl
  have hnew : (new type).body.slots[index]? = some (.scalar (field.initial plain)) := by
    rw [slots_new hf, slot_new hs]
  have hoverlay : (mk body).overlay table type (new type) =
      mk ((body.mapTyped table type (overlay table)).overlay table type (new type).body) := overlay_mk ..
  rw [hoverlay] at hsame
  have hrel := (same_mk_iff.mp hsame).slots index
  rw [slots_overlay table _ hf hlaid hnew] at hrel
  apply slotAt_of_getElem?
  show out.slots[index]? = _
  generalize out.slots[index]? = found at hrel ⊢
  cases hrel with
  | some hslots =>
    cases hslots
    have hwritten := isWritten_untracked hbit body.presence value
    by_cases hzero : value = .zero value.kind
    · have hn : field.isWritten body.presence value = false := by simpa using mt hwritten.mp (not_not.mpr hzero)
      rw [if_pos hzero]
      exact congrArg (fun b => some (Slot.scalar (if b then value else field.initial plain))) hn
    · rw [if_neg hzero]
      exact congrArg (fun b => some (Slot.scalar (if b then value else field.initial plain))) (hwritten.mpr hzero)

/-! ## New messages -/

theorem mapParts_new (f g : Message → Message) (field : Field) : (Slot.new field).mapParts f g = Slot.new field := by
  unfold Slot.new
  cases field.strategy <;> rfl

/-- There is nothing to measure inside a new message. -/
theorem measure_new (table : TypeTable) (type : MessageType) :
    ∃ size, (new type).measure table type = mk { (new type).body with cachedSize := size } := by
  let inner := (new type).body.mapTyped table type fun t m => m.foldTyped table t measureStep
  have hslots : inner.slots.map (Slot.mapParts Prod.snd Prod.fst) = (new type).body.slots := by
    refine List.ext_getElem? fun index => ?_
    rw [List.getElem?_map, Body.slots_mapTyped]
    show ((type.fields.map Slot.new)[index]?.map _).map _ = (type.fields.map Slot.new)[index]?
    rw [List.getElem?_map]
    cases type.fields[index]? with
    | none => rfl
    | some field =>
      refine congrArg some ?_
      rw [Slot.mapParts_mapParts, mapParts_new]
  have hchoices : inner.choices.map (Choice.mapParts Prod.snd Prod.fst) = (new type).body.choices := by
    show ((type.oneofs.map fun _ => _).map _).map _ = type.oneofs.map fun _ => _
    rw [List.map_map, List.map_map]
    rfl
  have hmeasure : ∃ size, (new type).measure table type = mk { (new type).body with
      slots := inner.slots.map (Slot.mapParts Prod.snd Prod.fst)
      choices := inner.choices.map (Choice.mapParts Prod.snd Prod.fst)
      cachedSize := size } := by
    refine ⟨((inner.mapParts Prod.snd Prod.fst).map cachedSize).size type, ?_⟩
    show ((mk (new type).body).foldTyped table type measureStep).2 = _
    rw [foldTyped_mk]
    rfl
  rw [hslots, hchoices] at hmeasure
  exact hmeasure

/-- What a new message is written as, field by field. -/
theorem encodeSlot_new (hw : type.WellFormed) {field : Field} (hf : field ∈ type.fields)
    (hbit : ∀ plain, field.strategy = .singular plain .implicit → field.presenceBit = none) {body : Body Written}
    (hpresence : body.presence = .none type.presenceWords) (hchoices : ∀ choice ∈ body.choices, choice.selected = none)
    (f g : Message → Written) (index : Nat) :
    body.encodeSlot field index ((Slot.new field).mapParts f g) = [] ↔ field.startsAtZero = true := by
  unfold Slot.new Field.startsAtZero
  cases hs : field.strategy with
  | singular plain presence =>
    cases presence with
    | implicit =>
      have hiff := encodeSlot_eq_nil_iff (hbit plain hs) index body (field.initial plain)
      simpa [Slot.mapParts, Scalar.isZero] using hiff
    | explicit =>
      obtain ⟨bit, hsome⟩ := Option.ne_none_iff_exists'.mp (hw.tracked field hf plain hs)
      simp [Slot.mapParts, Body.encodeSlot, Field.isWritten, hsome, hpresence, PresenceBits.isSet_none]
  | repeated plain | packed plain => simp [Slot.mapParts, Body.encodeSlot]
  | texts plain | message ref | messages ref | map key value => exact iff_of_true rfl rfl
  | member slot value =>
    have hnone : body.memberAt field index = none := by
      unfold Body.memberAt
      cases field.oneof with
      | none => rfl
      | some slot =>
        cases hc : body.choices[slot]? with
        | none => simp [hc]
        | some choice => simp [hc, hchoices choice (List.mem_of_getElem? hc)]
    simp [Slot.mapParts, Body.encodeSlot, hnone]

/-- A new message takes no bytes just if all fields that are not tracked start at zero. -/
theorem encode_new (table : TypeTable) (hw : type.WellFormed)
    (hbits : ∀ field ∈ type.fields, ∀ plain, field.strategy = .singular plain .implicit → field.presenceBit = none) :
    (new type).encode table type = [] ↔ type.ZeroDefaults := by
  obtain ⟨size, hmeasure⟩ := measure_new table type
  let body := ({ (new type).body with cachedSize := size } : Body Message).mapTyped table type fun t m =>
    m.foldTyped table t writeStep
  have hencode : (new type).encode table type = (body.pieces type).flatten := by
    rw [encode, hmeasure, encodeRaw, foldTyped_mk]
    rfl
  have hchoices : ∀ choice ∈ body.choices, choice.selected = none := by
    intro choice hc
    obtain ⟨old, hold, rfl⟩ := List.mem_map.mp hc
    obtain ⟨oneof, _, rfl⟩ := List.mem_map.mp hold
    rfl
  let written := (type.fields.zip body.slots).mapIdx fun index pair => body.encodeSlot pair.1 index pair.2
  have hpieces : body.pieces type = written ++ [[]] := rfl
  have hwritten : ∀ (index : Nat) (field : Field), type.fields[index]? = some field →
      ∃ piece, written[index]? = some piece ∧ (piece = [] ↔ field.startsAtZero = true) := by
    intro index field hf
    let write := fun m : Message => m.foldTyped table (table.childAt type index) writeStep
    have hslot : body.slots[index]? = some ((Slot.new field).mapParts write write) := by
      rw [Body.slots_mapTyped, slots_new hf]
      rfl
    have hzip : (type.fields.zip body.slots)[index]? = some (field, (Slot.new field).mapParts write write) :=
      List.getElem?_zip_eq_some.mpr ⟨hf, hslot⟩
    have hmem := List.mem_of_getElem? hf
    refine ⟨_, ?_, encodeSlot_new hw hmem (hbits field hmem) rfl hchoices write write index⟩
    rw [List.getElem?_mapIdx, hzip]
    rfl
  rw [hencode, hpieces, List.flatten_append, List.append_eq_nil_iff, List.flatten_eq_nil_iff]
  constructor
  · intro h field hf
    obtain ⟨index, hf⟩ := List.getElem?_of_mem hf
    obtain ⟨piece, hpiece, hiff⟩ := hwritten index field hf
    exact hiff.mp (h.1 piece (List.mem_of_getElem? hpiece))
  · intro hz
    refine ⟨fun piece hp => ?_, rfl⟩
    obtain ⟨index, hpiece⟩ := List.getElem?_of_mem hp
    have hlt : index < type.fields.length := by
      have hlt := (List.getElem?_eq_some_iff.mp hpiece).1
      rw [List.length_mapIdx, List.length_zip] at hlt
      omega
    have hf := List.getElem?_eq_getElem hlt
    obtain ⟨piece', hpiece', hiff⟩ := hwritten index _ hf
    cases hpiece.symm.trans hpiece'
    exact hiff.mpr (hz _ (List.mem_of_getElem? hf))

end Message

/-- A single value that is not tracked is left out just if it is zero, and is then read back as what the schema starts
    it with. That is zero for all of them just if a new message takes no bytes, as where no default is declared and
    all enums start at zero. -/
theorem Schema.Registry.untracked_omission {registry : Registry} {files : List Descriptor.File} {file : Descriptor.File}
    {keepsUnknown : Bool} {resolved : File} (hfiles : ofFiles files = .ok registry)
    (h : registry.resolve file keepsUnknown = .ok resolved) {type : MessageType} (ht : type ∈ resolved.messageTypes) :
    (∀ (index : Nat) (field : Field) (plain : PlainType), type.fields[index]? = some field →
      field.strategy = .singular plain .implicit →
      (Message.new type).slotAt index = .scalar (field.initial plain) ∧
      (∀ (body : Body Written) (value : Scalar), body.encodeSlot field index (.scalar value) = [] ↔
        value = .zero value.kind) ∧
      ∀ (table : TypeTable) (m : Message), Message.Held table type m →
        (m.clear type).slotAt index = .scalar (field.initial plain) ∧
        (m.clearField field index).slotAt index = .scalar (field.initial plain) ∧
        ∀ value : Scalar, let changed := m.set field index (.scalar value)
          changed.slotAt index = .scalar value ∧
          (table.Generated → type ∈ table.messages → Message.Typed table type changed →
            Message.Fits table type changed → Message.Nests table 100 type changed →
            ∃ back, Message.mergeBytes table type (.new type) (changed.encode table type) = (back, none) ∧
              back.slotAt index = .scalar (if value = .zero value.kind then field.initial plain else value))) ∧
    (∀ table, (Message.new type).encode table type = [] ↔ type.ZeroDefaults) ∧
    ((∀ decl, (type.fullName, Declaration.message decl) ∈ declaredFile file →
        ∀ field ∈ decl.fields, StartsAtZero (files.flatMap declaredFile) type.fullName field) →
      type.ZeroDefaults) := by
  have hw := resolve_wellFormed h type ht
  have hbits : ∀ field ∈ type.fields, ∀ plain, field.strategy = .singular plain .implicit → field.presenceBit = none :=
    fun field hf plain hs => presenceBit_of_implicit h ht hf hs
  refine ⟨fun index field plain hf hs => ?_, fun table => Message.encode_new table hw hbits,
    zeroDefaults_of_declared hfiles h ht⟩
  have hbit := hbits field (List.mem_of_getElem? hf) plain hs
  refine ⟨?_, Message.encodeSlot_eq_nil_iff hbit index, fun table m hm => ?_⟩
  · rw [Message.slotAt_new hf, Message.slot_new hs]
  · refine ⟨Message.slotAt_clear hm hf hs, Message.slotAt_clearField hm hf hs hbit, fun value => ?_⟩
    have hslot := Message.set_untracked hm hf hs hbit value
    exact ⟨Message.slotAt_of_getElem? hslot, fun hg htype htyped hfits hnests =>
      Message.back_of_slot hg htype htyped hfits hnests hf hs hbit hslot⟩

/-- A file in which a field that is not tracked declares a default. -/
def five : Descriptor.File where
  dialect := some "proto3"
  messages := [.of "M" [.withDefault (.scalar "x" 1 .int32) "5", .scalar "y" 2 .bool]]

theorem untracked_omission_five :
    let type := (Sample.tableOf five true).message "M"
    (Message.new type).slotAt 0 = .scalar (.int32 5) ∧ (Message.new type).slotAt 1 = .scalar (.bool false) ∧
      ∀ table, (Message.new type).encode table type ≠ [] := by
  intro type
  obtain ⟨hnamed, hx, hy, hnonzero⟩ :
      ((Sample.tableOf five true).messages.any fun type => type.fullName == "M") = true ∧
      (type.fields[0]?.map fun field => (field.strategy, field.initial (.scalar .int32))) =
        some (.singular (.scalar .int32) .implicit, .int32 5) ∧
      (type.fields[1]?.map fun field => (field.strategy, field.initial (.scalar .bool))) =
        some (.singular (.scalar .bool) .implicit, .bool false) ∧
      ¬ type.ZeroDefaults := by
    decide +kernel
  obtain ⟨registry, resolved, hfiles, hresolve, hmem⟩ := mem_tableOf (TypeTable.message_mem hnamed)
  obtain ⟨hfields, hnew, _⟩ := Registry.untracked_omission hfiles hresolve hmem
  refine ⟨?_, ?_, fun table hempty => hnonzero ((hnew table).mp hempty)⟩
  · obtain ⟨field, hf, hpair⟩ := Option.map_eq_some_iff.mp hx
    obtain ⟨hs, hinitial⟩ := Prod.mk.inj hpair
    rw [(hfields 0 field _ hf hs).1, hinitial]
  · obtain ⟨field, hf, hpair⟩ := Option.map_eq_some_iff.mp hy
    obtain ⟨hs, hinitial⟩ := Prod.mk.inj hpair
    rw [(hfields 1 field _ hf hs).1, hinitial]

/-- A new message takes bytes, and a zero that is set is read back as five. An enum whose first value is not zero
    does the same without a declared default. -/
theorem untracked_omission_fails :
    let table := Sample.tableOf five true
    let type := table.message "M"
    let zero := (Message.new type).set (type.fields[0]?.getD default) 0 (.scalar (.int32 0))
    let back := (Message.mergeBytes table type (.new type) (zero.encode table type)).1
    let suits : Descriptor.File := {
      dialect := some "proto3"
      messages := [.of "Card" [.enum "suit" 1 ".Suit"]]
      enums := [.of "Suit" [("CLUBS", 1), ("NONE", 0)]] }
    let cards := Sample.tableOf suits true
    (Message.new type).encode table type = [8, 5] ∧ zero.encode table type = [] ∧ back.encode table type = [8, 5] ∧
      (Message.new (cards.message "Card")).encode cards (cards.message "Card") = [8, 1] := by
  decide +kernel

end Protobuf
