/-
  Protobuf.Proofs.Dispatch — a field's own tag leads to it, and what is read behind it.

  Tags of different fields differ in their number and the two tags of one field in their wire type, so no
  tag stands in a dispatch table twice (`tags_nodup`) and every entry is found under its tag (`find_entry`).
  From this, for each strategy, what merging absorbs at the tag a field is written with and the bytes of one
  value: a number, a text, a run, a sub-message, a map entry, a member of a choice.
-/

import Protobuf.Proofs.Locality
import Protobuf.Proofs.Reference

namespace Protobuf

open Schema

namespace Schema

/-- Field numbers are such as can be written, and no two fields share one. -/
structure MessageType.Numbered (type : MessageType) : Prop where
  number_ne : ∀ field ∈ type.fields, field.number ≠ 0
  number_le : ∀ field ∈ type.fields, field.number ≤ FieldNumber.max
  nodup : (type.fields.map Field.number).Nodup

theorem Field.number_of_mem_dispatch {field : Field} {index : Nat} {entry : Dispatch}
    (h : entry ∈ field.dispatch index) : entry.field = index ∧ ∃ w, entry.tag = Tag.make field.number w := by
  unfold dispatch at h
  split at h
  · rcases List.mem_cons.mp h with rfl | h
    · exact ⟨rfl, _, rfl⟩
    · cases List.mem_singleton.mp h
      exact ⟨rfl, _, rfl⟩
  · cases List.mem_singleton.mp h
    exact ⟨rfl, _, rfl⟩

theorem Field.kind_of_runKind {field : Field} {kind : Kind} (h : field.strategy.runKind? = some kind) :
    kind.isLengthDelimited = false := by
  unfold strategy at h
  split at h
  · cases h
  · split at h
    · cases h
    · cases h
    · cases h
    · cases h
    · split at h
      · cases h
      · rename_i hkind
        split at h <;> cases h <;> exact Bool.eq_false_iff.mpr hkind

theorem Kind.wireType_ne {kind : Kind} (h : kind.isLengthDelimited = false) : kind.wireType ≠ .lengthDelimited := by
  cases kind with
  | enum => decide
  | scalar type =>
    revert h
    cases type <;> decide

/-- The wire type that an action reads. -/
def Strategy.form (strategy : Strategy) : Action → WireType
  | .run => .lengthDelimited
  | .element | .single => (strategy.runKind?.map Kind.wireType).getD strategy.wireType

/-- The tag of a field in the form that an action reads. -/
def Field.entry (field : Field) (index : Nat) (action : Action) : Dispatch :=
  ⟨Tag.make field.number (field.strategy.form action), index, action⟩

/-- The forms in which a field is read. -/
def Strategy.actions (strategy : Strategy) : List Action :=
  if strategy.runKind?.isSome then [.element, .run] else [.single]

theorem Field.dispatch_eq (field : Field) (index : Nat) :
    field.dispatch index = field.strategy.actions.map (field.entry index) := by
  unfold dispatch Strategy.actions
  cases hrun : field.strategy.runKind? with
  | some kind => simp [entry, Strategy.form, hrun]
  | none => simp [entry, Strategy.form, hrun]

/-- The forms of one field have different wire types. -/
theorem Field.forms_nodup (field : Field) : (field.strategy.actions.map field.strategy.form).Nodup := by
  unfold Strategy.actions
  cases hrun : field.strategy.runKind? with
  | none => exact List.nodup_singleton _
  | some kind =>
    have hne : kind.wireType ≠ .lengthDelimited := Kind.wireType_ne (kind_of_runKind hrun)
    simpa [Strategy.form, hrun] using hne

namespace MessageType

variable {type : MessageType}

theorem mem_dispatch_iff {entry : Dispatch} :
    entry ∈ type.dispatch ↔ ∃ (index : Nat) (field : Field), type.fields[index]? = some field ∧ entry ∈ field.dispatch index := by
  rw [dispatch, List.mem_flatMap]
  constructor
  · rintro ⟨⟨field, index⟩, hp, he⟩
    exact ⟨index, field, List.mem_zipIdx_iff_getElem?.mp hp, he⟩
  · rintro ⟨index, field, hf, he⟩
    exact ⟨(field, index), List.mem_zipIdx_iff_getElem?.mpr hf, he⟩

theorem number_injective (h : type.Numbered) {i j : Nat} {a b : Field} (ha : type.fields[i]? = some a)
    (hb : type.fields[j]? = some b) (hn : a.number = b.number) : i = j := by
  have hlt : i < (type.fields.map Field.number).length := by
    rw [List.length_map]
    exact (List.getElem?_eq_some_iff.mp ha).1
  refine (List.getElem?_inj hlt h.nodup).mp ?_
  rw [List.getElem?_map, List.getElem?_map, ha, hb, Option.map_some, Option.map_some, hn]

/-- No tag stands in the table twice. -/
theorem Numbered.tags_nodup (h : type.Numbered) : (type.dispatch.map Dispatch.tag).Nodup := by
  have hindices : (type.fields.zipIdx.map Prod.snd).Nodup := by
    rw [List.zipIdx_map_snd]
    exact List.nodup_range'
  rw [dispatch, List.map_flatMap, List.nodup_flatMap]
  constructor
  · rintro ⟨field, index⟩ hmem
    have hle := h.number_le field (List.mem_of_getElem? (List.mem_zipIdx_iff_getElem?.mp hmem))
    have hmap : (field.dispatch index).map Dispatch.tag =
        (field.strategy.actions.map field.strategy.form).map (Tag.make field.number) := by
      rw [Field.dispatch_eq, List.map_map, List.map_map]
      rfl
    dsimp only
    rw [hmap]
    exact field.forms_nodup.map_on fun w _ v _ he => (Tag.make_inj hle hle he).2
  · refine hindices.of_map.imp_of_mem ?_
    rintro ⟨a, i⟩ ⟨b, j⟩ ha hb hne tag hta htb
    have ha := List.mem_zipIdx_iff_getElem?.mp ha
    have hb := List.mem_zipIdx_iff_getElem?.mp hb
    obtain ⟨x, hx, rfl⟩ := List.mem_map.mp hta
    obtain ⟨y, hy, htag⟩ := List.mem_map.mp htb
    obtain ⟨_, w, hw⟩ := Field.number_of_mem_dispatch hx
    obtain ⟨_, v, hv⟩ := Field.number_of_mem_dispatch hy
    rw [hw, hv] at htag
    have hnumber := (Tag.make_inj (h.number_le b (List.mem_of_getElem? hb)) (h.number_le a (List.mem_of_getElem? ha)) htag).1
    obtain rfl := number_injective h hb ha hnumber
    cases ha.symm.trans hb
    exact hne rfl

/-- Every entry is found under its tag. -/
theorem Numbered.find_entry (h : type.Numbered) {entry : Dispatch} (he : entry ∈ type.dispatch) :
    (type.dispatch.find? fun other => other.tag == entry.tag) = some entry := by
  cases hfind : type.dispatch.find? fun other => other.tag == entry.tag with
  | none => exact absurd (beq_self_eq_true _) (List.find?_eq_none.mp hfind entry he)
  | some found =>
    have htag : found.tag = entry.tag := by simpa using List.find?_some hfind
    rw [List.inj_on_of_nodup_map h.tags_nodup (List.mem_of_find?_eq_some hfind) he htag]

end MessageType

/-- What the tag that a field is written with asks for. -/
def Field.ownAction (field : Field) : Action :=
  match field.strategy with
  | .repeated _ => .element
  | .packed _ => .run
  | _ => .single

/-- The entry of the tag that a field is written with. -/
def Field.own (field : Field) (index : Nat) : Dispatch :=
  ⟨Tag.make field.number field.strategy.wireType, index, field.ownAction⟩

theorem Field.own_mem (field : Field) (index : Nat) : field.own index ∈ field.dispatch index := by
  unfold dispatch own ownAction
  cases field.strategy with
  | repeated plain => exact List.mem_cons_self ..
  | packed plain => exact List.mem_cons_of_mem _ (List.mem_singleton_self _)
  | _ => exact List.mem_singleton_self _

end Schema

namespace Message

variable {table : TypeTable} {type : MessageType} {index : Nat} {field : Field}

/-- At the tag of an entry its field is read with its action. -/
theorem step_entry (h : type.Numbered) {entry : Dispatch} (he : entry ∈ type.dispatch)
    (hf : type.fields[entry.field]? = some field) (m : Message) :
    m.step table type entry.tag = m.readField table type field entry.field entry.action := by
  funext r
  rw [step, h.find_entry he]
  dsimp only
  rw [hf]
  rfl

/-- At its own tag a field is read in its own form. -/
theorem step_own (h : type.Numbered) (hf : type.fields[index]? = some field) (m : Message) :
    m.step table type (Tag.make field.number field.strategy.wireType) =
      m.readField table type field index field.ownAction :=
  step_entry h (MessageType.mem_dispatch_iff.mpr ⟨index, field, hf, field.own_mem index⟩) hf m

theorem spells_own (h : type.Numbered) (hf : type.fields[index]? = some field) :
    Tag.Spells field.tagBytes (Tag.make field.number field.strategy.wireType) :=
  Tag.spells_make (h.number_ne _ (List.mem_of_getElem? hf)) (h.number_le _ (List.mem_of_getElem? hf)) _

/-- What the step at a field's own tag does, merging absorbs. -/
theorem absorbs_own (h : type.Numbered) (hf : type.fields[index]? = some field) {room : Nat} {bytes : Bytes}
    {m m' : Message}
    (hn : Step.Nexts (m.readField table type field index field.ownAction) field.tagBytes room bytes m') :
    Absorbs table type room (field.tagBytes ++ bytes) m m' := by
  refine absorbs_next (spells_own h hf) ?_
  rw [step_own h hf]
  exact hn

variable {plain : PlainType} {value : Scalar} {key : ScalarType} {body : Bytes} {ref : TypeRef} {out : Message}
  {valueType : ValueType}

theorem absorbs_own_into (h : type.Numbered) (hf : type.fields[index]? = some field) {room : Nat} {counted : Bool}
    {m m' child child' : Message} {place : Place} {childType : MessageType}
    (hread : m.readField table type field index field.ownAction = fun r => .ofNested counted r m' place childType child)
    (hlt : body.length < 0x100000000) (hroom : Reader.levels counted ≤ room)
    (hc : Absorbs table childType (room - Reader.levels counted) body child child') :
    Absorbs table type room (field.tagBytes ++ Frame.encode body) m (m'.put table type place child') := by
  refine absorbs_into (spells_own h hf) ?_ hc
  rw [step_own h hf, hread]
  exact Step.opens_ofNested (Reader.spells_encode (Nat.lt_trans hlt (by decide))) hroom m' place childType child

/-! ## Single values and runs -/

theorem slotAt_of_getElem? {m : Message} {slot : Slot Message} (h : m.body.slots[index]? = some slot) :
    m.slotAt index = slot := by
  rw [slotAt, h]
  rfl

theorem setSlot_self {m : Message} {slot : Slot Message} (h : m.body.slots[index]? = some slot) :
    m.setSlot index slot = m := by
  have hset : m.body.slots.set index slot = m.body.slots := by
    obtain ⟨hlt, rfl⟩ := List.getElem?_eq_some_iff.mp h
    exact List.set_getElem_self hlt
  show mk { m.body with slots := m.body.slots.set index slot } = m
  rw [hset]
  cases m
  rfl

@[simp] theorem setSlot_setSlot (m : Message) (a b : Slot Message) :
    (m.setSlot index a).setSlot index b = m.setSlot index b := by
  show mk { m.body with slots := (m.body.slots.set index a).set index b } = _
  rw [List.set_set]
  rfl

theorem getElem?_setSlot {m : Message} (h : index < m.body.slots.length) (slot : Slot Message) :
    (m.setSlot index slot).body.slots[index]? = some slot :=
  List.getElem?_set_self h

theorem slotAt_setSlot {m : Message} (h : index < m.body.slots.length) (slot : Slot Message) :
    (m.setSlot index slot).slotAt index = slot :=
  slotAt_of_getElem? (getElem?_setSlot h slot)

variable {room : Nat} {m : Message}

theorem absorbs_scalar (h : type.Numbered) (hf : type.fields[index]? = some field) {presence : Presence}
    (hstrategy : field.strategy = .singular plain presence) (hkind : value.kind = plain.kind) (hsized : value.Sized) :
    Absorbs table type room (field.tagBytes ++ value.encode) m (m.setScalar field index value) := by
  refine absorbs_own h hf ?_
  have hread : m.readField table type field index field.ownAction =
      fun r => .ofRead (Reader.readScalar value.kind) r m (m.setScalar field index) := by
    funext r
    simp only [readField, hstrategy, hkind]
  rw [hread]
  exact Step.nexts_ofRead (Reader.takes_readScalar hsized) _ _ _ _

theorem absorbs_element (h : type.Numbered) (hf : type.fields[index]? = some field)
    (hstrategy : field.strategy = .repeated plain) {old : List Scalar} (hslot : m.slotAt index = .scalars old)
    (hkind : value.kind = plain.kind) (hsized : value.Sized) :
    Absorbs table type room (field.tagBytes ++ value.encode) m (m.setSlot index (.scalars (old ++ [value]))) := by
  refine absorbs_own h hf ?_
  have hread : m.readField table type field index field.ownAction =
      fun r => .ofRead (Reader.readScalar value.kind) r m fun v => m.setSlot index (.scalars (old ++ [v])) := by
    funext r
    simp only [readField, hstrategy, hkind, Field.ownAction, appendScalars, hslot]
    rfl
  rw [hread]
  exact Step.nexts_ofRead (Reader.takes_readScalar hsized) _ _ _ _

theorem absorbs_run (h : type.Numbered) (hf : type.fields[index]? = some field)
    (hstrategy : field.strategy = .packed plain) {old : List Scalar} (hslot : m.slotAt index = .scalars old)
    {values : List Scalar} (hvalues : ∀ value ∈ values, value.kind = plain.kind ∧ value.Sized)
    (hlt : (Scalar.encodeAll values).length < 0x100000000) :
    Absorbs table type room (field.tagBytes ++ Frame.encode (Scalar.encodeAll values)) m
      (m.setSlot index (.scalars (old ++ values))) := by
  refine absorbs_own h hf ?_
  have hread : m.readField table type field index field.ownAction =
      fun r => .ofRun (Reader.readRun plain.kind r) fun vs => m.setSlot index (.scalars (old ++ vs)) := by
    funext r
    simp only [readField, hstrategy, Field.ownAction, if_true, Step.ofRun, appendScalars, hslot]
  rw [hread]
  intro r rest hv _ hw _
  have hspells := Reader.spells_encode (Nat.lt_trans hlt (by decide : 0x100000000 < 0x10000000000000000))
  refine ⟨_, ?_, Reader.past_forward r _⟩
  dsimp only
  rw [Reader.readRun_encodeAll hvalues hspells hv hw]
  rfl

theorem absorbs_text (h : type.Numbered) (hf : type.fields[index]? = some field)
    (hstrategy : field.strategy = .texts plain) (hlt : index < m.body.slots.length) {old : Repeated Scalar}
    (hslot : m.slotAt index = .texts old) (hkind : value.kind = plain.kind) (hsized : value.Sized) :
    Absorbs table type room (field.tagBytes ++ value.encode) m (m.setSlot index (.texts (old.push value))) := by
  refine absorbs_own h hf ?_
  have hread : m.readField table type field index field.ownAction =
      fun r => .ofRead (Reader.readScalar value.kind) r (m.addText index plain.kind)
        fun v => m.setSlot index (.texts (old.push v)) := by
    funext r
    simp only [readField, hstrategy, hkind]
    congr 1
    funext v
    simp only [addText, hslot, setLastText, slotAt_setSlot hlt, setSlot_setSlot]
    simp [Repeated.setLast, Repeated.modify, Repeated.add, Repeated.push]
  rw [hread]
  exact Step.nexts_ofRead (Reader.takes_readScalar hsized) _ _ _ _

/-! ## Sub-messages -/

theorem absorbs_message (h : type.Numbered) (hf : type.fields[index]? = some field)
    (hstrategy : field.strategy = .message ref) {value : Singular Message} (hslot : m.slotAt index = .message value)
    (hlt : body.length < 0x100000000) (hroom : 0 < room)
    (hout : Absorbs table (table.childAt type index) (room - 1) body
      (value.getOrInit (clear (table.childAt type index)) (new (table.childAt type index))) out) :
    Absorbs table type room (field.tagBytes ++ Frame.encode body) m (m.setSlot index (.message (.present out))) := by
  have hread : m.readField table type field index field.ownAction = fun r =>
      let start := value.getOrInit (clear (table.childAt type index)) (new (table.childAt type index))
      .ofNested true r (m.setSlot index (.message (.present start))) (.field index) (table.childAt type index) start := by
    funext r
    simp only [readField, hstrategy, hslot]
  have habsorbs := absorbs_own_into h hf hread hlt hroom hout
  rwa [put, setSlot_setSlot] at habsorbs

theorem absorbs_added (h : type.Numbered) (hf : type.fields[index]? = some field)
    (hstrategy : field.strategy = .messages ref) (hindex : index < m.body.slots.length) {values : Repeated Message}
    (hslot : m.slotAt index = .messages values) (hlt : body.length < 0x100000000) (hroom : 0 < room)
    (hout : Absorbs table (table.childAt type index) (room - 1) body
      (values.spare (clear (table.childAt type index)) (new (table.childAt type index))) out) :
    Absorbs table type room (field.tagBytes ++ Frame.encode body) m
      (m.setSlot index (.messages (values.push out))) := by
  have hread : m.readField table type field index field.ownAction = fun r =>
      let start := values.spare (clear (table.childAt type index)) (new (table.childAt type index))
      .ofNested true r (m.setSlot index (.messages (values.push start))) (.element index) (table.childAt type index)
        start := by
    funext r
    simp only [readField, hstrategy, hslot]
  have habsorbs := absorbs_own_into h hf hread hlt hroom hout
  simp only [put, slotAt_setSlot hindex, setSlot_setSlot] at habsorbs
  have hlast : ∀ start, (values.push start).setLast out = values.push out := by
    intro start
    simp [Repeated.setLast, Repeated.modify, Repeated.push]
  rwa [hlast] at habsorbs

theorem absorbs_member_scalar (h : type.Numbered) (hf : type.fields[index]? = some field) {slot : Nat}
    (hstrategy : field.strategy = .member slot (.plain plain)) (hkind : value.kind = plain.kind)
    (hsized : value.Sized) :
    Absorbs table type room (field.tagBytes ++ value.encode) m (m.setMember slot index (.scalar value)) := by
  refine absorbs_own h hf ?_
  have hread : m.readField table type field index field.ownAction =
      fun r => .ofRead (Reader.readScalar value.kind) r m fun v => m.setMember slot index (.scalar v) := by
    funext r
    simp only [readField, hstrategy, hkind]
  rw [hread]
  exact Step.nexts_ofRead (Reader.takes_readScalar hsized) _ _ _ _

theorem absorbs_member_message (h : type.Numbered) (hf : type.fields[index]? = some field) {slot : Nat}
    (hstrategy : field.strategy = .member slot (.message ref)) (hlt : body.length < 0x100000000) (hroom : 0 < room)
    {start : Message} {choice : Choice Message}
    (hselect : (m.choiceAt slot).select (clear (table.childAt type index)) (new (table.childAt type index)) index =
      (start, choice)) (hout : Absorbs table (table.childAt type index) (room - 1) body start out) :
    Absorbs table type room (field.tagBytes ++ Frame.encode body) m
      ((m.setChoice slot choice).setMember slot index (.message out)) := by
  have hread : m.readField table type field index field.ownAction = fun r =>
      .ofNested true r (m.setChoice slot choice) (.member slot index) (table.childAt type index) start := by
    funext r
    simp only [readField, hstrategy, hselect]
  exact absorbs_own_into h hf hread hlt hroom hout

/-! ## Map entries -/

theorem type_of_map {value : ValueType} (h : field.strategy = .map key value) :
    ∃ start, field.type = .map key value start := by
  unfold Field.strategy at h
  split at h
  · rename_i start htype
    cases h
    exact ⟨start, htype⟩
  · split at h
    · cases h
    · cases h
    · cases h
    · cases h
    · split at h
      · cases h
      · split at h <;> cases h

theorem entryType_numbered (key : ScalarType) (value : ValueType) (start : Option Scalar) :
    (entryType key value start).Numbered where
  number_ne := by simp [entryType]
  number_le := by simp [entryType, FieldNumber.max]
  nodup := by simp [entryType]

/-- The second field of an entry has the messages of the map. -/
theorem childAt_entryType {value : ValueType} {start : Option Scalar} (hf : type.fields[index]? = some field)
    (htype : field.type = .map key value start) :
    table.childAt (entryType key value start) 1 = table.childAt type index := by
  show table.child _ = table.child (type.fields[index]?.getD default)
  rw [hf, Option.getD_some, TypeTable.child, TypeTable.child, htype]
  cases value <;> rfl

/-- The fields of an entry have no presence bits. -/
theorem absorbs_entry_scalar {start : Option Scalar} (plain : PlainType)
    (hstrategy : ∃ f, (entryType key valueType start).fields[index]? = some f ∧
      f.strategy = .singular plain .implicit ∧ f.number = index + 1 ∧ f.presenceBit = none)
    (hkind : value.kind = plain.kind) (hsized : value.Sized) :
    Absorbs table (entryType key valueType start) room (Tag.encode (Tag.make (index + 1) value.kind.wireType) ++ value.encode)
      m (m.setSlot index (.scalar value)) := by
  obtain ⟨f, hf, hs, hnumber, hbit⟩ := hstrategy
  have habsorbs : Absorbs table (entryType key valueType start) room (f.tagBytes ++ value.encode) m
      (m.setScalar f index value) := absorbs_scalar (entryType_numbered ..) hf hs hkind hsized
  rw [setScalar, mark, hbit, Field.tagBytes, hnumber, hs] at habsorbs
  rw [hkind]
  exact habsorbs

/-- Reading a written entry as a message of its two fields gives its key and value. -/
theorem absorbs_entry_fields (start : Option Scalar) {child : MessageType}
    (hchild : table.childAt (entryType key valueType start) 1 = child) {k : Scalar} (hkey : k.kind = .scalar key)
    (hksized : k.Sized) {value : Value Bytes} (hsuits : value.suits valueType = true)
    (hvsized : ∀ v, value = .scalar v → v.Sized) {out : Value Message}
    (hout : value.Rel (fun body out => 0 < room ∧ body.length < 0x100000000 ∧
      Absorbs table child (room - 1) body (new child) out) out) :
    ∃ read, Absorbs table (entryType key valueType start) room (Entry.wire ⟨k, value⟩)
        (new (entryType key valueType start)) read ∧ entryOf child read = ⟨k, out⟩ := by
  have hfirst : Absorbs table (entryType key valueType start) room
      (Tag.encode (Tag.make 1 k.kind.wireType) ++ k.encode) (new (entryType key valueType start))
      ((new (entryType key valueType start)).setSlot 0 (.scalar k)) :=
    absorbs_entry_scalar (.scalar key) ⟨_, rfl, rfl, rfl, rfl⟩ hkey hksized
  cases hout with
  | scalar v =>
    cases valueType with
    | message ref => cases hsuits
    | plain plain =>
      have hkind : v.kind = plain.kind := eq_of_beq hsuits
      have hsecond : Absorbs table (entryType key (.plain plain) start) room
          (Tag.encode (Tag.make 2 v.kind.wireType) ++ v.encode)
          ((new (entryType key (.plain plain) start)).setSlot 0 (.scalar k))
          (((new (entryType key (.plain plain) start)).setSlot 0 (.scalar k)).setSlot 1 (.scalar v)) :=
        absorbs_entry_scalar plain ⟨_, rfl, rfl, rfl, rfl⟩ hkind (hvsized v rfl)
      exact ⟨_, hfirst.trans hsecond, rfl⟩
  | @message body out h =>
    cases valueType with
    | plain plain => cases hsuits
    | message ref =>
      obtain ⟨hroom, hlt, habsorbs⟩ := h
      subst hchild
      obtain ⟨f, hf, hs, htag⟩ : ∃ f, (entryType key (.message ref) start).fields[1]? = some f ∧
          f.strategy = .message ref ∧ f.tagBytes = Tag.encode (Tag.make 2 .lengthDelimited) := ⟨_, rfl, rfl, rfl⟩
      have hslot : ((new (entryType key (.message ref) start)).setSlot 0 (.scalar k)).slotAt 1 = .message .empty := rfl
      have hsecond := absorbs_message (entryType_numbered ..) hf hs hslot hlt hroom habsorbs
      rw [htag] at hsecond
      exact ⟨_, hfirst.trans hsecond, rfl⟩

theorem absorbs_entry (h : type.Numbered) (hf : type.fields[index]? = some field)
    (hstrategy : field.strategy = .map key valueType) {entries : List (Entry Message)}
    (hslot : m.slotAt index = .map entries) {k : Scalar} (hkey : k.kind = .scalar key) (hksized : k.Sized)
    {value : Value Bytes} (hsuits : value.suits valueType = true) (hvsized : ∀ v, value = .scalar v → v.Sized)
    (hlt : (Entry.wire ⟨k, value⟩).length < 0x100000000) {out : Value Message}
    (hout : value.Rel (fun body out => 0 < room ∧ body.length < 0x100000000 ∧
      Absorbs table (table.childAt type index) (room - 1) body (new (table.childAt type index)) out) out) :
    Absorbs table type room (field.tagBytes ++ Frame.encode (Entry.wire ⟨k, value⟩)) m
      (m.setSlot index (.map (Entry.insert entries ⟨k, out⟩))) := by
  obtain ⟨start, htype⟩ := type_of_map hstrategy
  have hread : m.readField table type field index field.ownAction = fun r =>
      .ofNested false r m (.entry index) (entryType key valueType start) (new (entryType key valueType start)) := by
    funext r
    simp only [readField, hstrategy, htype]
  obtain ⟨read, habsorbs, hof⟩ :=
    absorbs_entry_fields start (childAt_entryType hf htype) hkey hksized hsuits hvsized hout
  have hput := absorbs_own_into h hf hread hlt (Nat.zero_le _) habsorbs
  rwa [put, hof, insertEntry, hslot] at hput

end Message

end Protobuf
