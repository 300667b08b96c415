/-
  Protobuf.Proofs.Sound — what reading keeps at every level.

  A `Rule` asks something of single values and of unknown bytes. A message is `Sound` if at every level in
  use the rule holds and each tracked field whose presence bit is clear has its default. Every change that
  reading makes keeps a message sound, and so does merging, whether or not it fails (`merge_sound`).
-/

import Protobuf.Proofs.Fields
import Protobuf.Proofs.Roundtrip

namespace Protobuf

open Schema

/-! ## Rules -/

/-- What is asked of single values and, given how many more levels may open, of unknown bytes. -/
structure Rule where
  value : Scalar → Prop
  unknown : Nat → MessageType → Bytes → Prop

/-- The values that a field and the entries of a map can start with, other than zero. -/
def Schema.Field.starts (field : Field) : List Scalar :=
  field.default.toList ++
    match field.type with
    | .map _ _ start => start.toList
    | .value _ => []

/-- What holds of all values that a message starts with, apart from zeros. -/
def Schema.MessageType.Defaults (P : Scalar → Prop) (type : MessageType) : Prop :=
  ∀ field ∈ type.fields, ∀ value ∈ field.starts, P value

instance (P : Scalar → Prop) [DecidablePred P] (type : MessageType) : Decidable (type.Defaults P) :=
  inferInstanceAs (Decidable (∀ field ∈ type.fields, ∀ value ∈ field.starts, P value))

/-- All that reading adds to messages of the table satisfies the rule. -/
structure Rule.Lawful (table : TypeTable) (rule : Rule) : Prop where
  sized : ∀ {value}, value.Sized → rule.value value
  defaults : ∀ type ∈ table.messages, type.Defaults rule.value
  nil : ∀ room type, rule.unknown room type []
  append : ∀ {room type old tag head payload}, rule.unknown room type old → Tag.Spells head tag → Tail room tag payload →
    (∀ entry ∈ type.dispatch, entry.tag ≠ tag) → rule.unknown room type (old ++ (head ++ payload))

theorem Rule.Lawful.childAt {table : TypeTable} {rule : Rule} (h : rule.Lawful table) (type : MessageType) (index : Nat) :
    (table.childAt type index).Defaults rule.value := by
  have hdefault : (default : MessageType).Defaults rule.value := by
    intro field hf
    cases hf
  exact TypeTable.childAt_of_messages h.defaults hdefault type index

theorem Scalar.sized_zero (kind : Kind) : (Scalar.zero kind).Sized := by
  cases kind with
  | enum => trivial
  | scalar type =>
    cases type with
    | string => decide
    | bytes => decide
    | _ => trivial

theorem Schema.MessageType.Defaults.initial {P : Scalar → Prop} {type : MessageType} (h : type.Defaults P)
    (hsized : ∀ {value}, value.Sized → P value) {field : Field} (hf : field ∈ type.fields) (plain : PlainType) :
    P (field.initial plain) := by
  unfold Field.initial
  cases hd : field.default with
  | none => exact hsized (Scalar.sized_zero _)
  | some value => exact h field hf value (List.mem_append_left _ (Option.mem_toList.mpr hd))

theorem Schema.MessageType.Defaults.entryType {P : Scalar → Prop} {type : MessageType} (h : type.Defaults P)
    {field : Field} (hf : field ∈ type.fields) {key : ScalarType} {value : ValueType} {start : Option Scalar}
    (htype : field.type = .map key value start) : (entryType key value start).Defaults P := by
  intro f hmem v hv
  rcases List.mem_cons.mp hmem with rfl | hmem
  · cases hv
  · cases List.mem_singleton.mp hmem
    have hv : v ∈ start.toList ++ [] := hv
    rw [List.append_nil] at hv
    refine h field hf v (List.mem_append_right _ ?_)
    rw [htype]
    exact hv

/-! ## One level -/

namespace Body

variable {M : Type} {type : MessageType} {body : Body M} {index : Nat} {field : Field}

theorem mem_values_iff {value : Scalar} : value ∈ body.values ↔
    (∃ slot ∈ body.slots, value ∈ slot.values) ∨ ∃ choice ∈ body.choices, ∃ i, choice.selected = some ⟨i, .scalar value⟩ := by
  rw [values, List.mem_append, List.mem_flatMap, List.mem_filterMap]
  refine or_congr Iff.rfl (exists_congr fun choice => and_congr Iff.rfl ?_)
  constructor
  · intro h
    obtain ⟨⟨i, value⟩, hsel, hv⟩ := Option.bind_eq_some_iff.mp h
    cases value with
    | scalar v =>
      cases hv
      exact ⟨i, hsel⟩
    | message m => cases hv
  · rintro ⟨i, hsel⟩
    rw [hsel]
    rfl

/-- One slot and the mark of its field change together. -/
theorem Settled.write (h : body.Settled type) (hw : type.WellFormed) (hf : type.fields[index]? = some field)
    {slot : Slot M} {presence : PresenceBits}
    (hbits : ∀ bit, presence.isSet bit = false → body.presence.isSet bit = false ∨ field.presenceBit = some bit)
    (hown : ∀ bit, field.presenceBit = some bit → presence.isSet bit = false → slot.isInitial field = true) :
    Settled type { body with slots := body.slots.set index slot, presence } := by
  refine settled_iff.mpr fun i f s bit hfi hsi hbit hclear => ?_
  dsimp only at hsi hclear
  rw [List.getElem?_set] at hsi
  split at hsi
  · rename_i he
    subst he
    split at hsi
    · cases hsi
      cases hf.symm.trans hfi
      exact hown bit hbit hclear
    · cases hsi
  · rename_i hne
    rcases hbits bit hclear with hbefore | hsame
    · exact settled_iff.mp h i f s bit hfi hsi hbit hbefore
    · exact absurd (hw.field_of_bit hf hfi hsame hbit) hne

theorem settled_new (hw : type.WellFormed) : (Message.new type).body.Settled type := by
  refine settled_iff.mpr fun index field slot bit hf hs hbit _ => ?_
  cases (Message.slots_new hf).symm.trans hs
  obtain ⟨_, plain, presence, hstrategy⟩ := hw.bits field (List.mem_of_getElem? hf) bit hbit
  unfold Slot.isInitial Slot.new
  simp only [hstrategy, beq_self_eq_true]

end Body

/-! ## All levels -/

section Definitions

variable (table : TypeTable) (rule : Rule)

/-- At every level in use the rule holds, and tracked fields whose presence bit is clear have their defaults. -/
inductive Message.Sound : Nat → MessageType → Message → Prop
  | mk {room : Nat} {type : MessageType} {body : Body Message} (values : ∀ value ∈ body.values, rule.value value)
      (settled : body.Settled type) (unknown : rule.unknown room type body.unknown)
      (parts : ∀ part ∈ body.inUse, Sound (room - 1) (table.childAt type part.1) part.2) : Sound room type (mk body)

/-- What the slots of a sound message hold. -/
structure Slot.Sound (room : Nat) (child : MessageType) (slot : Slot Message) : Prop where
  values : ∀ value ∈ slot.values, rule.value value
  inUse : ∀ x ∈ slot.inUse, Message.Sound table rule (room - 1) child x

/-- What a member of a sound message or an entry of its maps holds. -/
inductive Value.Sound (room : Nat) (child : MessageType) : Value Message → Prop
  | scalar {value : Scalar} : rule.value value → Sound room child (.scalar value)
  | message {x : Message} : Message.Sound table rule (room - 1) child x → Sound room child (.message x)

/-- The levels that a sub-message in this place takes. -/
def Place.levels : Place → Nat
  | .entry _ => 0
  | _ => 1

/-- The message is sound, and so is the sub-message opened in it with the levels left there. -/
def Step.Sound (type : MessageType) (r : Reader) : Step → Prop
  | next m _ => m.Sound table rule r.room type
  | stop m _ _ => m.Sound table rule r.room type
  | into m place childType child inner _ => m.Sound table rule r.room type ∧ inner.Valid ∧
      inner.room = r.room - place.levels ∧ child.Sound table rule inner.room childType

end Definitions

namespace Message

variable {table : TypeTable} {rule : Rule} {type child : MessageType} {m a b : Message} {room index slot : Nat}
  {field : Field}

theorem sound_new (hl : rule.Lawful table) (hw : type.WellFormed) (hd : type.Defaults rule.value) (room : Nat) :
    Sound table rule room type (new type) := by
  refine .mk (fun v hv => ?_) (Body.settled_new hw) (hl.nil room type)
    fun part hp => absurd hp (parts_new Slot.inUse_new rfl part)
  rcases Body.mem_values_iff.mp hv with ⟨slot, hs, hv⟩ | ⟨choice, hc, i, hsel⟩
  · obtain ⟨field, hf, rfl⟩ := List.mem_map.mp (show slot ∈ type.fields.map Slot.new from hs)
    unfold Slot.new at hv
    cases hstrategy : field.strategy with
    | singular plain presence =>
      rw [hstrategy] at hv
      cases List.mem_singleton.mp hv
      exact hd.initial hl.sized hf plain
    | _ =>
      rw [hstrategy] at hv
      cases hv
  · obtain ⟨_, _, rfl⟩ := List.mem_map.mp (show choice ∈ type.oneofs.map fun _ => ({} : Choice Message) from hc)
    cases hsel

namespace Sound

theorem of_same (hb : Sound table rule room type b) (hheld : Held table type b) (h : a.Same b) :
    Sound table rule room type a := by
  induction hb generalizing a with
  | mk values settled unknown parts ih =>
    obtain ⟨a⟩ := a
    have hrel := same_mk_iff.mp h
    have hshaped := hheld.shaped
    refine .mk (fun v hv => values v (hrel.mem_values hshaped hv)) (settled.of_rel hrel) (hrel.unknown ▸ unknown) ?_
    rintro ⟨index, x⟩ hx
    obtain ⟨y, hy, hxy⟩ := hrel.exists_inUse hshaped hx
    cases hheld with
    | mk _ inUse _ => exact ih (index, y) hy (inUse _ hy) hxy

theorem settled (h : Sound table rule room type m) : Settled table type m := by
  induction h with
  | mk _ settled _ _ ih => exact .mk settled ih

/-! ## Parts -/

theorem slotAt (h : Sound table rule room type m) (index : Nat) :
    (m.slotAt index).Sound table rule room (table.childAt type index) := by
  cases h with
  | @mk _ _ body values _ _ parts =>
    show Slot.Sound _ _ _ _ (body.slots[index]?.getD .member)
    cases hs : body.slots[index]? with
    | none => exact ⟨nofun, nofun⟩
    | some slot =>
      refine ⟨fun v hv => values v (Body.mem_values_iff.mpr (.inl ⟨slot, List.mem_of_getElem? hs, hv⟩)), fun x hx => ?_⟩
      exact parts (index, x) (Body.mem_parts_iff.mpr (.inl ⟨slot, hs, hx⟩))

theorem selected (h : Sound table rule room type m) {member : Member Message}
    (hm : (m.choiceAt slot).selected = some member) :
    member.value.Sound table rule room (table.childAt type member.field) := by
  cases h with
  | @mk _ _ body values _ _ parts =>
    have hm : (body.choices[slot]?.getD {}).selected = some member := hm
    cases hc : body.choices[slot]? with
    | none =>
      rw [hc] at hm
      cases hm
    | some choice =>
      rw [hc] at hm
      obtain ⟨i, v | x⟩ := member
      · exact .scalar (values v (Body.mem_values_iff.mpr (.inr ⟨choice, List.mem_of_getElem? hc, i, hm⟩)))
      · exact .message (parts (i, x) (Body.mem_parts_iff.mpr (.inr ⟨slot, choice, hc, hm⟩)))

theorem write (h : Sound table rule room type m) (hw : type.WellFormed) (hf : type.fields[index]? = some field)
    {after : Slot Message} (hs : after.Sound table rule room (table.childAt type index)) {presence : PresenceBits}
    (hbits : ∀ bit, presence.isSet bit = false → m.body.presence.isSet bit = false ∨ field.presenceBit = some bit)
    (hown : ∀ bit, field.presenceBit = some bit → presence.isSet bit = false → after.isInitial field = true) :
    Sound table rule room type (m.update fun body => { body with slots := body.slots.set index after, presence }) := by
  cases h with
  | @mk _ _ body values settled unknown parts =>
    refine .mk (fun v hmem => ?_) (settled.write hw hf hbits hown) unknown ?_
    · rcases Body.mem_values_iff.mp hmem with ⟨s, hs', hv⟩ | hchoice
      · rcases List.mem_or_eq_of_mem_set hs' with hbefore | rfl
        · exact values v (Body.mem_values_iff.mpr (.inl ⟨s, hbefore, hv⟩))
        · exact hs.values v hv
      · exact values v (Body.mem_values_iff.mpr (.inr hchoice))
    · rintro ⟨i, x⟩ hmem
      rcases Body.mem_parts_setSlot hmem with ⟨rfl, hx⟩ | hbefore
      · exact hs.inUse x hx
      · exact parts _ hbefore

/-- A field that is not tracked may hold anything. -/
theorem setSlot (h : Sound table rule room type m) (hw : type.WellFormed) (hf : type.fields[index]? = some field)
    (hs : ∀ plain presence, field.strategy ≠ .singular plain presence) {after : Slot Message}
    (hafter : after.Sound table rule room (table.childAt type index)) :
    Sound table rule room type (m.setSlot index after) := by
  refine h.write hw hf hafter (fun _ => .inl) fun bit hbit _ => ?_
  rw [presenceBit_eq_none hw hf hs] at hbit
  cases hbit

theorem setChoice (h : Sound table rule room type m) {choice : Choice Message}
    (hc : ∀ member, choice.selected = some member →
      member.value.Sound table rule room (table.childAt type member.field)) :
    Sound table rule room type (m.setChoice slot choice) := by
  cases h with
  | @mk _ _ body values settled unknown parts =>
    refine .mk (fun v hmem => ?_) settled unknown ?_
    · rcases Body.mem_values_iff.mp hmem with hslot | ⟨c, hc', i, hsel⟩
      · exact values v (Body.mem_values_iff.mpr (.inl hslot))
      · rcases List.mem_or_eq_of_mem_set hc' with hbefore | rfl
        · exact values v (Body.mem_values_iff.mpr (.inr ⟨c, hbefore, i, hsel⟩))
        · cases hc _ hsel with
          | scalar hv => exact hv
    · rintro ⟨i, x⟩ hmem
      rcases Body.mem_parts_setChoice hmem with hsel | hbefore
      · cases hc _ hsel with
        | message hx => exact hx
      · exact parts _ hbefore

theorem addUnknown (h : Sound table rule room type m) {bytes : Bytes}
    (hu : rule.unknown room type m.body.unknown → rule.unknown room type (m.body.unknown ++ bytes)) :
    Sound table rule room type (m.addUnknown bytes) := by
  cases h with
  | mk values settled unknown parts => exact .mk values settled (hu unknown) parts

/-! ## Single values -/

/-- A value written to a tracked field comes with its presence bit. -/
theorem setScalar (h : Sound table rule room type m) (hw : type.WellFormed) (hm : m.body.Shaped type)
    (hf : type.fields[index]? = some field) {value : Scalar} (hv : rule.value value) :
    Sound table rule room type (m.setScalar field index value) := by
  have hslot : (Slot.scalar value : Slot Message).Sound table rule room (table.childAt type index) := by
    refine ⟨fun v hmem => ?_, nofun⟩
    cases List.mem_singleton.mp hmem
    exact hv
  unfold Message.setScalar mark
  cases hbit : field.presenceBit with
  | none =>
    refine h.write hw hf hslot (fun _ => .inl) fun bit hb => ?_
    cases hbit.symm.trans hb
  | some bit =>
    have hlt : bit / 32 < m.body.presence.length :=
      hm.length_presence ▸ (hw.bits field (List.mem_of_getElem? hf) bit hbit).1
    refine h.write hw hf hslot (fun other hclear => ?_) fun other hother hclear => ?_
    · have hclear : (m.body.presence.set bit).isSet other = false := hclear
      rw [PresenceBits.isSet_set hlt, Bool.or_eq_false_iff] at hclear
      exact .inl hclear.1
    · cases hbit.symm.trans hother
      have hclear : (m.body.presence.set bit).isSet bit = false := hclear
      rw [PresenceBits.isSet_set hlt, beq_self_eq_true, Bool.or_true] at hclear
      cases hclear

theorem appendScalars (h : Sound table rule room type m) (hw : type.WellFormed) (hf : type.fields[index]? = some field)
    (hs : ∀ plain presence, field.strategy ≠ .singular plain presence) {values : List Scalar}
    (hv : ∀ value ∈ values, rule.value value) : Sound table rule room type (m.appendScalars index values) := by
  have hbefore := h.slotAt index
  unfold Message.appendScalars
  cases hslot : m.slotAt index with
  | scalars old =>
    rw [hslot] at hbefore
    exact h.setSlot hw hf hs ⟨fun v hmem => (List.mem_append.mp hmem).elim (hbefore.values v) (hv v), nofun⟩
  | _ => exact h

theorem addText (h : Sound table rule room type m) (hl : rule.Lawful table) (hw : type.WellFormed)
    (hf : type.fields[index]? = some field) (hs : ∀ plain presence, field.strategy ≠ .singular plain presence) (kind : Kind) :
    Sound table rule room type (m.addText index kind) := by
  have hbefore := h.slotAt index
  unfold Message.addText
  cases hslot : m.slotAt index with
  | texts old =>
    rw [hslot] at hbefore
    refine h.setSlot hw hf hs ⟨fun v hmem => ?_, nofun⟩
    have hmem : v ∈ (old.add (fun _ => Scalar.zero kind) (.zero kind)).active := hmem
    rw [Repeated.active_add] at hmem
    rcases List.mem_append.mp hmem with hmem | hmem
    · exact hbefore.values v hmem
    · cases List.mem_singleton.mp hmem
      exact hl.sized (Scalar.sized_zero kind)
  | _ => exact h

theorem setLastText (h : Sound table rule room type m) (hw : type.WellFormed) (hf : type.fields[index]? = some field)
    (hs : ∀ plain presence, field.strategy ≠ .singular plain presence) {value : Scalar} (hv : rule.value value) :
    Sound table rule room type (m.setLastText index value) := by
  have hbefore := h.slotAt index
  unfold Message.setLastText
  cases hslot : m.slotAt index with
  | texts old =>
    rw [hslot] at hbefore
    refine h.setSlot hw hf hs ⟨fun v hmem => ?_, nofun⟩
    rcases List.mem_append.mp (show v ∈ old.active.dropLast ++ [value] from hmem) with hmem | hmem
    · exact hbefore.values v (List.dropLast_subset _ hmem)
    · cases List.mem_singleton.mp hmem
      exact hv
  | _ => exact h

/-! ## Entries and members -/

theorem insertEntry (h : Sound table rule room type m) (hw : type.WellFormed) (hf : type.fields[index]? = some field)
    (hs : ∀ plain presence, field.strategy ≠ .singular plain presence) {entry : Entry Message}
    (hkey : rule.value entry.key) (hvalue : entry.value.Sound table rule room (table.childAt type index)) :
    Sound table rule room type (m.insertEntry index entry) := by
  have hbefore := h.slotAt index
  unfold Message.insertEntry
  cases hslot : m.slotAt index with
  | map entries =>
    rw [hslot] at hbefore
    refine h.setSlot hw hf hs ⟨fun v hmem => ?_, fun x hmem => ?_⟩
    · obtain ⟨other, ho, hv⟩ := List.mem_flatMap.mp hmem
      rcases Entry.mem_of_mem_insert ho with ho | rfl
      · exact hbefore.values v (List.mem_flatMap.mpr ⟨other, ho, hv⟩)
      · rcases List.mem_cons.mp hv with rfl | hv
        · exact hkey
        · obtain ⟨_, _ | _⟩ := other
          · cases hvalue with
            | scalar hv' =>
              cases List.mem_singleton.mp hv
              exact hv'
          · cases hv
    · obtain ⟨other, ho, hx⟩ := List.mem_filterMap.mp hmem
      rcases Entry.mem_of_mem_insert ho with ho | rfl
      · exact hbefore.inUse x (List.mem_filterMap.mpr ⟨other, ho, hx⟩)
      · obtain ⟨_, _ | _⟩ := other
        · cases hx
        · cases hx
          cases hvalue with
          | message hx => exact hx
  | _ => exact h

theorem setMember (h : Sound table rule room type m) {value : Value Message}
    (hvalue : value.Sound table rule room (table.childAt type index)) :
    Sound table rule room type (m.setMember slot index value) := by
  refine h.setChoice fun member hm => ?_
  cases hm
  exact hvalue

/-! ## Where sub-messages start -/

theorem start_field (hl : rule.Lawful table) (hw : child.WellFormed) (hd : child.Defaults rule.value) {value : Singular Message}
    {strategy : Strategy} (hk : (Slot.message value).Kept table child strategy)
    (h : (Slot.message value).Sound table rule room child) :
    Sound table rule (room - 1) child (value.getOrInit (clear child) (new child)) := by
  obtain ⟨_, hsame⟩ := held_getOrInit hw hk.inUse hk.aside (rel_refl fun x _ => same_refl x)
  cases value with
  | absent kept => exact (sound_new hl hw hd _).of_same (held_new table hw) hsame
  | present x => exact h.inUse x (List.mem_singleton_self x)

theorem start_element (hl : rule.Lawful table) (hw : child.WellFormed) (hd : child.Defaults rule.value)
    {values : Repeated Message} {strategy : Strategy} (hk : (Slot.messages values).Kept table child strategy) :
    Sound table rule (room - 1) child (values.spare (clear child) (new child)) :=
  (sound_new hl hw hd _).of_same (held_new table hw) (held_spare hw hk.aside).2

theorem start_member (hl : rule.Lawful table) (hw : (table.childAt type index).WellFormed)
    (hd : (table.childAt type index).Defaults rule.value) (hk : (m.choiceAt slot).Kept table type slot)
    (h : Sound table rule room type m) :
    Sound table rule (room - 1) (table.childAt type index)
      ((m.choiceAt slot).select (clear (table.childAt type index)) (new (table.childAt type index)) index).1 := by
  rcases (m.choiceAt slot).select_cases (clear (table.childAt type index)) (new (table.childAt type index)) index with
    hc | ⟨_, hs | ⟨x, hx, hs⟩⟩
  · cases h.selected (Choice.current_eq_some_iff.mp hc) with
    | message hx => exact hx
  · rw [hs]
    exact sound_new hl hw hd _
  · rw [hs]
    exact (sound_new hl hw hd _).of_same (held_new table hw) (clear_same (hk.spare index x hx))

/-- The entry that a sound message of its two fields stands for. -/
theorem entryOf (hl : rule.Lawful table) (hw : child.WellFormed) (hd : child.Defaults rule.value) {key : ScalarType}
    {value : ValueType} {start : Option Scalar} (hchild : table.childAt (entryType key value start) 1 = child)
    (hm : Held table (entryType key value start) m) (h : Sound table rule room (entryType key value start) m) :
    rule.value (Protobuf.entryOf child m).key ∧ (Protobuf.entryOf child m).value.Sound table rule room child := by
  have hfirst : (entryType key value start).fields[0]? = some _ := rfl
  obtain ⟨k, hk, _⟩ := hm.twins.scalar hfirst rfl
  have hkey := h.slotAt 0
  have hvalue := h.slotAt 1
  rw [hchild] at hvalue
  simp only [Protobuf.entryOf, hk]
  refine ⟨?_, ?_⟩
  · rw [hk] at hkey
    exact hkey.values k (List.mem_singleton_self k)
  · cases value with
    | plain plain =>
      have hsecond : (entryType key (.plain plain) start).fields[1]? = some _ := rfl
      obtain ⟨v, hv, _⟩ := hm.twins.scalar hsecond rfl
      rw [hv] at hvalue ⊢
      exact .scalar (hvalue.values v (List.mem_singleton_self v))
    | message ref =>
      have hsecond : (entryType key (.message ref) start).fields[1]? = some _ := rfl
      obtain ⟨v, _, hv, _⟩ := hm.twins.message hsecond rfl
      rw [hv] at hvalue ⊢
      cases v with
      | absent kept => exact .message (sound_new hl hw hd _)
      | present x => exact .message (hvalue.inUse x (List.mem_singleton_self x))

end Sound

/-! ## Steps -/

variable {r : Reader} {place : Place} {childType : MessageType} {x : Message}

theorem sound_ofRead {α : Type} {read : Read α} {change : α → Message} (h : Sound table rule r.room type m)
    (hchange : ∀ v s, read r = .ok v s → Sound table rule r.room type (change v)) :
    (Step.ofRead read r m change).Sound table rule type r := by
  unfold Step.ofRead
  split
  · exact h
  · rename_i v s hr
    exact hchange v s hr

theorem sound_ofRun {run : Reader.Run} {change : List Scalar → Message}
    (h : Sound table rule r.room type (change run.values)) : (Step.ofRun run change).Sound table rule type r := by
  unfold Step.ofRun
  split
  · exact h
  · exact h

theorem sound_ofNested (hv : r.Valid) {counted : Bool} (hcounted : Reader.levels counted = place.levels)
    (h : Sound table rule r.room type m) (hx : Sound table rule (r.room - place.levels) childType x) :
    (Step.ofNested counted r m place childType x).Sound table rule type r := by
  unfold Step.ofNested
  split
  · exact h
  · rename_i nested s ho
    obtain ⟨_, _, _, _, _, _, hin, _⟩ := Reader.openNested_ok hv ho
    have hroom : nested.inner.room = r.room - place.levels := hcounted ▸ hin.room_eq
    exact ⟨h, hin.valid, hroom, hroom ▸ hx⟩

theorem readField_sound (hg : table.Generated) (hl : rule.Lawful table) (hw : type.WellFormed)
    (hd : type.Defaults rule.value) (hf : type.fields[index]? = some field) (hm : Held table type m) (hv : r.Valid)
    (h : Sound table rule r.room type m) (action : Action) :
    (m.readField table type field index action r).Sound table rule type r := by
  have hwc := hg.childAt type index
  have hchild := hl.childAt type index
  have hread : ∀ {kind v s}, Reader.readScalar kind r = .ok v s → rule.value v :=
    fun hr => hl.sized (Reader.readScalar_ok hr).2
  unfold readField
  cases hs : field.strategy with
  | singular plain presence =>
    obtain ⟨body⟩ := m
    exact sound_ofRead h fun v s hr => h.setScalar hw hm.shaped hf (hread hr)
  | repeated plain | packed plain =>
    have hne : ∀ plain presence, field.strategy ≠ .singular plain presence := by
      rw [hs]
      nofun
    dsimp only
    split
    · exact sound_ofRun (h.appendScalars hw hf hne fun v hv => hl.sized (Reader.readRun_values v hv).2)
    · refine sound_ofRead h fun v s hr => h.appendScalars hw hf hne fun w hw => ?_
      cases List.mem_singleton.mp hw
      exact hread hr
  | texts plain =>
    have hne : ∀ plain presence, field.strategy ≠ .singular plain presence := by
      rw [hs]
      nofun
    have hadd := h.addText hl hw hf hne plain.kind
    exact sound_ofRead hadd fun v s hr => hadd.setLastText hw hf hne (hread hr)
  | message ref =>
    obtain ⟨v, _, hslot, _, htwins⟩ := hm.twins.message hf hs
    have hbefore := h.slotAt index
    rw [hslot] at hbefore
    have hstart := Sound.start_field hl hwc hchild htwins.left hbefore
    simp only [hslot]
    refine sound_ofNested hv rfl (h.setSlot hw hf (by rw [hs]; nofun) ⟨nofun, fun x hx => ?_⟩) hstart
    cases List.mem_singleton.mp hx
    exact hstart
  | messages ref =>
    obtain ⟨values, _, hslot, _, htwins⟩ := hm.twins.messages hf hs
    have hbefore := h.slotAt index
    rw [hslot] at hbefore
    have hstart : Sound table rule (r.room - 1) _ _ := Sound.start_element hl hwc hchild htwins.left
    simp only [hslot]
    refine sound_ofNested hv rfl (h.setSlot hw hf (by rw [hs]; nofun) ⟨nofun, fun x hx => ?_⟩) hstart
    rcases List.mem_append.mp hx with hx | hx
    · exact hbefore.inUse x hx
    · cases List.mem_singleton.mp hx
      exact hstart
  | map key value =>
    obtain ⟨start, htype⟩ := type_of_map hs
    have hplace : (Place.entry index).Suits table type (entryType key value start) := .entry hf htype
    simp only [htype]
    exact sound_ofNested hv rfl h
      (sound_new hl (wellFormed_of_suits hg hw hplace) (hd.entryType (List.mem_of_getElem? hf) htype) _)
  | member slot value =>
    cases value with
    | plain plain => exact sound_ofRead h fun v s hr => h.setMember (.scalar (hread hr))
    | message ref =>
      have hlt := hw.members field (List.mem_of_getElem? hf) slot _ hs
      have hstart := Sound.start_member hl hwc hchild (hm.twins.choiceAt hlt).left h
      refine sound_ofNested hv rfl (h.setChoice fun member hmem => ?_) hstart
      cases Choice.selected_select.symm.trans hmem
      exact .message hstart

theorem readUnknown_sound (hl : rule.Lawful table) {tag : Tag} {head : Bytes} (hs : Tag.Spells head tag) (hv : r.Valid)
    (hb : Reader.Behind head r) (hforeign : ∀ entry ∈ type.dispatch, entry.tag ≠ tag)
    (h : Sound table rule r.room type m) : (m.readUnknown type tag r).Sound table rule type r := by
  unfold readUnknown
  split
  · refine sound_ofRead h fun raw s hr => h.addUnknown fun hu => ?_
    obtain ⟨payload, rfl, htail⟩ := Reader.readRaw_ok hv hb hr
    exact hl.append hu hs htail hforeign
  · exact sound_ofRead h fun _ _ _ => h

theorem step_sound (hg : table.Generated) (hl : rule.Lawful table)
    (hw : type.WellFormed) (hd : type.Defaults rule.value) (hm : Held table type m) {tag : Tag} {head : Bytes}
    (hs : Tag.Spells head tag) (hv : r.Valid) (hb : Reader.Behind head r) (h : Sound table rule r.room type m) :
    (m.step table type tag r).Sound table rule type r := by
  obtain ⟨entry, f, _, hf, _, _, hstep⟩ | ⟨hfind, hstep⟩ := step_cases table type tag
  · rw [hstep]
    exact readField_sound hg hl hw hd hf hm hv h entry.action
  · rw [hstep]
    refine readUnknown_sound hl hs hv hb (fun entry he heq => ?_) h
    exact List.find?_eq_none.mp hfind entry he (beq_iff_eq.mpr heq)

theorem put_sound (hg : table.Generated) (hl : rule.Lawful table) (hw : type.WellFormed)
    (hm : Held table type m) (hp : place.Suits table type childType) (hx : Held table childType x)
    (h : Sound table rule room type m) (hsound : Sound table rule (room - place.levels) childType x) :
    Sound table rule room type (m.put table type place x) := by
  cases hp with
  | @field index f ref hf hs =>
    refine h.setSlot hw hf (by simp [hs]) ⟨List.forall_mem_nil _, fun y hy => ?_⟩
    cases List.mem_singleton.mp hy
    exact hsound
  | @element index f ref hf hs =>
    obtain ⟨values, _, hslot, _, _⟩ := hm.twins.messages hf hs
    have hbefore := h.slotAt index
    rw [hslot] at hbefore
    simp only [put, hslot]
    refine h.setSlot hw hf (by simp [hs]) ⟨List.forall_mem_nil _, fun y hy => ?_⟩
    rcases List.mem_append.mp (show y ∈ values.active.dropLast ++ [x] from hy) with hy | hy
    · exact hbefore.inUse y (List.dropLast_subset _ hy)
    · cases List.mem_singleton.mp hy
      exact hsound
  | member hf hs => exact h.setMember (.message hsound)
  | @entry index f key value start hf htype =>
    have hs : f.strategy = .map key value := by rw [Field.strategy, htype]
    obtain ⟨hkey, hvalue⟩ :=
      Sound.entryOf hl (hg.childAt type index) (hl.childAt type index) (childAt_entryType hf htype) hx hsound
    exact h.insertEntry hw hf (by simp [hs]) hkey hvalue

theorem putFailed_sound (hg : table.Generated) (hl : rule.Lawful table) (hw : type.WellFormed)
    (hm : Held table type m) (hp : place.Suits table type childType) (hx : Held table childType x)
    (h : Sound table rule room type m) (hsound : Sound table rule (room - place.levels) childType x) :
    Sound table rule room type (m.putFailed table type place x) := by
  cases hp with
  | entry hf htype => exact h
  | field hf hs => exact put_sound hg hl hw hm (.field hf hs) hx h hsound
  | element hf hs => exact put_sound hg hl hw hm (.element hf hs) hx h hsound
  | member hf hs => exact put_sound hg hl hw hm (.member hf hs) hx h hsound

theorem defaults_of_suits (hl : rule.Lawful table) (hd : type.Defaults rule.value)
    (hp : place.Suits table type childType) : childType.Defaults rule.value := by
  cases hp with
  | entry hf htype => exact hd.entryType (List.mem_of_getElem? hf) htype
  | field hf hs => exact hl.childAt _ _
  | element hf hs => exact hl.childAt _ _
  | member hf hs => exact hl.childAt _ _

/-! ## All fields -/

/-- A step behind a tag: where it goes on, the reader is behind a payload and the levels left are the same. -/
theorem step_behind_sound (hg : table.Generated) (hl : rule.Lawful table) (hw : type.WellFormed)
    (hd : type.Defaults rule.value) (hm : Held table type m) (hv : r.Valid) (h : Sound table rule r.room type m)
    {tag : Tag} {s : Reader} (ht : r.readTag = .ok (some tag) s) :
    s.Valid ∧ s.room = r.room ∧ (m.step table type tag s).Sound table rule type s ∧
      (m.step table type tag s).Whole tag s ∧ Step.Twins table type (m.step table type tag s) (m.step table type tag s) := by
  obtain ⟨head, rest, hwin, hspells, rfl⟩ := Reader.readTag_some ht
  have hpast := Reader.past_pastTag r head.length
  obtain ⟨hv', _⟩ := hpast.valid hv hwin
  obtain ⟨body⟩ := m
  exact ⟨hv', hpast.room_eq,
    step_sound hg hl hw hd hm hspells hv' (Reader.behind_pastTag hv hwin) (hpast.room_eq ▸ h),
    step_whole hm.shaped hv' tag, step_twins hg hw hm.twins tag _⟩

/-- Merging keeps a message sound, also when it fails. -/
theorem merge_sound (hg : table.Generated) (hl : rule.Lawful table) (hw : type.WellFormed)
    (hd : type.Defaults rule.value) (hm : Held table type m) (hv : r.Valid) (h : Sound table rule r.room type m) :
    Sound table rule r.room type (m.merge table type r).message := by
  fun_induction merge table type m r with
  | case1 type m r e s ht => exact h
  | case2 type m r s ht => exact h
  | case3 type m r tag s ht m' s' e hs =>
    obtain ⟨_, hroom, hsound, _, _⟩ := step_behind_sound hg hl hw hd hm hv h ht
    rw [hs] at hsound
    exact hroom ▸ hsound
  | case4 type m r tag s ht m' s' hs ih =>
    obtain ⟨hvs, hroom, hsound, hwhole, htwins⟩ := step_behind_sound hg hl hw hd hm hv h ht
    rw [hs] at hsound hwhole htwins
    obtain ⟨payload, rest, hwin, _, hpast⟩ := hwhole
    cases htwins with
    | next _ hm' =>
      have hroom' : s'.room = r.room := hpast.room_eq.trans hroom
      rw [← hroom']
      exact ih hw hd hm'.left (hpast.valid hvs hwin).1 (hpast.room_eq.symm ▸ hsound)
  | case5 =>
    rename_i type m r tag s ht m' place childType child inner outer hs out e he ih
    obtain ⟨hvs, hroom, hsound, _, htwins⟩ := step_behind_sound hg hl hw hd hm hv h ht
    rw [hs] at hsound htwins
    obtain ⟨hsound, hvi, hri, hchild⟩ := hsound
    cases htwins with
    | into _ _ hm' hp hx =>
      have hwc := wellFormed_of_suits hg hw hp
      have hout := ih hwc (defaults_of_suits hl hd hp) hx.left hvi hchild
      rw [← hroom]
      exact putFailed_sound hg hl hw hm'.left hp (held_merge hg hwc hx.left inner) hsound (hri ▸ hout)
  | case6 =>
    rename_i type m r tag s ht m' place childType child inner outer hs out he ihInner ihOuter
    obtain ⟨hvs, hroom, hsound, hwhole, htwins⟩ := step_behind_sound hg hl hw hd hm hv h ht
    rw [hs] at hsound hwhole htwins
    obtain ⟨hsound, hvi, hri, hchild⟩ := hsound
    obtain ⟨payload, rest, hwin, _, hpast⟩ := hwhole
    cases htwins with
    | into _ _ hm' hp hx =>
      have hwc := wellFormed_of_suits hg hw hp
      have hout := ihInner hwc (defaults_of_suits hl hd hp) hx.left hvi hchild
      have hheld := held_merge hg hwc hx.left inner
      have hput := put_sound hg hl hw hm'.left hp hheld hsound (hri ▸ hout)
      have hbehind := hpast.tagged out.reader.tagStart
      have hroom' : (outer.tagged out.reader.tagStart).room = r.room := hbehind.room_eq.trans hroom
      rw [← hroom']
      exact ihOuter hw hd (put_twins hg hw hm' hp hheld.twins).left (hbehind.valid hvs hwin).1 (hbehind.room_eq.symm ▸ hput)

end Message

end Protobuf
