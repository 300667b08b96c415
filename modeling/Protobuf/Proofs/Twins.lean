/-
  Protobuf.Proofs.Twins — what is kept aside is never seen while reading.

  Twins are two messages of a type with the same content. Reading the same bytes into both goes the same
  way: each step ends alike and opens sub-messages that are twins again (`step_twins`), and putting those
  back leaves twins (`put_twins`). So merging twins gives twins, with the same reader and the same failure
  (`merge_twins`); with a message as its own twin this says that merging keeps it `Held`.
-/

import Protobuf.Proofs.Resolved
import Protobuf.Proofs.Updating

namespace Protobuf

open Schema

section Definitions

variable (table : TypeTable)

/-- Two messages of a type with the same content. -/
structure Message.Twins (type : MessageType) (a b : Message) : Prop where
  left : Held table type a
  right : Held table type b
  same : a.Same b

structure Slot.Twins (child : MessageType) (strategy : Strategy) (a b : Slot Message) : Prop where
  left : a.Kept table child strategy
  right : b.Kept table child strategy
  rel : a.Rel Message.Same b

structure Choice.Twins (type : MessageType) (slot : Nat) (a b : Choice Message) : Prop where
  left : a.Kept table type slot
  right : b.Kept table type slot
  rel : a.Rel Message.Same b

/-- The places for a sub-message in a message of this type, with the type it has there. -/
inductive Place.Suits (type : MessageType) : Place → MessageType → Prop
  | field {index : Nat} {f : Field} {ref : TypeRef} : type.fields[index]? = some f → f.strategy = .message ref →
      Suits type (.field index) (table.childAt type index)
  | element {index : Nat} {f : Field} {ref : TypeRef} : type.fields[index]? = some f → f.strategy = .messages ref →
      Suits type (.element index) (table.childAt type index)
  | member {slot index : Nat} {f : Field} {ref : TypeRef} : type.fields[index]? = some f →
      f.strategy = .member slot (.message ref) → Suits type (.member slot index) (table.childAt type index)
  | entry {index : Nat} {f : Field} {key : ScalarType} {value : ValueType} {start : Option Scalar} :
      type.fields[index]? = some f → f.type = .map key value start →
      Suits type (.entry index) (entryType key value start)

/-- Steps that end alike, on twins. -/
inductive Step.Twins (type : MessageType) : Step → Step → Prop
  | next {a b : Message} (r : Reader) : a.Twins table type b → Twins type (.next a r) (.next b r)
  | stop {a b : Message} (r : Reader) (e : DecodeError) : a.Twins table type b → Twins type (.stop a r e) (.stop b r e)
  | into {a b x y : Message} {place : Place} {childType : MessageType} (inner outer : Reader) :
      a.Twins table type b → place.Suits table type childType → x.Twins table childType y →
      Twins type (.into a place childType x inner outer) (.into b place childType y inner outer)

end Definitions

/-- An element that resets to a fresh one is fresh, whatever was in reserve. -/
theorem Repeated.active_add {α : Type} (fresh : α) (xs : Repeated α) :
    (xs.add (fun _ => fresh) fresh).active = xs.active ++ [fresh] := by
  obtain ⟨active, _ | _⟩ := xs <;> rfl

/-! ## Choices -/

namespace Choice

variable {reset : Message → Message} {fresh : Message} {index : Nat} {choice : Choice Message}

theorem selected_select : (choice.select reset fresh index).2.selected =
    some ⟨index, .message (choice.select reset fresh index).1⟩ := by
  obtain ⟨selected, spare⟩ := choice
  unfold select
  dsimp only
  split
  · split
    · rename_i hf
      subst hf
      rfl
    · split
      · split <;> rfl
      · rfl
  · split <;> rfl
  · rfl

/-- A spare member was there before, selected or spare. -/
theorem mem_of_spare_select {member : Member Message} (h : (choice.select reset fresh index).2.spare = some member) :
    choice.selected = some member ∨ choice.spare = some member := by
  unfold select at h
  dsimp only at h
  split at h
  · split at h
    · exact .inr h
    · split at h
      · split at h
        · cases h
        · exact mem_of_spare_stash h
      · exact mem_of_spare_stash h
  · split at h
    · cases h
    · exact mem_of_spare_stash h
  · exact mem_of_spare_stash h

end Choice

/-! ## Entries -/

namespace Entry

variable {M N : Type} {entries : List (Entry M)} {entry other : Entry M}

theorem mem_of_mem_insert (h : other ∈ insert entries entry) : other ∈ entries ∨ other = entry := by
  unfold insert at h
  split at h
  · obtain ⟨before, hb, rfl⟩ := List.mem_map.mp h
    split
    · exact .inr rfl
    · exact .inl hb
  · rcases List.mem_append.mp h with h | h
    · exact .inl h
    · exact .inr (List.mem_singleton.mp h)

/-- The same entry put into maps with the same content. -/
theorem Rel.insert {R : M → N → Prop} {as : List (Entry M)} {bs : List (Entry N)} (h : Entry.Rel R as bs) {x : Entry M}
    {y : Entry N} (hkey : x.key = y.key) (hvalue : x.value.Rel R y.value) :
    Entry.Rel R (Entry.insert as x) (Entry.insert bs y) := by
  refine ⟨?_, fun key => ?_⟩
  · rw [keys_insert, keys_insert, hkey]
    by_cases hmem : y.key ∈ bs.map Entry.key
    · rw [if_pos hmem, if_pos (h.keys.mem_iff.mpr hmem)]
      exact h.keys
    · rw [if_neg hmem, if_neg fun he => hmem (h.keys.mem_iff.mp he)]
      exact h.keys.append_right _
  · rw [valueOf_insert, valueOf_insert, hkey]
    split
    · exact .some hvalue
    · exact h.values key

end Entry

section Kept

variable {table : TypeTable} {type child : MessageType} {slot index : Nat} {field : Field} {key : ScalarType}
  {valueType : ValueType}

theorem Slot.kept_present {ref : TypeRef} {x : Message} (h : Message.Held table child x) :
    (Slot.message (.present x)).Kept table child (.message ref) := by
  refine ⟨.message, fun z hz => ?_, nofun⟩
  cases List.mem_singleton.mp hz
  exact h

/-- One more message behind some that were there. -/
theorem Slot.Kept.append {ref : TypeRef} {values : Repeated Message} (h : (Slot.messages values).Kept table child (.messages ref))
    {front reserve : List Message} (hfront : ∀ z ∈ front, z ∈ values.active) (hreserve : ∀ z ∈ reserve, z ∈ values.reserve)
    {x : Message} (hx : Message.Held table child x) :
    (Slot.messages ⟨front ++ [x], reserve⟩).Kept table child (.messages ref) := by
  refine ⟨.messages, fun z hz => ?_, fun z hz => h.aside z (hreserve z hz)⟩
  rcases List.mem_append.mp hz with hz | hz
  · exact h.inUse z (hfront z hz)
  · cases List.mem_singleton.mp hz
    exact hx

theorem Slot.Kept.insert {entries : List (Entry Message)} {entry : Entry Message}
    (h : (Slot.map entries).Kept table child (.map key valueType)) (hsuits : entry.suits key valueType = true)
    (hheld : ∀ m, entry.value = .message m → Message.Held table child m) :
    (Slot.map (Entry.insert entries entry)).Kept table child (.map key valueType) := by
  refine ⟨?_, fun x hx => ?_, nofun⟩
  · cases h.form with
    | map suit nodup =>
      refine .map (fun other ho => ?_) (Entry.nodup_insert nodup entry)
      rcases Entry.mem_of_mem_insert ho with ho | rfl
      · exact suit other ho
      · exact hsuits
  · obtain ⟨other, ho, hm⟩ := List.mem_filterMap.mp hx
    rcases Entry.mem_of_mem_insert ho with hold | rfl
    · exact h.inUse x (List.mem_filterMap.mpr ⟨other, hold, hm⟩)
    · obtain ⟨_, _ | m⟩ := other
      · cases hm
      · cases hm
        exact hheld x rfl

/-- Another member is selected, and nothing is put aside that was not there. -/
theorem Choice.Kept.reselect {before after : Choice Message} (h : before.Kept table type slot)
    (hspare : ∀ member, after.spare = some member → before.selected = some member ∨ before.spare = some member)
    {value : Value Message} (hselected : after.selected = some ⟨index, value⟩) (hf : type.fields[index]? = some field)
    (hs : field.strategy = .member slot valueType) (hsuits : value.suits valueType = true)
    (hheld : ∀ m, value = .message m → Message.Held table (table.childAt type index) m) :
    after.Kept table type slot where
  suits := by
    intro member hm
    cases hselected.symm.trans hm
    simp only [Member.suits, hf, Option.map_some, hs, beq_self_eq_true, hsuits, Bool.and_self]
  selected := by
    intro i x hx
    cases hselected.symm.trans hx
    exact hheld x rfl
  spare := by
    intro i x hx
    rcases hspare _ hx with hx | hx
    · exact h.selected i x hx
    · exact h.spare i x hx

end Kept

namespace Message

variable {table : TypeTable} {type child : MessageType} {a b m : Message} {index slot : Nat} {field : Field}

theorem Held.twins (h : Held table type m) : m.Twins table type m := ⟨h, h, same_refl m⟩

namespace Twins

/-! ## Parts of twins -/

theorem slotAt (h : a.Twins table type b) (hf : type.fields[index]? = some field) :
    (a.slotAt index).Twins table (table.childAt type index) field.strategy (b.slotAt index) := by
  obtain ⟨s, hs, hsk⟩ := h.left.slot hf
  obtain ⟨t, ht, htk⟩ := h.right.slot hf
  have hrel := h.same.body.slots index
  rw [hs, ht] at hrel
  rw [slotAt_of_getElem? hs, slotAt_of_getElem? ht]
  cases hrel with
  | some hrel => exact ⟨hsk, htk, hrel⟩

theorem choiceAt (h : a.Twins table type b) (hlt : slot < type.oneofs.length) :
    (a.choiceAt slot).Twins table type slot (b.choiceAt slot) := by
  obtain ⟨c, hc, hck⟩ := h.left.choice hlt
  obtain ⟨d, hd, hdk⟩ := h.right.choice hlt
  have hrel := h.same.body.choices slot
  rw [hc, hd] at hrel
  rw [choiceAt_of_getElem? hc, choiceAt_of_getElem? hd]
  cases hrel with
  | some hrel => exact ⟨hck, hdk, hrel⟩

variable {plain : PlainType} {ref : TypeRef} {c : Choice Message} {x y : Message} {xs ys : Repeated Message}

theorem scalar (h : a.Twins table type b) (hf : type.fields[index]? = some field) {presence : Presence}
    (hs : field.strategy = .singular plain presence) :
    ∃ value, a.slotAt index = .scalar value ∧ b.slotAt index = .scalar value ∧ value.kind = plain.kind := by
  obtain ⟨⟨form, _, _⟩, _, rel⟩ := h.slotAt hf
  rw [hs] at form
  generalize a.slotAt index = s at *
  generalize b.slotAt index = t at *
  cases form with
  | singular kind =>
    cases rel
    exact ⟨_, rfl, rfl, kind⟩

theorem texts (h : a.Twins table type b) (hf : type.fields[index]? = some field) (hs : field.strategy = .texts plain) :
    ∃ values values', a.slotAt index = .texts values ∧
      b.slotAt index = .texts values' ∧ values.active = values'.active ∧ ∀ value ∈ values.active, value.kind = plain.kind := by
  obtain ⟨⟨form, _, _⟩, _, rel⟩ := h.slotAt hf
  rw [hs] at form
  generalize a.slotAt index = s at *
  generalize b.slotAt index = t at *
  cases form with
  | texts kinds =>
    cases rel with
    | texts hactive => exact ⟨_, _, rfl, rfl, hactive, kinds⟩

theorem message (h : a.Twins table type b) (hf : type.fields[index]? = some field)
    (hs : field.strategy = .message ref) :
    ∃ v w, a.slotAt index = .message v ∧ b.slotAt index = .message w ∧
      (Slot.message v).Twins table (table.childAt type index) (.message ref) (.message w) := by
  have hslot := h.slotAt hf
  rw [hs] at hslot
  generalize a.slotAt index = s at *
  generalize b.slotAt index = t at *
  cases hslot.left.form
  cases hslot.right.form
  exact ⟨_, _, rfl, rfl, hslot⟩

theorem messages (h : a.Twins table type b) (hf : type.fields[index]? = some field)
    (hs : field.strategy = .messages ref) : ∃ xs ys, a.slotAt index = .messages xs ∧ b.slotAt index = .messages ys ∧
      (Slot.messages xs).Twins table (table.childAt type index) (.messages ref) (.messages ys) := by
  have hslot := h.slotAt hf
  rw [hs] at hslot
  generalize a.slotAt index = s at *
  generalize b.slotAt index = t at *
  cases hslot.left.form
  cases hslot.right.form
  exact ⟨_, _, rfl, rfl, hslot⟩

theorem setSlot (h : a.Twins table type b) (hf : type.fields[index]? = some field) {s t : Slot Message}
    (hst : s.Twins table (table.childAt type index) field.strategy t) :
    (a.setSlot index s).Twins table type (b.setSlot index t) :=
  ⟨h.left.setSlot hf hst.left, h.right.setSlot hf hst.right, h.same.setSlot hst.rel index⟩

theorem setChoice (h : a.Twins table type b) {d : Choice Message} (hcd : c.Twins table type slot d) :
    (a.setChoice slot c).Twins table type (b.setChoice slot d) :=
  ⟨h.left.setChoice hcd.left, h.right.setChoice hcd.right, h.same.setChoice hcd.rel slot⟩

theorem mark (h : a.Twins table type b) (hw : type.WellFormed) (hf : type.fields[index]? = some field) :
    (a.mark field).Twins table type (b.mark field) :=
  ⟨h.left.mark hw hf, h.right.mark hw hf, h.same.mark field⟩

theorem addUnknown (h : a.Twins table type b) (hk : type.keepsUnknown = true) (bytes : Bytes) :
    (a.addUnknown bytes).Twins table type (b.addUnknown bytes) :=
  ⟨h.left.addUnknown hk bytes, h.right.addUnknown hk bytes, h.same.addUnknown bytes⟩

/-! ## Single values -/

theorem setScalar (h : a.Twins table type b) (hw : type.WellFormed) (hf : type.fields[index]? = some field)
    {presence : Presence} (hs : field.strategy = .singular plain presence) {value : Scalar}
    (hkind : value.kind = plain.kind) :
    (a.setScalar field index value).Twins table type (b.setScalar field index value) := by
  have hkept : (Slot.scalar value : Slot Message).Kept table (table.childAt type index) field.strategy :=
    ⟨hs ▸ .singular hkind, nofun, nofun⟩
  exact (h.setSlot hf ⟨hkept, hkept, .scalar value⟩).mark hw hf

theorem appendScalars (h : a.Twins table type b) (hf : type.fields[index]? = some field)
    (hs : field.strategy = .repeated plain ∨ field.strategy = .packed plain) {values : List Scalar}
    (hkinds : ∀ value ∈ values, value.kind = plain.kind) :
    (a.appendScalars index values).Twins table type (b.appendScalars index values) := by
  have hslot := h.slotAt hf
  unfold Message.appendScalars
  generalize a.slotAt index = s at *
  generalize b.slotAt index = t at *
  obtain ⟨⟨form, _, _⟩, _, rel⟩ := hslot
  cases rel with
  | scalars old =>
    have hkept : (Slot.scalars (old ++ values) : Slot Message).Kept table (table.childAt type index) field.strategy := by
      refine ⟨?_, nofun, nofun⟩
      rcases hs with hs | hs
      · rw [hs] at form ⊢
        cases form with
        | repeated kinds => exact .repeated fun v hv => (List.mem_append.mp hv).elim (kinds v) (hkinds v)
      · rw [hs] at form ⊢
        cases form with
        | packed kinds => exact .packed fun v hv => (List.mem_append.mp hv).elim (kinds v) (hkinds v)
    exact h.setSlot hf ⟨hkept, hkept, .scalars _⟩
  | _ => exact h

theorem setTexts (h : a.Twins table type b) (hf : type.fields[index]? = some field) (hs : field.strategy = .texts plain)
    {values values' : Repeated Scalar} (hactive : values.active = values'.active)
    (hkinds : ∀ value ∈ values.active, value.kind = plain.kind) :
    (a.setSlot index (.texts values)).Twins table type (b.setSlot index (.texts values')) :=
  h.setSlot hf ⟨⟨hs ▸ .texts hkinds, nofun, nofun⟩, ⟨hs ▸ .texts (hactive ▸ hkinds), nofun, nofun⟩, .texts hactive⟩

theorem addText (h : a.Twins table type b) (hf : type.fields[index]? = some field)
    (hs : field.strategy = .texts plain) :
    (a.addText index plain.kind).Twins table type (b.addText index plain.kind) := by
  have hadded := Repeated.active_add (Scalar.zero plain.kind)
  obtain ⟨values, values', ha, hb, hactive, hkinds⟩ := h.texts hf hs
  simp only [Message.addText, ha, hb]
  refine h.setTexts hf hs ?_ fun v hv => ?_
  · rw [hadded, hadded, hactive]
  · rw [hadded] at hv
    rcases List.mem_append.mp hv with hv | hv
    · exact hkinds v hv
    · cases List.mem_singleton.mp hv
      exact Scalar.kind_zero plain.kind

theorem setLastText (h : a.Twins table type b) (hf : type.fields[index]? = some field)
    (hs : field.strategy = .texts plain) {value : Scalar} (hkind : value.kind = plain.kind) :
    (a.setLastText index value).Twins table type (b.setLastText index value) := by
  obtain ⟨values, values', ha, hb, hactive, hkinds⟩ := h.texts hf hs
  simp only [Message.setLastText, ha, hb]
  refine h.setTexts hf hs ?_ fun v hv => ?_
  · rw [Repeated.setLast, Repeated.setLast, Repeated.active_modify, Repeated.active_modify, hactive]
  · rw [Repeated.setLast, Repeated.active_modify] at hv
    rcases List.mem_append.mp hv with hv | hv
    · exact hkinds v (List.dropLast_subset _ hv)
    · cases List.mem_singleton.mp hv
      exact hkind

/-! ## Sub-messages -/

theorem setPresent (h : a.Twins table type b) (hf : type.fields[index]? = some field)
    (hs : field.strategy = .message ref) (hxy : x.Twins table (table.childAt type index) y) :
    (a.setSlot index (.message (.present x))).Twins table type (b.setSlot index (.message (.present y))) := by
  refine h.setSlot hf ?_
  rw [hs]
  exact ⟨Slot.kept_present hxy.left, Slot.kept_present hxy.right, .message (.some hxy.same)⟩

theorem push (h : a.Twins table type b) (hf : type.fields[index]? = some field) (hs : field.strategy = .messages ref)
    (hxs : (Slot.messages xs).Twins table (table.childAt type index) (.messages ref) (.messages ys))
    (hxy : x.Twins table (table.childAt type index) y) :
    (a.setSlot index (.messages (xs.push x))).Twins table type (b.setSlot index (.messages (ys.push y))) := by
  refine h.setSlot hf ?_
  rw [hs]
  refine ⟨hxs.left.append (fun _ => id) (fun _ => List.mem_of_mem_drop) hxy.left,
    hxs.right.append (fun _ => id) (fun _ => List.mem_of_mem_drop) hxy.right, .messages ?_⟩
  cases hxs.rel with
  | messages rel => exact List.rel_append rel (.cons hxy.same .nil)

theorem setLast (h : a.Twins table type b) (hf : type.fields[index]? = some field) (hs : field.strategy = .messages ref)
    (hxs : (Slot.messages xs).Twins table (table.childAt type index) (.messages ref) (.messages ys))
    (hxy : x.Twins table (table.childAt type index) y) :
    (a.setSlot index (.messages (xs.setLast x))).Twins table type (b.setSlot index (.messages (ys.setLast y))) := by
  refine h.setSlot hf ?_
  rw [hs]
  refine ⟨hxs.left.append (fun _ hz => List.dropLast_subset _ hz) (fun _ => id) hxy.left,
    hxs.right.append (fun _ hz => List.dropLast_subset _ hz) (fun _ => id) hxy.right, .messages ?_⟩
  cases hxs.rel with
  | messages rel =>
    show List.Forall₂ Same (xs.active.dropLast ++ [x]) (ys.active.dropLast ++ [y])
    rw [List.dropLast_eq_take, List.dropLast_eq_take, rel.length_eq]
    exact List.rel_append (List.forall₂_take _ rel) (.cons hxy.same .nil)

/-! ## Entries and members -/

/-- Entries with the same key and twin values, which suit the map. -/
structure Entries (table : TypeTable) (child : MessageType) (key : ScalarType) (value : ValueType)
    (x y : Entry Message) : Prop where
  key_eq : x.key = y.key
  rel : x.value.Rel Same y.value
  suits : x.suits key value = true
  left : ∀ m, x.value = .message m → Held table child m
  right : ∀ m, y.value = .message m → Held table child m

theorem insertEntry (h : a.Twins table type b) (hf : type.fields[index]? = some field) {key : ScalarType}
    {value : ValueType} (hs : field.strategy = .map key value) {x y : Entry Message}
    (hxy : Entries table (table.childAt type index) key value x y) :
    (a.insertEntry index x).Twins table type (b.insertEntry index y) := by
  have hy : y.suits key value = true := by
    rw [Entry.suits, ← hxy.key_eq, ← hxy.rel.suits_eq]
    exact hxy.suits
  have hslot := h.slotAt hf
  unfold Message.insertEntry
  generalize a.slotAt index = s at *
  generalize b.slotAt index = t at *
  rw [hs] at hslot
  obtain ⟨left, right, rel⟩ := hslot
  cases rel with
  | map rel =>
    refine h.setSlot hf ⟨?_, ?_, .map (rel.insert hxy.key_eq hxy.rel)⟩
    · rw [hs]
      exact left.insert hxy.suits hxy.left
    · rw [hs]
      exact right.insert hy hxy.right
  | _ => exact h

theorem setMember (h : a.Twins table type b) (hf : type.fields[index]? = some field) (hlt : slot < type.oneofs.length)
    {value : ValueType} (hs : field.strategy = .member slot value) {x y : Value Message} (hxy : x.Rel Same y)
    (hsuits : x.suits value = true) (hx : ∀ m, x = .message m → Held table (table.childAt type index) m)
    (hy : ∀ m, y = .message m → Held table (table.childAt type index) m) :
    (a.setMember slot index x).Twins table type (b.setMember slot index y) := by
  have hc := h.choiceAt hlt
  have hsuits' : y.suits value = true := (hxy.suits_eq value).symm.trans hsuits
  exact h.setChoice ⟨hc.left.reselect (fun _ => .inr) rfl hf hs hsuits hx,
    hc.right.reselect (fun _ => .inr) rfl hf hs hsuits' hy, .some ⟨rfl, hxy⟩⟩

/-! ## Where sub-messages start -/

theorem start_field (hw : child.WellFormed) {v w : Singular Message} {strategy : Strategy}
    (h : (Slot.message v).Twins table child strategy (.message w)) :
    (v.getOrInit (clear child) (new child)).Twins table child (w.getOrInit (clear child) (new child)) := by
  obtain ⟨left, right, rel⟩ := h
  cases rel with
  | message rel =>
    obtain ⟨hleft, hv⟩ := held_getOrInit hw left.inUse left.aside rel
    obtain ⟨hright, hw⟩ := held_getOrInit hw right.inUse right.aside (rel_refl fun x _ => same_refl x)
    exact ⟨hleft, hright, hv.trans hw.symm⟩

theorem start_element (hw : child.WellFormed) {strategy : Strategy}
    (h : (Slot.messages xs).Twins table child strategy (.messages ys)) :
    (xs.spare (clear child) (new child)).Twins table child (ys.spare (clear child) (new child)) := by
  obtain ⟨hleft, hxs⟩ := held_spare hw h.left.aside
  obtain ⟨hright, hys⟩ := held_spare hw h.right.aside
  exact ⟨hleft, hright, hxs.trans hys.symm⟩

theorem start_member (hw : (table.childAt type index).WellFormed) {d : Choice Message} (h : c.Twins table type slot d) :
    (c.select (clear (table.childAt type index)) (new (table.childAt type index)) index).1.Twins table
      (table.childAt type index)
      (d.select (clear (table.childAt type index)) (new (table.childAt type index)) index).1 := by
  obtain ⟨hleft, hc⟩ := held_select hw (h.left.selected index) (h.left.spare index) h.rel
  obtain ⟨hright, hd⟩ := held_select hw (h.right.selected index) (h.right.spare index)
    (rel_refl fun member _ => ⟨rfl, Value.rel_refl fun x _ => same_refl x⟩)
  exact ⟨hleft, hright, hc.trans hd.symm⟩

theorem select (hw : (table.childAt type index).WellFormed) (hf : type.fields[index]? = some field)
    (hs : field.strategy = .member slot (.message ref)) {d : Choice Message} (h : c.Twins table type slot d) :
    (c.select (clear (table.childAt type index)) (new (table.childAt type index)) index).2.Twins table type slot
      (d.select (clear (table.childAt type index)) (new (table.childAt type index)) index).2 := by
  obtain ⟨hleft, hright, hsame⟩ := start_member hw h
  refine ⟨h.left.reselect (fun _ => Choice.mem_of_spare_select) Choice.selected_select hf hs rfl ?_,
    h.right.reselect (fun _ => Choice.mem_of_spare_select) Choice.selected_select hf hs rfl ?_, ?_⟩
  · rintro _ ⟨⟩
    exact hleft
  · rintro _ ⟨⟩
    exact hright
  · rw [Choice.Rel, Choice.selected_select, Choice.selected_select]
    exact .some ⟨rfl, .message hsame⟩

end Twins

/-! ## Entries as messages -/

variable {key : ScalarType} {value : ValueType}

theorem entryType_fields {start : Option Scalar} {f : Field} (h : f ∈ (entryType key value start).fields) :
    f.presenceBit = none ∧
      ((f.strategy = .singular (.scalar key) .implicit ∧ f.default = none) ∨
        (∃ plain, value = .plain plain ∧ f.strategy = .singular plain .implicit ∧ f.default = start) ∨
          ∃ ref, f.strategy = .message ref) := by
  rcases List.mem_cons.mp h with rfl | h
  · exact ⟨rfl, .inl ⟨rfl, rfl⟩⟩
  · cases List.mem_singleton.mp h
    refine ⟨rfl, .inr ?_⟩
    cases value with
    | plain plain => exact .inl ⟨plain, rfl, rfl, rfl⟩
    | message ref => exact .inr ⟨ref, rfl⟩

theorem entryType_wellFormed {start : Option Scalar}
    (h : ∀ plain v, value = .plain plain → start = some v → v.kind = plain.kind) :
    (entryType key value start).WellFormed where
  toNumbered := entryType_numbered key value start
  initial := by
    intro f hf plain presence hs
    rcases (entryType_fields hf).2 with ⟨hs', hd⟩ | ⟨plain', hv, hs', hd⟩ | ⟨ref, hs'⟩
    · cases hs'.symm.trans hs
      rw [Field.initial, hd]
      exact Scalar.kind_zero _
    · cases hs'.symm.trans hs
      rw [Field.initial, hd]
      cases hstart : start with
      | none => exact Scalar.kind_zero _
      | some v => exact h plain v hv hstart
    · cases hs'.symm.trans hs
  bits := by
    intro f hf bit hbit
    rw [(entryType_fields hf).1] at hbit
    cases hbit
  tracked := by
    intro f hf plain hs
    rcases (entryType_fields hf).2 with ⟨hs', _⟩ | ⟨_, _, hs', _⟩ | ⟨_, hs'⟩ <;> cases hs'.symm.trans hs
  ownBits := by
    refine List.pairwise_of_forall_mem_list fun f hf g _ bit hb => ?_
    rw [(entryType_fields hf).1] at hb
    cases hb
  members := by
    intro f hf slot v hs
    rcases (entryType_fields hf).2 with ⟨hs', _⟩ | ⟨_, _, hs', _⟩ | ⟨_, hs'⟩ <;> cases hs'.symm.trans hs
  entries := by
    intro f hf k plain v htype
    have hs : f.strategy = .map k (.plain plain) := by rw [Field.strategy, htype]
    rcases (entryType_fields hf).2 with ⟨hs', _⟩ | ⟨_, _, hs', _⟩ | ⟨_, hs'⟩ <;> cases hs'.symm.trans hs

/-- The entries that twin messages of their two fields stand for. -/
theorem Twins.entryOf {start : Option Scalar} (hw : child.WellFormed)
    (hchild : table.childAt (entryType key value start) 1 = child) (h : a.Twins table (entryType key value start) b) :
    Twins.Entries table child key value (Protobuf.entryOf child a) (Protobuf.entryOf child b) := by
  have hfirst : (entryType key value start).fields[0]? = some _ := rfl
  obtain ⟨k, hak, hbk, hkind⟩ := h.scalar hfirst rfl
  suffices hvalue : ∃ x y, (Protobuf.entryOf child a).value = x ∧ (Protobuf.entryOf child b).value = y ∧ x.Rel Same y ∧
      x.suits value = true ∧ (∀ m, x = .message m → Held table child m) ∧ ∀ m, y = .message m → Held table child m by
    obtain ⟨x, y, hx, hy, hrel, hsuits, hleft, hright⟩ := hvalue
    subst hx hy
    refine ⟨by simp only [Protobuf.entryOf, hak, hbk], hrel, Bool.and_eq_true_iff.mpr ⟨?_, hsuits⟩, hleft, hright⟩
    simp only [Protobuf.entryOf, hak, hkind]
    exact beq_self_eq_true _
  simp only [Protobuf.entryOf]
  cases value with
  | plain plain =>
    have hsecond : (entryType key (.plain plain) start).fields[1]? = some _ := rfl
    obtain ⟨v, hav, hbv, hkind⟩ := h.scalar hsecond rfl
    rw [hav, hbv]
    exact ⟨_, _, rfl, rfl, .scalar v, beq_iff_eq.mpr hkind, nofun, nofun⟩
  | message ref =>
    have hsecond : (entryType key (.message ref) start).fields[1]? = some _ := rfl
    obtain ⟨v, w, hav, hbw, htwins⟩ := h.message hsecond rfl
    rw [hchild] at htwins
    rw [hav, hbw]
    -- a missing value is a new message
    obtain ⟨hleft, hright, hsame⟩ : (v.get?.getD (new child)).Twins table child (w.get?.getD (new child)) := by
      have hin := htwins.left.inUse
      have hin' := htwins.right.inUse
      cases htwins.rel with
      | message rel =>
        cases v with
        | absent kept =>
          rw [(rel_none rel).mp rfl]
          exact (held_new table hw).twins
        | present x =>
          obtain ⟨y, hy, hsame⟩ := exists_of_rel rel rfl
          rw [hy]
          refine ⟨hin x (List.mem_singleton_self x), hin' y ?_, hsame⟩
          exact Option.mem_toList.mpr hy
    refine ⟨_, _, rfl, rfl, .message hsame, rfl, ?_, ?_⟩
    · rintro _ ⟨⟩
      exact hleft
    · rintro _ ⟨⟩
      exact hright

/-! ## Places -/

variable {childType : MessageType} {place : Place} {x y : Message}

theorem wellFormed_of_suits (hg : table.Generated) (hw : type.WellFormed)
    (h : place.Suits table type childType) : childType.WellFormed := by
  cases h with
  | field _ _ => exact hg.childAt type _
  | element _ _ => exact hg.childAt type _
  | member _ _ => exact hg.childAt type _
  | @entry index f key value start hf htype =>
    refine entryType_wellFormed ?_
    rintro plain v rfl rfl
    exact hw.entries f (List.mem_of_getElem? hf) key plain v htype

theorem put_twins (hg : table.Generated) (hw : type.WellFormed) (h : a.Twins table type b)
    (hp : place.Suits table type childType) (hxy : x.Twins table childType y) :
    (a.put table type place x).Twins table type (b.put table type place y) := by
  cases hp with
  | @field index f ref hf hs =>
    exact h.setPresent hf hs hxy
  | @element index f ref hf hs =>
    obtain ⟨xs, ys, ha, hb, htwins⟩ := h.messages hf hs
    simp only [put, ha, hb]
    exact h.setLast hf hs htwins hxy
  | @member slot index f ref hf hs =>
    refine h.setMember hf (hw.members f (List.mem_of_getElem? hf) slot _ hs) hs (.message hxy.same) rfl ?_ ?_
    · rintro _ ⟨⟩
      exact hxy.left
    · rintro _ ⟨⟩
      exact hxy.right
  | @entry index f key value start hf htype =>
    have hs : f.strategy = .map key value := by rw [Field.strategy, htype]
    exact h.insertEntry hf hs (Twins.entryOf (hg.childAt type index) (childAt_entryType hf htype) hxy)

theorem putFailed_twins (hg : table.Generated) (hw : type.WellFormed) (h : a.Twins table type b)
    (hp : place.Suits table type childType) (hxy : x.Twins table childType y) :
    (a.putFailed table type place x).Twins table type (b.putFailed table type place y) := by
  cases hp with
  | entry hf htype => exact h
  | field hf hs => exact put_twins hg hw h (.field hf hs) hxy
  | element hf hs => exact put_twins hg hw h (.element hf hs) hxy
  | member hf hs => exact put_twins hg hw h (.member hf hs) hxy

/-! ## Steps -/

theorem twins_ofRead {α : Type} {read : Read α} {r : Reader} {f g : α → Message} (h : a.Twins table type b)
    (hfg : ∀ v s, read r = .ok v s → (f v).Twins table type (g v)) :
    Step.Twins table type (.ofRead read r a f) (.ofRead read r b g) := by
  unfold Step.ofRead
  split
  · exact .stop _ _ h
  · rename_i v s hr
    exact .next _ (hfg v s hr)

theorem twins_ofRun {run : Reader.Run} {f g : List Scalar → Message} (hfg : (f run.values).Twins table type (g run.values)) :
    Step.Twins table type (.ofRun run f) (.ofRun run g) := by
  unfold Step.ofRun
  split
  · exact .stop _ _ hfg
  · exact .next _ hfg

theorem twins_ofNested {counted : Bool} {r : Reader} (h : a.Twins table type b)
    (hp : place.Suits table type childType) (hxy : x.Twins table childType y) :
    Step.Twins table type (.ofNested counted r a place childType x) (.ofNested counted r b place childType y) := by
  unfold Step.ofNested
  split
  · exact .stop _ _ h
  · exact .into _ _ h hp hxy

theorem readField_twins (hg : table.Generated) (hw : type.WellFormed) (hf : type.fields[index]? = some field)
    (h : a.Twins table type b) (action : Action) (r : Reader) :
    Step.Twins table type (a.readField table type field index action r) (b.readField table type field index action r) := by
  have hchild := hg.childAt type index
  unfold readField
  cases hs : field.strategy with
  | singular plain presence =>
    exact twins_ofRead h fun v s hr => h.setScalar hw hf hs (Reader.readScalar_ok hr).1
  | repeated plain =>
    dsimp only
    split
    · exact twins_ofRun (h.appendScalars hf (.inl hs) fun v hv => (Reader.readRun_values v hv).1)
    · refine twins_ofRead h fun v s hr => h.appendScalars hf (.inl hs) fun w hw => ?_
      cases List.mem_singleton.mp hw
      exact (Reader.readScalar_ok hr).1
  | packed plain =>
    dsimp only
    split
    · exact twins_ofRun (h.appendScalars hf (.inr hs) fun v hv => (Reader.readRun_values v hv).1)
    · refine twins_ofRead h fun v s hr => h.appendScalars hf (.inr hs) fun w hw => ?_
      cases List.mem_singleton.mp hw
      exact (Reader.readScalar_ok hr).1
  | texts plain =>
    have hadd := h.addText hf hs
    exact twins_ofRead hadd fun v s hr => hadd.setLastText hf hs (Reader.readScalar_ok hr).1
  | message ref =>
    obtain ⟨v, w, ha, hb, htwins⟩ := h.message hf hs
    have hstart := Twins.start_field hchild htwins
    simp only [ha, hb]
    exact twins_ofNested (h.setPresent hf hs hstart) (.field hf hs) hstart
  | messages ref =>
    obtain ⟨xs, ys, ha, hb, htwins⟩ := h.messages hf hs
    have hstart := Twins.start_element hchild htwins
    simp only [ha, hb]
    exact twins_ofNested (h.push hf hs htwins hstart) (.element hf hs) hstart
  | map key value =>
    obtain ⟨start, htype⟩ := type_of_map hs
    have hplace : (Place.entry index).Suits table type (entryType key value start) := .entry hf htype
    simp only [htype]
    exact twins_ofNested h hplace (held_new table (wellFormed_of_suits hg hw hplace)).twins
  | member slot value =>
    have hlt := hw.members field (List.mem_of_getElem? hf) slot value hs
    cases value with
    | plain plain =>
      refine twins_ofRead h fun v s hr => ?_
      exact h.setMember hf hlt hs (.scalar v) (beq_iff_eq.mpr (Reader.readScalar_ok hr).1) nofun nofun
    | message ref =>
      have hchoice := h.choiceAt hlt
      exact twins_ofNested (h.setChoice (Twins.select hchild hf hs hchoice)) (.member hf hs)
        (Twins.start_member hchild hchoice)

theorem readUnknown_twins (h : a.Twins table type b) (tag : Tag) (r : Reader) :
    Step.Twins table type (a.readUnknown type tag r) (b.readUnknown type tag r) := by
  unfold readUnknown
  split
  · rename_i hk
    exact twins_ofRead h fun raw _ _ => h.addUnknown hk raw
  · exact twins_ofRead h fun _ _ _ => h

/-- The field that a tag of the table leads to. -/
theorem field_of_find {tag : Tag} {entry : Dispatch} (h : (type.dispatch.find? fun entry => entry.tag == tag) = some entry) :
    ∃ f, type.fields[entry.field]? = some f ∧ entry ∈ f.dispatch entry.field ∧ entry.tag = tag := by
  obtain ⟨i, f, hf, he⟩ := MessageType.mem_dispatch_iff.mp (List.mem_of_find?_eq_some h)
  obtain ⟨rfl, _⟩ := Field.number_of_mem_dispatch he
  exact ⟨f, hf, he, by simpa using List.find?_some h⟩

/-- A tag leads to one of the fields of the type, or to none. -/
theorem step_cases (table : TypeTable) (type : MessageType) (tag : Tag) :
    (∃ entry f, (type.dispatch.find? fun entry => entry.tag == tag) = some entry ∧ type.fields[entry.field]? = some f ∧
      entry ∈ f.dispatch entry.field ∧ entry.tag = tag ∧
      ∀ (m : Message) (r : Reader), m.step table type tag r = m.readField table type f entry.field entry.action r) ∨
    (type.dispatch.find? fun entry => entry.tag == tag) = none ∧
      ∀ (m : Message) (r : Reader), m.step table type tag r = m.readUnknown type tag r := by
  cases hfind : type.dispatch.find? fun entry => entry.tag == tag with
  | some entry =>
    obtain ⟨f, hf, he, htag⟩ := field_of_find hfind
    refine .inl ⟨entry, f, rfl, hf, he, htag, fun m r => ?_⟩
    simp only [step, hfind, hf, Option.getD_some]
  | none => exact .inr ⟨rfl, fun m r => by simp only [step, hfind]⟩

theorem step_twins (hg : table.Generated) (hw : type.WellFormed) (h : a.Twins table type b) (tag : Tag) (r : Reader) :
    Step.Twins table type (a.step table type tag r) (b.step table type tag r) := by
  obtain ⟨entry, f, _, hf, _, _, hstep⟩ | ⟨_, hstep⟩ := step_cases table type tag
  · rw [hstep, hstep]
    exact readField_twins hg hw hf h entry.action r
  · rw [hstep, hstep]
    exact readUnknown_twins h tag r

/-! ## All fields -/

/-- Merging twins gives twins, with the same reader and the same failure. -/
theorem merge_twins (hg : table.Generated) (hw : type.WellFormed) (h : a.Twins table type b) (r : Reader) :
    (a.merge table type r).message.Twins table type (b.merge table type r).message ∧
      (a.merge table type r).reader = (b.merge table type r).reader ∧
      (a.merge table type r).error = (b.merge table type r).error := by
  fun_induction merge table type a r generalizing b with
  | case1 type a r e r' ht =>
    rw [merge_tag_error ht]
    exact ⟨h, rfl, rfl⟩
  | case2 type a r r' ht =>
    rw [merge_none ht]
    exact ⟨h, rfl, rfl⟩
  | case3 type a r tag r' ht a' r'' e hs =>
    have hstep := step_twins hg hw h tag r'
    rw [hs] at hstep
    generalize hsb : b.step table type tag r' = step at hstep
    cases hstep with
    | stop _ _ h' =>
      rw [merge_stop ht hsb]
      exact ⟨h', rfl, rfl⟩
  | case4 type a r tag r' ht a' r'' hs ih =>
    have hstep := step_twins hg hw h tag r'
    rw [hs] at hstep
    generalize hsb : b.step table type tag r' = step at hstep
    cases hstep with
    | next _ h' =>
      rw [merge_next ht hsb]
      exact ih hw h'
  | case5 =>
    rename_i type a r tag r' ht a' place childType child inner outer hs out e he ih
    have hstep := step_twins hg hw h tag r'
    rw [hs] at hstep
    generalize hsb : b.step table type tag r' = step at hstep
    cases hstep with
    | @into _ b' _ y _ _ _ _ h' hp hxy =>
      obtain ⟨hm, hr, hee⟩ := ih (wellFormed_of_suits hg hw hp) hxy
      rw [merge_into ht hsb, ← hee, he]
      exact ⟨putFailed_twins hg hw h' hp hm, hr, rfl⟩
  | case6 =>
    rename_i type a r tag r' ht a' place childType child inner outer hs out he ihInner ihOuter
    have hstep := step_twins hg hw h tag r'
    rw [hs] at hstep
    generalize hsb : b.step table type tag r' = step at hstep
    cases hstep with
    | @into _ b' _ y _ _ _ _ h' hp hxy =>
      obtain ⟨hm, hr, hee⟩ := ihInner (wellFormed_of_suits hg hw hp) hxy
      rw [merge_into ht hsb, ← hee, he, ← hr]
      exact ihOuter hw (put_twins hg hw h' hp hm)

/-- Merging keeps the form of all that is in use and aside, also when it fails. -/
theorem held_merge (hg : table.Generated) (hw : type.WellFormed) (h : Held table type m) (r : Reader) :
    Held table type (m.merge table type r).message :=
  (merge_twins hg hw h.twins r).1.left

end Message

end Protobuf
