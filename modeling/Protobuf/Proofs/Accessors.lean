/-
  Protobuf.Proofs.Accessors — the same change made to peers leaves peers.

  One lemma for each way to change a field, a choice or a container of a message, and for each way to a
  sub-message. A container that takes up an element again resets it first, so it makes no difference
  which one was kept aside.
-/

import Protobuf.Message.Access
import Protobuf.Proofs.Peers

namespace Protobuf

open Schema

/-! ## Containers -/

namespace Slot

variable {M : Type}

def truncate (size : Nat) : Slot M → Slot M
  | scalars values => scalars (values.take size)
  | texts values => texts (values.truncate size)
  | messages values => messages (values.truncate size)
  | slot => slot

/-- Leaves the elements at these positions, in this order. -/
def arrange (order : List Nat) : Slot M → Slot M
  | scalars values => scalars (order.filterMap (values[·]?))
  | texts values => texts (values.modify fun items => order.filterMap (items[·]?))
  | messages values => messages (values.modify fun items => order.filterMap (items[·]?))
  | slot => slot

def replace (position : Nat) : Value M → Slot M → Slot M
  | .scalar value, scalars values => scalars (values.set position value)
  | .scalar value, texts values => texts (values.modify (·.set position value))
  | .message value, messages values => messages (values.modify (·.set position value))
  | _, slot => slot

def push (value : M) : Slot M → Slot M
  | messages values => messages (values.push value)
  | slot => slot

/-- The message that is taken out, and what is left. -/
def take : Slot M → Option M × Slot M
  | message value => (value.take.1, message value.take.2)
  | slot => (none, slot)

end Slot

theorem forall₂_set {M N : Type} {R : M → N → Prop} {xs : List M} {ys : List N} (h : List.Forall₂ R xs ys) {x : M} {y : N}
    (hxy : R x y) (position : Nat) : List.Forall₂ R (xs.set position x) (ys.set position y) := by
  induction h generalizing position with
  | nil => exact .nil
  | cons head tail ih =>
    cases position with
    | zero => exact .cons hxy tail
    | succ position => exact .cons head (ih position)

theorem forall₂_arrange {M N : Type} {R : M → N → Prop} {xs : List M} {ys : List N} (h : List.Forall₂ R xs ys)
    (order : List Nat) : List.Forall₂ R (order.filterMap (xs[·]?)) (order.filterMap (ys[·]?)) := by
  induction order with
  | nil => exact .nil
  | cons position order ih =>
    have hat := rel_getElem? h position
    simp only [List.filterMap_cons]
    generalize xs[position]? = x at hat
    generalize ys[position]? = y at hat
    cases hat with
    | none => exact ih
    | some hxy => exact .cons hxy ih

theorem mem_of_mem_arrange {M : Type} {xs : List M} {order : List Nat} {x : M} (h : x ∈ order.filterMap (xs[·]?)) :
    x ∈ xs := by
  obtain ⟨position, _, hx⟩ := List.mem_filterMap.mp h
  exact List.mem_of_getElem? hx

namespace Slot.Peers

variable {table : TypeTable} {child : MessageType} {strategy : Strategy} {s t : Slot Message}

theorem truncate (h : s.Peers table child strategy t) (size : Nat) :
    (s.truncate size).Peers table child strategy (t.truncate size) := by
  have htwins := h.twins
  have hself := h
  obtain ⟨form, rel, left, right⟩ := h
  cases rel with
  | scalars values => exact ⟨form.of_scalars fun _ hv => .inl (List.mem_of_mem_take hv), .scalars _, nofun, nofun⟩
  | texts hactive =>
    exact ⟨form.of_texts fun _ hv => .inl (List.mem_of_mem_take hv), .texts (congrArg (List.take size) hactive),
      nofun, nofun⟩
  | messages hactive =>
    refine ⟨form.of_messages _, .messages (List.forall₂_take size hactive), fun x hx => ?_, fun x hx => ?_⟩
    · exact (List.mem_append.mp hx).elim (fun hx => htwins.left.inUse x (List.mem_of_mem_drop hx)) (left x)
    · exact (List.mem_append.mp hx).elim (fun hx => htwins.right.inUse x (List.mem_of_mem_drop hx)) (right x)
  | _ => exact hself

theorem arrange (h : s.Peers table child strategy t) (order : List Nat) :
    (s.arrange order).Peers table child strategy (t.arrange order) := by
  have hself := h
  obtain ⟨form, rel, left, right⟩ := h
  cases rel with
  | scalars values => exact ⟨form.of_scalars fun _ hv => .inl (mem_of_mem_arrange hv), .scalars _, nofun, nofun⟩
  | texts hactive =>
    refine ⟨form.of_texts fun _ hv => .inl (mem_of_mem_arrange hv), .texts ?_, nofun, nofun⟩
    exact congrArg (fun items : List Scalar => order.filterMap (items[·]?)) hactive
  | messages hactive => exact ⟨form.of_messages _, .messages (forall₂_arrange hactive order), left, right⟩
  | _ => exact hself

theorem replace (h : s.Peers table child strategy t) {valueType : ValueType} (he : strategy.elementType? = some valueType)
    (position : Nat) {v w : Value Message} (hsuits : w.suits valueType = true) (hvw : v.Rel (Message.Peers table child) w) :
    (s.replace position v).Peers table child strategy (t.replace position w) := by
  have hself := h
  obtain ⟨form, rel, left, right⟩ := h
  cases hvw with
  | scalar value =>
    have hvalue : strategy.Takes value := by
      cases valueType with
      | plain plain => exact ⟨plain, he, eq_of_beq hsuits⟩
      | message ref => cases hsuits
    have hset : ∀ (items : List Scalar), ∀ v ∈ items.set position value, v ∈ items ∨ strategy.Takes v := by
      intro items v hv
      rcases List.mem_or_eq_of_mem_set hv with hv | rfl
      · exact .inl hv
      · exact .inr hvalue
    cases rel with
    | scalars values => exact ⟨form.of_scalars (hset _), .scalars _, nofun, nofun⟩
    | texts hactive =>
      refine ⟨form.of_texts (hset _), .texts ?_, nofun, nofun⟩
      exact congrArg (fun items : List Scalar => items.set position value) hactive
    | _ => exact hself
  | message hxy =>
    cases rel with
    | messages hactive => exact ⟨form.of_messages _, .messages (forall₂_set hactive hxy position), left, right⟩
    | _ => exact hself

theorem push (h : s.Peers table child strategy t) {x y : Message} (hxy : x.Peers table child y) :
    (s.push x).Peers table child strategy (t.push y) := by
  have hself := h
  obtain ⟨form, rel, left, right⟩ := h
  cases rel with
  | messages hactive =>
    refine ⟨form.of_messages _, .messages (List.rel_append hactive (.cons hxy .nil)), fun x hx => ?_, fun x hx => ?_⟩
    · exact left x (List.mem_of_mem_drop hx)
    · exact right x (List.mem_of_mem_drop hx)
  | _ => exact hself

theorem take (h : s.Peers table child strategy t) :
    s.take.2.Peers table child strategy t.take.2 ∧ Option.Rel (Message.Peers table child) s.take.1 t.take.1 := by
  have hself := h
  obtain ⟨form, rel, left, right⟩ := h
  cases rel with
  | @message v w hvw =>
    have hkept : ∀ (v : Singular Message) {x : Message}, x ∈ (Slot.message v.take.2).aside →
        x ∈ (Slot.message v).aside := by
      intro v x hx
      cases v with
      | absent kept => exact hx
      | present m => cases hx
    have hrest : Option.Rel (Message.Peers table child) v.take.2.get? w.take.2.get? := by
      rw [Singular.get?_take, Singular.get?_take]
      exact .none
    refine ⟨⟨?_, .message hrest, fun x hx => left x (hkept v hx), fun x hx => right x (hkept w hx)⟩, ?_⟩
    · cases form
      exact .message
    · show Option.Rel _ v.take.1 w.take.1
      rw [Singular.take_fst, Singular.take_fst]
      exact hvw
  | _ => exact ⟨hself, .none⟩

end Slot.Peers

namespace Message

variable {table : TypeTable} {type child : MessageType} {a b m : Message} {index slot : Nat} {field : Field}

namespace Peers

/-! ## Setting and clearing -/

variable {slotType : ValueType}

theorem setMember (h : a.Peers table type b) (hw : type.WellFormed) (hf : type.fields[index]? = some field)
    (hs : field.strategy = .member slot slotType) {v w : Value Message} (hsuits : w.suits slotType = true)
    (hvw : v.Rel (Message.Peers table (table.childAt type index)) w) :
    (a.setMember slot index v).Peers table type (b.setMember slot index w) := by
  have hc := h.choiceAt (hw.members field (List.mem_of_getElem? hf) slot _ hs)
  refine h.setChoice ⟨.some ⟨rfl, hvw, ?_⟩, hc.left, hc.right⟩
  simp only [Member.suits, hf, Option.map_some, hs, beq_self_eq_true, hsuits, Bool.and_self]

end Peers

theorem set_scalar {old : Scalar} (h : m.slotAt index = .scalar old) (field : Field) (value : Scalar) :
    m.set field index (.scalar value) = m.setScalar field index value := by
  unfold Message.set
  rw [h]
  cases field.oneof <;> rfl

theorem set_message {old : Singular Message} (h : m.slotAt index = .message old) (field : Field) (x : Message) :
    m.set field index (.message x) = m.setSlot index (.message (.present x)) := by
  unfold Message.set
  rw [h]
  cases field.oneof <;> rfl

theorem set_member (h : m.slotAt index = .member) (hone : field.oneof = some slot) (value : Value Message) :
    m.set field index value = m.setMember slot index value := by
  unfold Message.set
  rw [h, hone]

theorem clearField_member (h : m.slotAt index = .member) (hone : field.oneof = some slot) :
    m.clearField field index = if (m.choiceAt slot).isSelected index then m.clearChoice slot else m := by
  unfold Message.clearField
  rw [h, hone]

theorem clearField_slot (h : m.slotAt index ≠ .member) :
    m.clearField field index = (m.setSlot index ((m.slotAt index).clear field)).unmark field := by
  unfold Message.clearField
  split
  · rename_i hslot
    exact absurd hslot h
  · rfl

theorem start_message {old : Singular Message} (h : m.slotAt index = .message old) (field : Field) :
    m.start table type field index =
      (m.setSlot index (.message (.present (old.getOrInit (clear (table.childAt type index)) (new (table.childAt type index))))),
        .field index, old.getOrInit (clear (table.childAt type index)) (new (table.childAt type index))) := by
  unfold Message.start
  rw [h]
  cases field.oneof <;> rfl

theorem start_messages {old : Repeated Message} (h : m.slotAt index = .messages old) (field : Field) :
    m.start table type field index =
      (m.setSlot index (.messages (old.push (old.spare (clear (table.childAt type index)) (new (table.childAt type index))))),
        .element index, old.spare (clear (table.childAt type index)) (new (table.childAt type index))) := by
  unfold Message.start
  rw [h]
  cases field.oneof <;> rfl

theorem start_member (h : m.slotAt index = .member) (hone : field.oneof = some slot) :
    m.start table type field index =
      (m.setChoice slot ((m.choiceAt slot).select (clear (table.childAt type index)) (new (table.childAt type index)) index).2,
        .member slot index,
        ((m.choiceAt slot).select (clear (table.childAt type index)) (new (table.childAt type index)) index).1) := by
  unfold Message.start
  rw [h, hone]

theorem kind_extended (value more : Scalar) : (extended value more).kind = value.kind := by
  unfold extended
  split <;> rfl

theorem Twins.unmark (h : a.Twins table type b) (field : Field) : (a.unmark field).Twins table type (b.unmark field) := by
  unfold Message.unmark
  split
  · rename_i bit _
    have hbits : ∀ (m : Message) (other : Nat), (m.body.presence.unset bit).isSet other = true →
        m.body.presence.isSet other = true ∨ ∃ f ∈ type.fields, f.presenceBit = some other := by
      intro m other hset
      rw [PresenceBits.isSet_unset, Bool.and_eq_true] at hset
      exact .inl hset.1
    exact ⟨h.left.setPresence (PresenceBits.length_unset ..) (hbits a),
      h.right.setPresence (PresenceBits.length_unset ..) (hbits b), h.same.setPresence fun bits => bits.unset bit⟩
  · exact h

end Message

/-- What is left of a cleared field, whatever it held. -/
theorem Slot.Peers.clear {table : TypeTable} {type child : MessageType} {field : Field} {s t : Slot Message}
    (h : s.Peers table child field.strategy t) (hw : type.WellFormed) (hf : field ∈ type.fields) :
    (s.clear field).Peers table child field.strategy (t.clear field) := by
  have htwins := h.twins
  have hs := rel_clear htwins.left.form (Message.Peers table child)
  have ht := rel_clear h.form fun y x => Message.Peers table child x y
  have hnew : Form field.strategy (Slot.new field) := form_new (hw.initial field hf)
  refine ⟨ht.form hnew, ?_, fun x hx => ?_, fun x hx => ?_⟩
  · refine rel_trans hs (rel_symm ht fun _ _ _ => id) fun x hx => ?_
    obtain ⟨y, hy, _⟩ := hs.exists_inUse hnew hx
    rw [inUse_new] at hy
    cases hy
  · exact (mem_of_aside_clear hx).elim (htwins.left.inUse x) (h.left x)
  · exact (mem_of_aside_clear hx).elim (htwins.right.inUse x) (h.right x)

theorem Choice.Peers.stash {table : TypeTable} {type : MessageType} {slot : Nat} {c d : Choice Message}
    (h : c.Peers table type slot d) : c.stash.Peers table type slot d.stash := by
  have htwins := h.twins
  refine ⟨?_, fun i x hx => ?_, fun i x hx => ?_⟩
  · rw [selected_stash, selected_stash]
    exact .none
  · exact (mem_of_spare_stash hx).elim (htwins.left.selected i x) (h.left i x)
  · exact (mem_of_spare_stash hx).elim (htwins.right.selected i x) (h.right i x)

theorem Choice.Rel.isSelected_eq {M N : Type} {R : M → N → Prop} {c : Choice M} {d : Choice N} (h : c.Rel R d)
    (index : Nat) : c.isSelected index = d.isSelected index := by
  have h : Option.Rel _ c.selected d.selected := h
  unfold isSelected
  generalize c.selected = x at h
  generalize d.selected = y at h
  cases h with
  | none => rfl
  | some h => exact congrArg (· == index) h.1

/-! ## Reading -/

namespace Message.Same

variable {a b : Message}

theorem slotAt (h : a.Same b) (index : Nat) : (a.slotAt index).Rel Same (b.slotAt index) := by
  have hslot := h.body.slots index
  unfold Message.slotAt
  generalize a.body.slots[index]? = s at hslot
  generalize b.body.slots[index]? = t at hslot
  cases hslot with
  | none => exact .member
  | some hslot => exact hslot

theorem choiceAt (h : a.Same b) (slot : Nat) : (a.choiceAt slot).Rel Same (b.choiceAt slot) := by
  have hchoice := h.body.choices slot
  unfold Message.choiceAt
  generalize a.body.choices[slot]? = c at hchoice
  generalize b.body.choices[slot]? = d at hchoice
  cases hchoice with
  | none => exact Option.Rel.none
  | some hchoice => exact hchoice

theorem has_eq (h : a.Same b) (field : Field) (index : Nat) : a.has field index = b.has field index := by
  have hslot := h.slotAt index
  unfold Message.has
  generalize a.slotAt index = s at hslot
  generalize b.slotAt index = t at hslot
  cases field.presenceBit with
  | some bit => exact congrArg (PresenceBits.isSet · bit) h.body.presence
  | none =>
    cases field.oneof with
    | some slot => exact Choice.Rel.isSelected_eq (h.choiceAt slot) index
    | none =>
      cases hslot with
      | @message v w hvw =>
        show v.get?.isSome = w.get?.isSome
        generalize v.get? = x at hvw
        generalize w.get? = y at hvw
        cases hvw <;> rfl
      | _ => rfl

theorem value? (h : a.Same b) (field : Field) (index : Nat) :
    Option.Rel (Value.Rel Same) (a.value? field index) (b.value? field index) := by
  have hslot := h.slotAt index
  unfold Message.value?
  generalize a.slotAt index = s at hslot
  generalize b.slotAt index = t at hslot
  cases hslot with
  | scalar value => cases field.oneof <;> exact .some (.scalar value)
  | message hvw => cases field.oneof <;> exact rel_map hvw fun _ _ => .message
  | member =>
    cases field.oneof with
    | none => exact .none
    | some slot =>
      have hselected : Option.Rel _ (a.choiceAt slot).selected (b.choiceAt slot).selected := h.choiceAt slot
      dsimp only
      generalize (a.choiceAt slot).selected = x at hselected
      generalize (b.choiceAt slot).selected = y at hselected
      cases hselected with
      | none => exact .none
      | some hxy =>
        simp only [Option.filter_some, hxy.1]
        split
        · exact .some hxy.2
        · exact .none
  | _ => cases field.oneof <;> exact .none

theorem elements (h : a.Same b) (index : Nat) : List.Forall₂ (Value.Rel Same) (a.elements index) (b.elements index) := by
  have hslot := h.slotAt index
  have hscalars : ∀ values : List Scalar, List.Forall₂ (Value.Rel Same) (values.map .scalar) (values.map .scalar) := by
    intro values
    induction values with
    | nil => exact .nil
    | cons value values ih => exact .cons (.scalar value) ih
  unfold Message.elements
  generalize a.slotAt index = s at hslot
  generalize b.slotAt index = t at hslot
  cases hslot with
  | scalars values => exact hscalars values
  | texts hactive =>
    dsimp only
    rw [hactive]
    exact hscalars _
  | messages hactive =>
    exact List.forall₂_map_left_iff.mpr (List.forall₂_map_right_iff.mpr (hactive.imp fun _ _ => .message))
  | _ => exact .nil

theorem entries (h : a.Same b) (index : Nat) : Entry.Rel Same (a.entries index) (b.entries index) := by
  have hslot := h.slotAt index
  unfold Message.entries
  generalize a.slotAt index = s at hslot
  generalize b.slotAt index = t at hslot
  cases hslot with
  | map hrel => exact hrel
  | _ => exact ⟨.nil, fun _ => .none⟩

end Message.Same

/-! ## Choices and fields -/

namespace Message

variable {table : TypeTable} {type child : MessageType} {a b m : Message} {index slot : Nat} {field : Field}

namespace Peers

theorem clearChoice (h : a.Peers table type b) (hlt : slot < type.oneofs.length) :
    (a.clearChoice slot).Peers table type (b.clearChoice slot) :=
  h.setChoice (h.choiceAt hlt).stash

theorem takeChoice (h : a.Peers table type b) (hlt : slot < type.oneofs.length) :
    (a.takeChoice slot).Peers table type (b.takeChoice slot) := by
  have hc := h.choiceAt hlt
  exact h.setChoice ⟨.none, hc.left, hc.right⟩

theorem member (h : a.Peers table type b) (hf : type.fields[index]? = some field) {slotType : ValueType}
    (hs : field.strategy = .member slot slotType) : a.slotAt index = .member ∧ b.slotAt index = .member := by
  obtain ⟨form, rel, _, _⟩ := h.slotAt hf
  rw [hs] at form
  generalize b.slotAt index = t at *
  generalize a.slotAt index = s at *
  cases form
  cases rel
  exact ⟨rfl, rfl⟩

theorem clearField (h : a.Peers table type b) (hw : type.WellFormed) (hf : type.fields[index]? = some field) :
    (a.clearField field index).Peers table type (b.clearField field index) := by
  have hslot := h.slotAt hf
  have hform := hslot.form
  by_cases hmember : ∃ slot valueType, field.strategy = .member slot valueType
  · obtain ⟨slot, valueType, hs⟩ := hmember
    have hlt := hw.members field (List.mem_of_getElem? hf) slot _ hs
    have hone := Field.oneof_of_strategy hs
    have hc := h.choiceAt hlt
    obtain ⟨ha, hb⟩ := h.member hf hs
    rw [clearField_member ha hone, clearField_member hb hone, Choice.Rel.isSelected_eq hc.twins.rel]
    split
    · exact h.clearChoice hlt
    · exact h
  · have hne : ∀ {m : Message}, Slot.Form field.strategy (m.slotAt index) → m.slotAt index ≠ .member := by
      intro m hform heq
      rw [heq] at hform
      cases hs : field.strategy with
      | member slot valueType => exact hmember ⟨slot, valueType, hs⟩
      | _ =>
        rw [hs] at hform
        cases hform
    rw [clearField_slot (hne hslot.twins.left.form), clearField_slot (hne hform)]
    have hclear := hslot.clear hw (List.mem_of_getElem? hf)
    refine ⟨(h.toTwins.setSlot hf hclear.twins).unmark field, ?_⟩
    have hsound : ((b.slotAt index).clear field).Sound table Rule.any 0 (table.childAt type index) := by
      refine ⟨fun _ _ => trivial, fun y hy => ?_⟩
      obtain ⟨_, _, hxy⟩ := hclear.rel.exists_inUse_left hclear.form hy
      exact hxy.settled.sound _
    unfold Message.unmark
    cases hbit : field.presenceBit with
    | none =>
      refine ((h.settled.sound 0).write hw hf hsound (fun _ => .inl) fun bit hb => ?_).settled
      cases hbit.symm.trans hb
    | some bit =>
      refine ((h.settled.sound 0).write hw hf hsound (fun other hclear => ?_) fun other hother _ => ?_).settled
      · have hclear : (b.body.presence.unset bit).isSet other = false := hclear
        rw [PresenceBits.isSet_unset, Bool.and_eq_false_iff] at hclear
        rcases hclear with hclear | he
        · exact .inl hclear
        · rw [bne_eq_false_iff_eq] at he
          exact .inr (he ▸ hbit)
      · obtain ⟨_, plain, presence, hs⟩ := hw.bits field (List.mem_of_getElem? hf) other hother
        rw [hs] at hform
        generalize b.slotAt index = t at hform
        cases hform
        unfold Slot.isInitial Slot.clear Slot.new
        simp only [hs, beq_self_eq_true]

variable {valueType : ValueType} {key : ScalarType} {plain : PlainType}

theorem set (h : a.Peers table type b) (hw : type.WellFormed) (hf : type.fields[index]? = some field)
    (hv : field.strategy.valueType? = some valueType) {v w : Value Message} (hsuits : w.suits valueType = true)
    (hvw : v.Rel (Message.Peers table (table.childAt type index)) w) :
    (a.set field index v).Peers table type (b.set field index w) := by
  have hslot := h.slotAt hf
  cases hs : field.strategy with
  | singular plain presence =>
    obtain ⟨old, ha, hb, _⟩ := h.toTwins.scalar hf hs
    rw [hs] at hv
    cases hv
    cases hvw with
    | message _ => cases hsuits
    | scalar value =>
      rw [set_scalar ha, set_scalar hb]
      exact h.setScalar hw hf hs (eq_of_beq hsuits)
  | message ref =>
    obtain ⟨old, old', ha, hb, _⟩ := h.toTwins.message hf hs
    rw [hs] at hv
    cases hv
    cases hvw with
    | scalar _ => cases hsuits
    | message hxy =>
      rw [set_message ha, set_message hb]
      refine h.setSlot hw hf (by rw [hs]; nofun) ?_
      rw [hs]
      exact ⟨.message, .message (.some hxy), nofun, nofun⟩
  | member slot slotType =>
    rw [hs] at hv
    cases hv
    obtain ⟨ha, hb⟩ := h.member hf hs
    have hone := Field.oneof_of_strategy hs
    rw [set_member ha hone, set_member hb hone]
    exact h.setMember hw hf hs hsuits hvw
  | _ =>
    rw [hs] at hv
    cases hv

theorem extend (h : a.Peers table type b) (hw : type.WellFormed) (hf : type.fields[index]? = some field)
    {presence : Presence} (hs : field.strategy = .singular plain presence) (more : Scalar) :
    (a.extend field index more).Peers table type (b.extend field index more) := by
  obtain ⟨value, ha, hb, hkind⟩ := h.toTwins.scalar hf hs
  simp only [Message.extend, ha, hb]
  exact h.setScalar hw hf hs ((kind_extended value more).trans hkind)

/-! ## Elements and entries -/

theorem scalars (h : a.Peers table type b) (hf : type.fields[index]? = some field)
    (hs : field.strategy = .repeated plain ∨ field.strategy = .packed plain) :
    ∃ values, a.slotAt index = .scalars values ∧ b.slotAt index = .scalars values := by
  obtain ⟨form, rel, _, _⟩ := h.slotAt hf
  generalize b.slotAt index = t at *
  generalize a.slotAt index = s at *
  rcases hs with hs | hs
  all_goals
    rw [hs] at form
    cases form
    cases rel
    exact ⟨_, rfl, rfl⟩

theorem add (h : a.Peers table type b) (hw : type.WellFormed) (hf : type.fields[index]? = some field)
    (he : field.strategy.elementType? = some (.plain plain)) {value : Scalar} (hkind : value.kind = plain.kind) :
    (a.add index value).Peers table type (b.add index value) := by
  have hne := Strategy.ne_singular_of_elementType he
  have hsound := h.settled.sound 0
  have hnumbers : ∀ (hs : field.strategy = .repeated plain ∨ field.strategy = .packed plain),
      (a.add index value).Peers table type (b.add index value) := by
    intro hs
    obtain ⟨old, ha, hb⟩ := h.scalars hf hs
    simp only [Message.add, ha, hb]
    refine ⟨h.toTwins.appendScalars hf hs fun v hv => ?_, (hsound.appendScalars hw hf hne fun _ _ => trivial).settled⟩
    cases List.mem_singleton.mp hv
    exact hkind
  cases hs : field.strategy with
  | repeated plain' =>
    rw [hs] at he
    cases he
    exact hnumbers (.inl hs)
  | packed plain' =>
    rw [hs] at he
    cases he
    exact hnumbers (.inr hs)
  | texts plain' =>
    rw [hs] at he
    cases he
    obtain ⟨_, _, ha, hb, _⟩ := h.toTwins.texts hf hs
    simp only [Message.add, ha, hb, hkind]
    exact ⟨(h.toTwins.addText hf hs).setLastText hf hs hkind,
      ((hsound.addText (Rule.lawful_any table) hw hf hne _).setLastText hw hf hne trivial).settled⟩
  | _ =>
    rw [hs] at he
    cases he

theorem pop (h : a.Peers table type b) (hw : type.WellFormed) (hf : type.fields[index]? = some field)
    (he : field.strategy.elementType? = some valueType) :
    (a.pop index).2.Peers table type (b.pop index).2 ∧
      Option.Rel (Value.Rel (Message.Peers table (table.childAt type index))) (a.pop index).1 (b.pop index).1 := by
  have hslot := h.slotAt hf
  have hset := fun s t => h.setSlot (s := s) (t := t) hw hf (Strategy.ne_singular_of_elementType he)
  have hscalar : ∀ last : Option Scalar,
      Option.Rel (Value.Rel (Message.Peers table (table.childAt type index))) (last.map .scalar) (last.map .scalar) := by
    intro last
    cases last with
    | none => exact .none
    | some v => exact .some (.scalar v)
  unfold Message.pop
  generalize a.slotAt index = s at *
  generalize b.slotAt index = t at *
  obtain ⟨form, rel, left, right⟩ := hslot
  cases rel with
  | scalars values =>
    have hform := form.of_scalars fun v hv => .inl (List.dropLast_subset _ hv)
    exact ⟨hset _ _ ⟨hform, .scalars _, nofun, nofun⟩, hscalar _⟩
  | @texts xs ys hactive =>
    have hform : Slot.Form _ (Slot.texts ys.pop.2 : Slot Message) :=
      form.of_texts fun v hv => .inl (List.dropLast_subset _ hv)
    refine ⟨hset _ _ ⟨hform, .texts (congrArg List.dropLast hactive), nofun, nofun⟩, ?_⟩
    simp only [Repeated.pop_fst, hactive]
    exact hscalar _
  | @messages xs ys hactive =>
    have hrest : List.Forall₂ (Message.Peers table (table.childAt type index)) xs.active.dropLast ys.active.dropLast := by
      rw [List.dropLast_eq_take, List.dropLast_eq_take, hactive.length_eq]
      exact List.forall₂_take _ hactive
    have hlast : Option.Rel (Message.Peers table (table.childAt type index)) xs.active.getLast? ys.active.getLast? := by
      rw [List.getLast?_eq_getElem?, List.getLast?_eq_getElem?, hactive.length_eq]
      exact rel_getElem? hactive _
    refine ⟨hset _ _ ⟨form.of_messages _, .messages hrest, left, right⟩, ?_⟩
    simp only [Repeated.pop_fst]
    exact rel_map hlast fun _ _ => .message
  | _ => exact ⟨h, .none⟩

theorem insertEntry (h : a.Peers table type b) (hw : type.WellFormed) (hf : type.fields[index]? = some field)
    (hs : field.strategy = .map key valueType) {x y : Entry Message} (hkey : x.key = y.key)
    (hvalue : x.value.Rel (Message.Peers table (table.childAt type index)) y.value)
    (hsuits : y.suits key valueType = true) : (a.insertEntry index x).Peers table type (b.insertEntry index y) := by
  have hslot := h.slotAt hf
  have hset := fun s t => h.setSlot (s := s) (t := t) hw hf (by rw [hs]; nofun)
  rw [hs] at hslot hset
  unfold Message.insertEntry
  generalize a.slotAt index = s at *
  generalize b.slotAt index = t at *
  obtain ⟨form, rel, _, _⟩ := hslot
  cases form with
  | map suit nodup =>
    cases rel with
    | map rel =>
      refine hset _ _ ⟨.map (fun other ho => ?_) (Entry.nodup_insert nodup y), .map (rel.insert hkey hvalue), nofun, nofun⟩
      rcases Entry.mem_of_mem_insert ho with ho | rfl
      · exact suit other ho
      · exact hsuits

theorem removeEntry (h : a.Peers table type b) (hw : type.WellFormed) (hf : type.fields[index]? = some field)
    (hs : field.strategy = .map key valueType) (removed : Scalar) :
    (a.removeEntry index removed).Peers table type (b.removeEntry index removed) := by
  have hslot := h.slotAt hf
  have hset := fun s t => h.setSlot (s := s) (t := t) hw hf (by rw [hs]; nofun)
  rw [hs] at hslot hset
  unfold Message.removeEntry Message.entries
  generalize a.slotAt index = s at *
  generalize b.slotAt index = t at *
  obtain ⟨form, rel, _, _⟩ := hslot
  cases form with
  | map suit nodup =>
    cases rel with
    | map rel =>
      refine hset _ _ ⟨.map (fun other ho => suit other (List.mem_filter.mp ho).1) ?_, .map (rel.remove removed),
        nofun, nofun⟩
      exact nodup.sublist (List.filter_sublist.map Entry.key)

theorem lookup (h : a.Peers table type b) (hf : type.fields[index]? = some field)
    (hs : field.strategy = .map key valueType) (found : Scalar) :
    Option.Rel (Value.Rel (Message.Peers table (table.childAt type index))) (a.lookup index found) (b.lookup index found) := by
  have hslot := h.slotAt hf
  rw [hs] at hslot
  unfold Message.lookup Message.entries
  generalize a.slotAt index = s at *
  generalize b.slotAt index = t at *
  obtain ⟨form, rel, _, _⟩ := hslot
  cases form with
  | map _ _ =>
    cases rel with
    | map rel => exact rel.values found

/-- A key that is found suits the map. -/
theorem key_suits (h : a.Peers table type b) (hf : type.fields[index]? = some field)
    (hs : field.strategy = .map key valueType) {found : Scalar} {old new : Value Message}
    (hold : b.lookup index found = some old) (hnew : new.suits valueType = true) :
    (Entry.mk found new).suits key valueType = true := by
  have hform := (h.slotAt hf).form
  rw [hs] at hform
  unfold Message.lookup Message.entries at hold
  generalize b.slotAt index = t at *
  cases hform with
  | map suit _ =>
    have hentry := suit _ (Entry.mem_of_valueOf hold)
    simp only [Entry.suits, Bool.and_eq_true] at hentry ⊢
    exact ⟨hentry.1, hnew⟩

/-! ## Sub-messages -/

theorem put (hg : table.Generated) (h : a.Peers table type b) (hw : type.WellFormed) {place : Place} {childType : MessageType}
    (hp : place.Suits table type childType) {x y : Message} (hxy : x.Peers table childType y) :
    (a.put table type place x).Peers table type (b.put table type place y) :=
  ⟨put_twins hg hw h.toTwins hp hxy.toTwins,
    (put_sound hg (Rule.lawful_any table) hw h.right hp hxy.right (h.settled.sound 0) (hxy.settled.sound _)).settled⟩

/-- Sub-messages start as peers, whatever was kept aside for them. -/
theorem start (hg : table.Generated) (h : a.Peers table type b) (hw : type.WellFormed)
    (hf : type.fields[index]? = some field) {ref : TypeRef}
    (hs : field.strategy.valueType? = some (.message ref) ∨ field.strategy.elementType? = some (.message ref)) :
    ∃ a' b' place x y, a.start table type field index = (a', place, x) ∧ b.start table type field index = (b', place, y) ∧
      a'.Peers table type b' ∧ place.Suits table type (table.childAt type index) ∧
      x.Peers table (table.childAt type index) y := by
  have hwc := hg.childAt type index
  have hlawful := Rule.lawful_any table
  have hdefaults : (table.childAt type index).Defaults Rule.any.value := fun _ _ _ _ => trivial
  cases hstrategy : field.strategy with
  | message ref' =>
    obtain ⟨v, w, ha, hb, htwins⟩ := h.toTwins.message hf hstrategy
    have hsound := (h.settled.sound 0).slotAt index
    rw [hb] at hsound
    have hstart : Message.Peers table _ _ _ :=
      ⟨Twins.start_field hwc htwins, (Sound.start_field hlawful hwc hdefaults htwins.right hsound).settled⟩
    refine ⟨_, _, _, _, _, start_message ha field, start_message hb field, ?_, .field hf hstrategy, hstart⟩
    refine h.setSlot hw hf (by rw [hstrategy]; nofun) ?_
    rw [hstrategy]
    exact ⟨.message, .message (.some hstart), nofun, nofun⟩
  | messages ref' =>
    obtain ⟨xs, ys, ha, hb, htwins⟩ := h.toTwins.messages hf hstrategy
    have hsound : Sound table .any (0 - 1) _ _ := Sound.start_element hlawful hwc hdefaults htwins.right
    have hstart : Message.Peers table _ _ _ := ⟨Twins.start_element hwc htwins, hsound.settled⟩
    have hslot := h.slotAt hf
    rw [ha, hb] at hslot
    exact ⟨_, _, _, _, _, start_messages ha field, start_messages hb field,
      h.setSlot hw hf (by rw [hstrategy]; nofun) (hslot.push hstart), .element hf hstrategy, hstart⟩
  | member slot slotType =>
    rw [hstrategy] at hs
    rcases hs with hs | hs
    · cases hs
      obtain ⟨ha, hb⟩ := h.member hf hstrategy
      have hone := Field.oneof_of_strategy hstrategy
      have hc := h.choiceAt (hw.members field (List.mem_of_getElem? hf) slot _ hstrategy)
      have htwins := hc.twins
      have hstart : Message.Peers table _ _ _ :=
        ⟨Twins.start_member hwc htwins, (Sound.start_member hlawful hwc hdefaults htwins.right (h.settled.sound 0)).settled⟩
      refine ⟨_, _, _, _, _, start_member ha hone, start_member hb hone,
        h.setChoice ⟨?_, fun i x hx => ?_, fun i x hx => ?_⟩, .member hf hstrategy, hstart⟩
      · rw [Choice.selected_select, Choice.selected_select]
        refine .some ⟨rfl, .message hstart, ?_⟩
        simp only [Member.suits, hf, Option.map_some, hstrategy, beq_self_eq_true, Value.suits, Bool.and_self]
      · exact (Choice.mem_of_spare_select hx).elim (htwins.left.selected i x) (hc.left i x)
      · exact (Choice.mem_of_spare_select hx).elim (htwins.right.selected i x) (hc.right i x)
    · cases hs
  | _ =>
    rw [hstrategy] at hs
    rcases hs with hs | hs <;> cases hs

end Peers

end Message

end Protobuf
