/-
  Protobuf.Proofs.Peers — messages that cannot be told apart.

  Peers are twins in which fields that are not set hold their defaults, so what they show determines
  what they hold. Peers have peers for parts, and putting peers in place of parts leaves peers, as does
  resetting, measuring, copying or reading into both. What is kept aside may differ before and after.
-/

import Protobuf.Proofs.Sound
import Protobuf.Proofs.Visible

namespace Protobuf

open Schema

/-! ## Peers -/

section Definitions

variable (table : TypeTable)

/-- Twins in which fields that are not set hold their defaults. -/
structure Message.Peers (type : MessageType) (a b : Message) : Prop extends a.Twins table type b where
  settled : Settled table type b

/-- Slots of a field with peers in use; whatever is aside has the form of its type. -/
structure Slot.Peers (child : MessageType) (strategy : Strategy) (a b : Slot Message) : Prop where
  form : Slot.Form strategy b
  rel : a.Rel (Message.Peers table child) b
  left : ∀ x ∈ a.aside, Message.Held table child x
  right : ∀ x ∈ b.aside, Message.Held table child x

/-- Members of one field, with values of its type or peers. -/
structure Member.Peers (type : MessageType) (slot : Nat) (a b : Member Message) : Prop where
  field : a.field = b.field
  value : a.value.Rel (Message.Peers table (table.childAt type b.field)) b.value
  suits : b.suits type slot = true

/-- Choices that select peers; whatever is spare has the form of its type. -/
structure Choice.Peers (type : MessageType) (slot : Nat) (a b : Choice Message) : Prop where
  selected : Option.Rel (Member.Peers table type slot) a.selected b.selected
  left : ∀ index x, a.spare = some ⟨index, .message x⟩ → Message.Held table (table.childAt type index) x
  right : ∀ index x, b.spare = some ⟨index, .message x⟩ → Message.Held table (table.childAt type index) x

end Definitions

section Relations

variable {M N : Type} {R S : M → N → Prop}

theorem Value.Rel.imp {a : Value M} {b : Value N} (h : a.Rel R b) (hRS : ∀ x y, R x y → S x y) : a.Rel S b := by
  cases h with
  | scalar value => exact .scalar value
  | message h => exact .message (hRS _ _ h)

theorem Slot.Rel.imp {a : Slot M} {b : Slot N} (h : a.Rel R b) (hRS : ∀ x ∈ a.inUse, ∀ y ∈ b.inUse, R x y → S x y) :
    a.Rel S b := by
  have hself : b.Rel (fun y z => y = z ∧ y ∈ b.inUse) b := Slot.rel_refl fun y hy => ⟨rfl, hy⟩
  refine Slot.rel_trans h hself ?_
  rintro x hx y _ hxy ⟨rfl, hy⟩
  exact hRS x hx y hy hxy

/-- A sub-message on the right has its counterpart too. -/
theorem Slot.Rel.exists_inUse_left {a : Slot M} {b : Slot N} (h : a.Rel R b) {strategy : Strategy}
    (hb : Slot.Form strategy b) {y : N} (hy : y ∈ b.inUse) : ∃ x ∈ a.inUse, R x y := by
  have hsymm : b.Rel (fun y x => R x y) a := Slot.rel_symm h fun _ _ _ => id
  exact hsymm.exists_inUse (h.form hb) hy

theorem rel_imp {r s : M → N → Prop} {a : Option M} {b : Option N} (h : Option.Rel r a b) (hrs : ∀ x y, r x y → s x y) :
    Option.Rel s a b := by
  cases h with
  | none => exact .none
  | some h => exact .some (hrs _ _ h)

theorem rel_map {α β : Type} {r : M → N → Prop} {t : α → β → Prop} {f : M → α} {g : N → β} {a : Option M} {b : Option N}
    (h : Option.Rel r a b) (ht : ∀ x y, r x y → t (f x) (g y)) : Option.Rel t (a.map f) (b.map g) := by
  cases h with
  | none => exact .none
  | some h => exact .some (ht _ _ h)

theorem rel_getElem? {xs : List M} {ys : List N} (h : List.Forall₂ R xs ys) (position : Nat) :
    Option.Rel R xs[position]? ys[position]? := by
  induction h generalizing position with
  | nil => exact .none
  | cons hxy _ ih =>
    cases position with
    | zero => exact .some hxy
    | succ position => exact ih position

theorem Entry.valueOf_remove (entries : List (Entry M)) (removed key : Scalar) :
    Entry.valueOf (entries.filter fun entry => entry.key != removed) key =
      if key = removed then none else Entry.valueOf entries key := by
  split
  · rename_i he
    subst he
    rw [Entry.valueOf_eq_none_iff]
    intro hmem
    obtain ⟨entry, he, hkey⟩ := List.mem_map.mp hmem
    have hne := (List.mem_filter.mp he).2
    rw [hkey] at hne
    exact bne_iff_ne.mp hne rfl
  · rename_i hne
    unfold Entry.valueOf
    rw [List.find?_filter]
    congr 2
    funext entry
    by_cases hkey : entry.key = key
    · subst hkey
      simp [hne]
    · simp [hkey]

theorem Entry.Rel.remove {as : List (Entry M)} {bs : List (Entry N)} (h : Entry.Rel R as bs) (removed : Scalar) :
    Entry.Rel R (as.filter fun entry => entry.key != removed) (bs.filter fun entry => entry.key != removed) := by
  refine ⟨?_, fun key => ?_⟩
  · have hkeys : ∀ {L : Type} (entries : List (Entry L)), (entries.filter fun entry => entry.key != removed).map Entry.key =
        (entries.map Entry.key).filter (· != removed) := by
      intro L entries
      rw [List.filter_map]
      rfl
    rw [hkeys, hkeys]
    exact h.keys.filter _
  · rw [Entry.valueOf_remove, Entry.valueOf_remove]
    split
    · exact .none
    · exact h.values key

end Relations

/-! ## Types of values -/

namespace Schema.Strategy

/-- The type of the one value that a field or member holds. -/
def valueType? : Strategy → Option ValueType
  | singular plain _ => some (.plain plain)
  | message ref => some (.message ref)
  | member _ type => some type
  | _ => none

/-- The type of the elements of a repeated field. -/
def elementType? : Strategy → Option ValueType
  | repeated plain | packed plain | texts plain => some (.plain plain)
  | messages ref => some (.message ref)
  | _ => none

theorem ne_singular_of_elementType {strategy : Strategy} {valueType : ValueType}
    (h : strategy.elementType? = some valueType) (plain : PlainType) (presence : Presence) :
    strategy ≠ .singular plain presence := by
  rintro rfl
  cases h

end Schema.Strategy

section Elements

variable {M : Type} {strategy : Strategy}

/-- A single value that can be an element of the field. -/
def Schema.Strategy.Takes (strategy : Strategy) (value : Scalar) : Prop :=
  ∃ plain, strategy.elementType? = some (.plain plain) ∧ value.kind = plain.kind

/-- Other single values in a repeated field, all of which were there or have its type. -/
theorem Slot.Form.of_scalars {values : List Scalar} (h : Slot.Form strategy (.scalars values : Slot M)) {after : List Scalar}
    (hafter : ∀ v ∈ after, v ∈ values ∨ strategy.Takes v) :
    Slot.Form strategy (.scalars after : Slot M) := by
  cases h with
  | repeated kinds =>
    refine .repeated fun v hv => ?_
    rcases hafter v hv with hv | ⟨_, ⟨⟩, hkind⟩
    · exact kinds v hv
    · exact hkind
  | packed kinds =>
    refine .packed fun v hv => ?_
    rcases hafter v hv with hv | ⟨_, ⟨⟩, hkind⟩
    · exact kinds v hv
    · exact hkind

theorem Slot.Form.of_texts {values : Repeated Scalar} (h : Slot.Form strategy (.texts values : Slot M))
    {after : Repeated Scalar} (hafter : ∀ v ∈ after.active, v ∈ values.active ∨ strategy.Takes v) :
    Slot.Form strategy (.texts after : Slot M) := by
  cases h with
  | texts kinds =>
    refine .texts fun v hv => ?_
    rcases hafter v hv with hv | ⟨_, ⟨⟩, hkind⟩
    · exact kinds v hv
    · exact hkind

theorem Slot.Form.of_messages {values : Repeated M} (h : Slot.Form strategy (.messages values)) (after : Repeated M) :
    Slot.Form strategy (.messages after) := by
  cases h
  exact .messages

end Elements

/-! ## Settled messages -/

/-- A rule that asks nothing. -/
def Rule.any : Rule := ⟨fun _ => True, fun _ _ _ => True⟩

theorem Rule.lawful_any (table : TypeTable) : Rule.any.Lawful table where
  sized := fun _ => trivial
  defaults := fun _ _ _ _ _ _ => trivial
  nil := fun _ _ => trivial
  append := fun _ _ _ _ => trivial

namespace Message

variable {table : TypeTable} {type child : MessageType} {a b m : Message} {index slot : Nat} {field : Field}

theorem Settled.sound (h : Settled table type m) (room : Nat) : Sound table .any room type m := by
  induction h generalizing room with
  | mk level _ ih => exact .mk (fun _ _ => trivial) level trivial fun part hp => ih part hp _

theorem settled_new (table : TypeTable) (hw : type.WellFormed) : Settled table type (new type) :=
  (sound_new (Rule.lawful_any table) hw (fun _ _ _ _ => trivial) 0).settled

theorem Settled.of_same (hb : Settled table type b) (hheld : Held table type b) (h : a.Same b) : Settled table type a :=
  ((hb.sound 0).of_same hheld h).settled

end Message

/-! ## Measuring and copying -/

theorem Slot.aside_mapParts {M N : Type} (f g : M → N) (slot : Slot M) : (slot.mapParts f g).aside = slot.aside.map g := by
  cases slot with
  | message value =>
    cases value with
    | absent kept => cases kept <;> rfl
    | present m => rfl
  | _ => rfl

theorem Slot.inUse_copied {M : Type} (slot : Slot M) : slot.copied.inUse = slot.inUse := by
  cases slot with
  | message value =>
    show value.copy.get?.toList = value.get?.toList
    rw [Singular.get?_copy]
  | _ => rfl

theorem Slot.aside_copied {M : Type} (slot : Slot M) : slot.copied.aside = [] := by
  cases slot with
  | message value => cases value <;> rfl
  | _ => rfl

theorem Body.mem_parts_mapSlots {M : Type} {held : Slot M → List M} {pick : Choice M → Option (Member M)}
    {f : Slot M → Slot M} (hf : ∀ s y, y ∈ held (f s) → y ∈ held s) {body : Body M} {part : Nat × M}
    (h : part ∈ parts held pick { body with slots := body.slots.map f }) : part ∈ body.parts held pick := by
  rcases mem_parts_iff.mp h with ⟨s', hs', hy⟩ | hchoice
  · dsimp only at hs'
    rw [List.getElem?_map] at hs'
    obtain ⟨s, hs, rfl⟩ := Option.map_eq_some_iff.mp hs'
    exact mem_parts_iff.mpr (.inl ⟨s, hs, hf s _ hy⟩)
  · exact mem_parts_iff.mpr (.inr hchoice)

/-- One level, and what it is after its messages in use went through one function and those aside through another. -/
structure Body.Mapped {M N : Type} (active idle : Nat → M → N) (before : Body M) (after : Body N) : Prop where
  slots : ∀ index : Nat, after.slots[index]? = before.slots[index]?.map (Slot.mapParts (active index) (idle index))
  choices : ∀ slot : Nat, after.choices[slot]? = before.choices[slot]?.map fun choice =>
    ⟨choice.selected.map fun member => member.map (active member.field),
      choice.spare.map fun member => member.map (idle member.field)⟩
  presence : after.presence = before.presence
  unknown : after.unknown = before.unknown

namespace Body.Mapped

variable {M N : Type} {active idle : Nat → M → N} {before : Body M} {after : Body N}

/-- Nothing but sub-messages changes. -/
theorem rel (h : Mapped active idle before after) : after.Rel (fun _ _ => True) before := by
  refine ⟨fun index => ?_, fun slot => ?_, h.presence, h.unknown⟩
  · rw [h.slots]
    exact Protobuf.rel_map_left.mpr (Protobuf.rel_refl fun s _ =>
      Slot.rel_map_left.mpr (Slot.rel_refl fun _ _ => trivial))
  · rw [h.choices]
    refine Protobuf.rel_map_left.mpr (Protobuf.rel_refl fun choice _ => Protobuf.rel_map_left.mpr ?_)
    exact Protobuf.rel_refl fun member _ => ⟨rfl, Value.rel_map_left.mpr (Value.rel_refl fun _ _ => trivial)⟩

theorem shaped (h : Mapped active idle before after) {type : MessageType} (hs : before.Shaped type) : after.Shaped type :=
  h.rel.shaped hs

theorem mem_parts (h : Mapped active idle before after) {through : Nat → M → N} {held : Slot M → List M}
    {held' : Slot N → List N} {pick : Choice M → Option (Member M)} {pick' : Choice N → Option (Member N)}
    (hheld : ∀ index s, held' (s.mapParts (active index) (idle index)) = (held s).map (through index))
    (hpick : ∀ choice, pick' ⟨choice.selected.map fun member => member.map (active member.field),
      choice.spare.map fun member => member.map (idle member.field)⟩ =
        (pick choice).map fun member => member.map (through member.field))
    {index : Nat} {y : N} (hy : (index, y) ∈ after.parts held' pick') :
    ∃ x, (index, x) ∈ before.parts held pick ∧ through index x = y := by
  rcases mem_parts_iff.mp hy with ⟨s', hs', hy⟩ | ⟨slot, choice', hc', hm'⟩
  · rw [h.slots] at hs'
    obtain ⟨s, hs, rfl⟩ := Option.map_eq_some_iff.mp hs'
    rw [hheld] at hy
    obtain ⟨x, hx, rfl⟩ := List.mem_map.mp hy
    exact ⟨x, mem_parts_iff.mpr (.inl ⟨s, hs, hx⟩), rfl⟩
  · rw [h.choices] at hc'
    obtain ⟨choice, hc, rfl⟩ := Option.map_eq_some_iff.mp hc'
    rw [hpick] at hm'
    obtain ⟨⟨i, value⟩, hm, he⟩ := Option.map_eq_some_iff.mp hm'
    cases value with
    | scalar v => cases he
    | message x =>
      cases he
      exact ⟨x, mem_parts_iff.mpr (.inr ⟨slot, choice, hc, hm⟩), rfl⟩

theorem inUse (h : Mapped active idle before after) {index : Nat} {y : N} (hy : (index, y) ∈ after.inUse) :
    ∃ x, (index, x) ∈ before.inUse ∧ active index x = y :=
  h.mem_parts (fun _ _ => Slot.inUse_mapParts ..) (fun _ => rfl) hy

theorem aside (h : Mapped active idle before after) {index : Nat} {y : N} (hy : (index, y) ∈ after.aside) :
    ∃ x, (index, x) ∈ before.aside ∧ idle index x = y :=
  h.mem_parts (fun _ _ => Slot.aside_mapParts ..) (fun _ => rfl) hy

theorem forall_inUse (h : Mapped active idle before after) {Q : Nat × N → Prop}
    (hQ : ∀ part ∈ before.inUse, Q (part.1, active part.1 part.2)) : ∀ part ∈ after.inUse, Q part := by
  rintro ⟨index, y⟩ hy
  obtain ⟨x, hx, rfl⟩ := h.inUse hy
  exact hQ (index, x) hx

theorem forall_aside (h : Mapped active idle before after) {Q : Nat × N → Prop}
    (hQ : ∀ part ∈ before.aside, Q (part.1, idle part.1 part.2)) : ∀ part ∈ after.aside, Q part := by
  rintro ⟨index, y⟩ hy
  obtain ⟨x, hx, rfl⟩ := h.aside hy
  exact hQ (index, x) hx

theorem map (f : M → N) (body : Body M) : Mapped (fun _ => f) (fun _ => f) body (body.map f) where
  slots := fun _ => List.getElem?_map
  choices := fun _ => List.getElem?_map
  presence := rfl
  unknown := rfl

/-- A level whose messages went through a function that knows their types, and then each through one of two. -/
theorem mapTyped {L : Type} (table : TypeTable) (type : MessageType) (f : MessageType → L → M) (active idle : M → N)
    (body : Body L) : Mapped (fun index x => active (f (table.childAt type index) x))
      (fun index x => idle (f (table.childAt type index) x)) body ((body.mapTyped table type f).mapParts active idle) where
  slots := by
    intro index
    rw [mapParts, List.getElem?_map, slots_mapTyped, Option.map_map]
    exact congrArg (Option.map · _) (funext fun s => Slot.mapParts_mapParts ..)
  choices := by
    intro slot
    have hmember : ∀ (g : M → N) (selected : Option (Member L)),
        (selected.map (Member.mapTyped table type f)).map (Member.map g) =
          selected.map fun member => member.map fun x => g (f (table.childAt type member.field) x) := by
      intro g selected
      rw [Option.map_map]
      exact congrArg (Option.map · selected) (funext fun member => Member.map_map ..)
    simp only [mapParts, Body.mapTyped, List.getElem?_map, Option.map_map, Function.comp_def, Choice.mapParts]
    refine congrArg (Option.map · _) (funext fun choice => ?_)
    rw [← hmember, ← hmember, Option.map_map, Option.map_map]
    rfl
  presence := rfl
  unknown := rfl

end Body.Mapped

namespace Message

variable {table : TypeTable} {type child : MessageType} {a b m : Message} {index slot : Nat} {field : Field}

theorem held_of_mapped {active idle : Nat → Message → Message} {before after : Body Message}
    (h : Body.Mapped active idle before after) (hs : before.Shaped type)
    (hactive : ∀ part ∈ before.inUse, Held table (table.childAt type part.1) (active part.1 part.2))
    (hidle : ∀ part ∈ before.aside, Held table (table.childAt type part.1) (idle part.1 part.2)) :
    Held table type (mk after) :=
  .mk (h.shaped hs) (h.forall_inUse hactive) (h.forall_aside hidle)

/-- Measuring keeps the form of all that is in use and aside, in the message it starts from as in its result. -/
theorem held_measureStep (h : Held table type m) :
    Held table type (m.foldTyped table type measureStep).1 ∧ Held table type (m.foldTyped table type measureStep).2 := by
  induction h with
  | @mk type body shaped _ _ ihUse ihAside =>
    have hmapped := fun active =>
      Body.Mapped.mapTyped table type (fun t m => m.foldTyped table t measureStep) active Prod.fst body
    have hidle := fun part hp => (ihAside part hp).1
    rw [foldTyped_mk]
    refine ⟨held_of_mapped (hmapped Prod.fst) shaped (fun part hp => (ihUse part hp).1) hidle, ?_⟩
    -- the remembered size is no part of the form
    obtain ⟨slots, choices, presence, unknown⟩ := hmapped Prod.snd
    exact held_of_mapped ⟨slots, choices, presence, unknown⟩ shaped (fun part hp => (ihUse part hp).2) hidle

theorem held_measure (h : Held table type m) : Held table type (m.measure table type) := (held_measureStep h).2

theorem copy_mk (body : Body Message) :
    (mk body).copy = mk { body.map copy with slots := (body.map copy).slots.map Slot.copied } := by
  rw [copy, fold_mk]
  refine congrArg (fun slots => mk { body.map copy with slots := slots }) (List.map_congr_left fun slot _ => ?_)
  cases slot <;> rfl

theorem copy_same (m : Message) : m.copy.Same m := by
  induction m using Message.induct with
  | step body ih =>
    have hparts : (body.map copy).Rel Same body := Body.rel_map_left.mpr (Body.rel_refl ih)
    rw [copy_mk]
    refine same_mk_iff.mpr ⟨fun index => ?_, hparts.choices, rfl, rfl⟩
    dsimp only
    rw [List.getElem?_map]
    exact rel_map_left.mpr (rel_imp (hparts.slots index) fun _ _ h => h.copied)

/-- The parts of a copy are copies of what is in use and of what is aside. -/
theorem forall_parts_copy {body : Body Message} {Q : Nat × Message → Prop}
    (hactive : ∀ part ∈ body.inUse, Q (part.1, part.2.copy)) (hidle : ∀ part ∈ body.aside, Q (part.1, part.2.copy)) :
    (∀ part ∈ (mk body).copy.body.inUse, Q part) ∧ ∀ part ∈ (mk body).copy.body.aside, Q part := by
  have hmapped := Body.Mapped.map copy body
  have hnone : ∀ (s : Slot Message) (y : Message), y ∈ s.copied.aside → y ∈ s.aside := by
    intro s y hy
    rw [Slot.aside_copied] at hy
    cases hy
  rw [copy_mk]
  refine ⟨fun part hp => ?_, fun part hp => ?_⟩
  · exact hmapped.forall_inUse hactive part (Body.mem_parts_mapSlots (fun s _ hy => s.inUse_copied ▸ hy) hp)
  · exact hmapped.forall_aside hidle part (Body.mem_parts_mapSlots hnone hp)

theorem held_copy (h : Held table type m) : Held table type m.copy := by
  induction h with
  | @mk type body shaped _ _ ihUse ihAside =>
    have hrel := (copy_same (mk body)).body
    obtain ⟨hinUse, haside⟩ :=
      forall_parts_copy (Q := fun part => Held table (table.childAt type part.1) part.2) ihUse ihAside
    rw [copy_mk] at hrel hinUse haside ⊢
    exact .mk (hrel.shaped shaped) hinUse haside

/-! ## Parts of peers -/

theorem Held.peers (h : Held table type m) (hs : Settled table type m) : m.Peers table type m := ⟨h.twins, hs⟩

namespace Peers

theorem slotAt (h : a.Peers table type b) (hf : type.fields[index]? = some field) :
    (a.slotAt index).Peers table (table.childAt type index) field.strategy (b.slotAt index) := by
  have htwins := h.toTwins.slotAt hf
  have hsettled := ((h.settled.sound 0).slotAt index).inUse
  refine ⟨htwins.right.form, htwins.rel.imp fun x hx y hy hxy => ?_, htwins.left.aside, htwins.right.aside⟩
  exact ⟨⟨htwins.left.inUse x hx, htwins.right.inUse y hy, hxy⟩, (hsettled y hy).settled⟩

theorem choiceAt (h : a.Peers table type b) (hlt : slot < type.oneofs.length) :
    (a.choiceAt slot).Peers table type slot (b.choiceAt slot) := by
  have htwins := h.toTwins.choiceAt hlt
  have hsettled : ∀ index x, (b.choiceAt slot).selected = some ⟨index, .message x⟩ →
      Settled table (table.childAt type index) x := by
    intro index x hx
    cases (h.settled.sound 0).selected hx with
    | message hx => exact hx.settled
  obtain ⟨left, right, rel⟩ := htwins
  refine ⟨?_, left.spare, right.spare⟩
  cases ha : (a.choiceAt slot).selected with
  | none =>
    rw [(rel_none rel).mp ha]
    exact .none
  | some member =>
    obtain ⟨⟨i, value⟩, hb, hfield, hvalue⟩ := exists_of_rel rel ha
    rw [hb]
    refine .some ⟨hfield, ?_, right.suits _ hb⟩
    obtain ⟨_, value'⟩ := member
    cases hfield
    cases hvalue with
    | scalar v => exact .scalar v
    | message hxy => exact .message ⟨⟨left.selected i _ ha, right.selected i _ hb, hxy⟩, hsettled i _ hb⟩

end Peers

end Message

/-! ## Changing a part -/

section Kept

variable {table : TypeTable} {type child : MessageType} {slot : Nat} {strategy : Strategy}

theorem Slot.Peers.twins {s t : Slot Message} (h : s.Peers table child strategy t) : s.Twins table child strategy t := by
  refine ⟨⟨h.rel.form h.form, fun x hx => ?_, h.left⟩, ⟨h.form, fun y hy => ?_, h.right⟩,
    h.rel.imp fun _ _ _ _ hxy => hxy.same⟩
  · obtain ⟨_, _, hxy⟩ := h.rel.exists_inUse h.form hx
    exact hxy.left
  · obtain ⟨_, _, hxy⟩ := h.rel.exists_inUse_left h.form hy
    exact hxy.right

theorem Member.Peers.suits_left {a b : Member Message} (h : a.Peers table type slot b) : a.suits type slot = true := by
  have hb := h.suits
  unfold Member.suits at hb ⊢
  simp only [h.field, h.value.suits_eq]
  exact hb

theorem Choice.Peers.twins {c d : Choice Message} (h : c.Peers table type slot d) : c.Twins table type slot d := by
  obtain ⟨selected, left, right⟩ := h
  have hleft : ∀ member, c.selected = some member → ∃ other, d.selected = some other ∧ member.Peers table type slot other :=
    fun member hm => exists_of_rel selected hm
  have hright : ∀ member, d.selected = some member → ∃ other, c.selected = some other ∧ other.Peers table type slot member :=
    fun member hm => exists_of_rel (rel_symm selected fun _ _ _ => id) hm
  refine ⟨⟨fun member hm => ?_, fun index x hx => ?_, left⟩, ⟨fun member hm => ?_, fun index x hx => ?_, right⟩, ?_⟩
  · obtain ⟨_, _, hpeers⟩ := hleft member hm
    exact hpeers.suits_left
  · obtain ⟨⟨i, v⟩, _, hfield, hvalue, _⟩ := hleft _ hx
    cases hfield
    cases hvalue with
    | message hxy => exact hxy.left
  · obtain ⟨_, _, hpeers⟩ := hright member hm
    exact hpeers.suits
  · obtain ⟨⟨i, v⟩, _, hfield, hvalue, _⟩ := hright _ hx
    cases hvalue with
    | message hxy => exact hxy.right
  · exact rel_imp selected fun _ _ hpeers => ⟨hpeers.field, hpeers.value.imp fun _ _ hxy => hxy.same⟩

end Kept

namespace Message

variable {table : TypeTable} {type child : MessageType} {a b m : Message} {index slot : Nat} {field : Field}

namespace Peers

/-- A field that is not tracked may hold anything of its form. -/
theorem setSlot (h : a.Peers table type b) (hw : type.WellFormed) (hf : type.fields[index]? = some field)
    (hne : ∀ plain presence, field.strategy ≠ .singular plain presence) {s t : Slot Message}
    (hst : s.Peers table (table.childAt type index) field.strategy t) :
    (a.setSlot index s).Peers table type (b.setSlot index t) := by
  refine ⟨h.toTwins.setSlot hf hst.twins,
    ((h.settled.sound 0).setSlot hw hf hne ⟨fun _ _ => trivial, fun y hy => ?_⟩).settled⟩
  obtain ⟨_, _, hxy⟩ := hst.rel.exists_inUse_left hst.form hy
  exact hxy.settled.sound _

theorem setChoice (h : a.Peers table type b) {c d : Choice Message} (hcd : c.Peers table type slot d) :
    (a.setChoice slot c).Peers table type (b.setChoice slot d) := by
  refine ⟨h.toTwins.setChoice hcd.twins, ((h.settled.sound 0).setChoice fun member hm => ?_).settled⟩
  obtain ⟨⟨_, other⟩, _, _, hvalue, _⟩ := exists_of_rel (rel_symm hcd.selected fun _ _ _ => id) hm
  obtain ⟨i, value⟩ := member
  cases hvalue with
  | scalar v => exact .scalar trivial
  | message hxy => exact .message (hxy.settled.sound _)

theorem setScalar (h : a.Peers table type b) (hw : type.WellFormed) (hf : type.fields[index]? = some field)
    {plain : PlainType} {presence : Presence} (hs : field.strategy = .singular plain presence) {value : Scalar}
    (hkind : value.kind = plain.kind) : (a.setScalar field index value).Peers table type (b.setScalar field index value) := by
  obtain ⟨body⟩ := b
  exact ⟨h.toTwins.setScalar hw hf hs hkind, ((h.settled.sound 0).setScalar hw h.right.shaped hf trivial).settled⟩

/-! ## Whole messages -/

theorem clear (h : a.Peers table type b) (hw : type.WellFormed) : (a.clear type).Peers table type (b.clear type) := by
  have hb := clear_same h.right
  exact ⟨⟨held_clear hw h.left, held_clear hw h.right, (clear_same h.left).trans hb.symm⟩,
    (settled_new table hw).of_same (held_new table hw) hb⟩

theorem measure (h : a.Peers table type b) : (a.measure table type).Peers table type (b.measure table type) := by
  have hb := measure_same table b type
  exact ⟨⟨held_measure h.left, held_measure h.right, ((measure_same table a type).trans h.same).trans hb.symm⟩,
    h.settled.of_same h.right hb⟩

theorem copy (h : a.Peers table type b) : a.copy.Peers table type b.copy := by
  have hb := copy_same b
  exact ⟨⟨held_copy h.left, held_copy h.right, ((copy_same a).trans h.same).trans hb.symm⟩,
    h.settled.of_same h.right hb⟩

theorem merge (hg : table.Generated) (h : a.Peers table type b) (hw : type.WellFormed) {r : Reader} (hv : r.Valid) :
    (a.merge table type r).message.Peers table type (b.merge table type r).message ∧
      (a.merge table type r).error = (b.merge table type r).error := by
  obtain ⟨hm, _, he⟩ := merge_twins hg hw h.toTwins r
  have hsound := merge_sound hg (Rule.lawful_any table) hw (fun _ _ _ _ => trivial) h.right hv (h.settled.sound r.room)
  exact ⟨⟨hm, hsound.settled⟩, he⟩

end Peers

end Message

end Protobuf
