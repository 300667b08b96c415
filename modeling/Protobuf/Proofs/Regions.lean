/-
  Protobuf.Proofs.Regions — what a field reads and writes.

  A message is made of cells: a slot for each field, a choice for each oneof, presence bits and the unknown
  bytes. `Agree S m n` says that two messages have the same cells in `S`. A change `Touches S` if it reads and
  writes only there: from messages that agree on `S` it gives such messages again, and it leaves all else as
  it was.

  The tag of a field belongs to a region: its slot and presence bit, the choice of its oneof, or the unknown
  bytes. Reading a field touches its region and nothing else, whether it succeeds or fails
  (`readOne_touches`), and different regions have no cell in common (`Region.disjoint`).
-/

import Protobuf.Proofs.Fields

namespace Protobuf

open Schema

/-- A part of a message that can change by itself. -/
inductive Cell where
  | slot (index : Nat)
  | choice (slot : Nat)
  | bit (bit : Nat)
  | unknown

/-- The cell that a sub-message is put in. -/
def Place.cell : Place → Cell
  | field index => .slot index
  | element index => .slot index
  | member slot _ => .choice slot
  | entry index => .slot index

namespace Message

/-- Whether two messages have the same in a cell. -/
def SameAt (m n : Message) : Cell → Prop
  | .slot index => m.body.slots[index]? = n.body.slots[index]?
  | .choice slot => m.body.choices[slot]? = n.body.choices[slot]?
  | .bit bit => m.body.presence.isSet bit = n.body.presence.isSet bit
  | .unknown => m.body.unknown = n.body.unknown

/-- Two messages of one size with the same cells in `S`. -/
structure Agree (S : Cell → Prop) (m n : Message) : Prop where
  cells : ∀ cell, S cell → m.SameAt n cell
  length_slots : m.body.slots.length = n.body.slots.length
  length_choices : m.body.choices.length = n.body.choices.length
  length_presence : m.body.presence.length = n.body.presence.length
  cachedSize : m.body.cachedSize = n.body.cachedSize

variable {S T : Cell → Prop} {m n p : Message} {index slot : Nat}

theorem agree_refl (S : Cell → Prop) (m : Message) : Agree S m m := by
  refine ⟨fun cell _ => ?_, rfl, rfl, rfl, rfl⟩
  cases cell <;> rfl

theorem SameAt.symm {cell : Cell} (h : m.SameAt n cell) : n.SameAt m cell := by
  cases cell <;> exact Eq.symm h

theorem SameAt.trans {cell : Cell} (h : m.SameAt n cell) (h' : n.SameAt p cell) : m.SameAt p cell := by
  cases cell <;> exact Eq.trans h h'

theorem Agree.symm (h : Agree S m n) : Agree S n m :=
  ⟨fun cell hc => (h.cells cell hc).symm, h.length_slots.symm, h.length_choices.symm, h.length_presence.symm,
    h.cachedSize.symm⟩

theorem Agree.trans (h : Agree S m n) (h' : Agree S n p) : Agree S m p :=
  ⟨fun cell hc => (h.cells cell hc).trans (h'.cells cell hc), h.length_slots.trans h'.length_slots,
    h.length_choices.trans h'.length_choices, h.length_presence.trans h'.length_presence, h.cachedSize.trans h'.cachedSize⟩

theorem Agree.mono (h : Agree T m n) (hST : ∀ cell, S cell → T cell) : Agree S m n :=
  { h with cells := fun cell hc => h.cells cell (hST cell hc) }

/-- Messages that agree on every cell are the same. -/
theorem Agree.eq (h : Agree S m n) (hS : ∀ cell, S cell) : m = n := by
  obtain ⟨slots, choices, presence, cachedSize, unknown⟩ := m
  obtain ⟨slots', choices', presence', cachedSize', unknown'⟩ := n
  obtain rfl : slots = slots' := List.ext_getElem? fun i => h.cells (.slot i) (hS _)
  obtain rfl : choices = choices' := List.ext_getElem? fun i => h.cells (.choice i) (hS _)
  obtain rfl : presence = presence' := PresenceBits.ext_isSet h.length_presence fun b => h.cells (.bit b) (hS _)
  obtain rfl : unknown = unknown' := h.cells .unknown (hS _)
  obtain rfl : cachedSize = cachedSize' := h.cachedSize
  rfl

theorem Agree.slotAt (h : Agree S m n) (hS : S (.slot index)) : m.slotAt index = n.slotAt index :=
  congrArg (·.getD .member) (h.cells (.slot index) hS)

theorem Agree.choiceAt (h : Agree S m n) (hS : S (.choice slot)) : m.choiceAt slot = n.choiceAt slot :=
  congrArg (·.getD {}) (h.cells (.choice slot) hS)

/-! ## Changes -/

/-- The change reads and writes only cells in `S`. -/
structure Touches (S : Cell → Prop) (f : Message → Message) : Prop where
  reads : ∀ {T : Cell → Prop} {m n : Message}, (∀ cell, S cell → T cell) → Agree T m n → Agree T (f m) (f n)
  writes : ∀ m, Agree (fun cell => ¬ S cell) (f m) m

theorem touches_id : Touches S fun m => m := ⟨fun _ h => h, agree_refl _⟩

theorem Touches.comp {f g : Message → Message} (hf : Touches S f) (hg : Touches S g) : Touches S fun m => g (f m) :=
  ⟨fun hT h => hg.reads hT (hf.reads hT h), fun m => (hg.writes _).trans (hf.writes m)⟩

theorem touches_setSlot (hS : S (.slot index)) (slot : Slot Message) : Touches S fun m => m.setSlot index slot where
  reads := by
    intro T m n _ h
    refine ⟨fun cell hc => ?_, ?_, h.length_choices, h.length_presence, h.cachedSize⟩
    · have hcell := h.cells cell hc
      cases cell with
      | slot i =>
        show (m.body.slots.set index slot)[i]? = (n.body.slots.set index slot)[i]?
        rw [List.getElem?_set, List.getElem?_set, h.length_slots]
        split
        · rfl
        · exact hcell
      | choice i => exact hcell
      | bit b => exact hcell
      | unknown => exact hcell
    · show (m.body.slots.set index slot).length = (n.body.slots.set index slot).length
      rw [List.length_set, List.length_set, h.length_slots]
  writes := by
    intro m
    refine ⟨fun cell hc => ?_, List.length_set .., rfl, rfl, rfl⟩
    cases cell with
    | slot i =>
      refine List.getElem?_set_ne ?_
      rintro rfl
      exact hc hS
    | choice i => rfl
    | bit b => rfl
    | unknown => rfl

theorem touches_setChoice (hS : S (.choice slot)) (choice : Choice Message) :
    Touches S fun m => m.setChoice slot choice where
  reads := by
    intro T m n _ h
    refine ⟨fun cell hc => ?_, h.length_slots, ?_, h.length_presence, h.cachedSize⟩
    · have hcell := h.cells cell hc
      cases cell with
      | choice i =>
        show (m.body.choices.set slot choice)[i]? = (n.body.choices.set slot choice)[i]?
        rw [List.getElem?_set, List.getElem?_set, h.length_choices]
        split
        · rfl
        · exact hcell
      | slot i => exact hcell
      | bit b => exact hcell
      | unknown => exact hcell
    · show (m.body.choices.set slot choice).length = (n.body.choices.set slot choice).length
      rw [List.length_set, List.length_set, h.length_choices]
  writes := by
    intro m
    refine ⟨fun cell hc => ?_, rfl, List.length_set .., rfl, rfl⟩
    cases cell with
    | choice i =>
      refine List.getElem?_set_ne ?_
      rintro rfl
      exact hc hS
    | slot i => rfl
    | bit b => rfl
    | unknown => rfl

theorem touches_mark {field : Field} (hS : ∀ bit, field.presenceBit = some bit → S (.bit bit)) :
    Touches S fun m => m.mark field := by
  unfold mark
  cases hbit : field.presenceBit with
  | none => exact touches_id
  | some bit =>
    refine ⟨fun {T m n} _ h => ⟨fun cell hc => ?_, h.length_slots, h.length_choices, ?_, h.cachedSize⟩,
      fun m => ⟨fun cell hc => ?_, rfl, rfl, PresenceBits.length_set .., rfl⟩⟩
    · have hcell := h.cells cell hc
      cases cell with
      | bit b =>
        show (m.body.presence.set bit).isSet b = (n.body.presence.set bit).isSet b
        rw [PresenceBits.isSet_set_eq, PresenceBits.isSet_set_eq, h.length_presence]
        exact congrArg (· || _) hcell
      | slot i => exact hcell
      | choice i => exact hcell
      | unknown => exact hcell
    · show (m.body.presence.set bit).length = (n.body.presence.set bit).length
      rw [PresenceBits.length_set, PresenceBits.length_set, h.length_presence]
    · cases cell with
      | bit b =>
        have hne : (b == bit) = false := by
          refine beq_false_of_ne ?_
          rintro rfl
          exact hc (hS b hbit)
        show (m.body.presence.set bit).isSet b = m.body.presence.isSet b
        rw [PresenceBits.isSet_set_eq, hne, Bool.false_and, Bool.or_false]
      | slot i => rfl
      | choice i => rfl
      | unknown => rfl

theorem touches_addUnknown (hS : S .unknown) (bytes : Bytes) : Touches S fun m => m.addUnknown bytes where
  reads := by
    intro T m n _ h
    refine ⟨fun cell hc => ?_, h.length_slots, h.length_choices, h.length_presence, h.cachedSize⟩
    have hcell := h.cells cell hc
    cases cell with
    | unknown => exact congrArg (· ++ bytes) hcell
    | slot i => exact hcell
    | choice i => exact hcell
    | bit b => exact hcell
  writes := by
    intro m
    refine ⟨fun cell hc => ?_, rfl, rfl, rfl, rfl⟩
    cases cell with
    | unknown => exact absurd hS hc
    | slot i => rfl
    | choice i => rfl
    | bit b => rfl

/-- A change that depends on a slot. -/
theorem touches_bySlot (hS : S (.slot index)) {g : Message → Message}
    (h : ∀ slot, ∃ f, Touches S f ∧ ∀ m, m.slotAt index = slot → g m = f m) : Touches S g where
  reads := by
    intro T m n hT hmn
    obtain ⟨f, hf, heq⟩ := h (n.slotAt index)
    rw [heq m (hmn.slotAt (hT _ hS)), heq n rfl]
    exact hf.reads hT hmn
  writes := by
    intro m
    obtain ⟨f, hf, heq⟩ := h (m.slotAt index)
    rw [heq m rfl]
    exact hf.writes m

/-- A change that depends on a choice. -/
theorem touches_byChoice (hS : S (.choice slot)) {f : Choice Message → Message → Message}
    (h : ∀ choice, Touches S (f choice)) : Touches S fun m => f (m.choiceAt slot) m := by
  refine ⟨fun {T m n} hT hmn => ?_, fun m => (h _).writes m⟩
  rw [hmn.choiceAt (hT _ hS)]
  exact (h _).reads hT hmn

theorem touches_setScalar {field : Field} (hS : S (.slot index))
    (hbit : ∀ bit, field.presenceBit = some bit → S (.bit bit)) (value : Scalar) :
    Touches S fun m => m.setScalar field index value :=
  (touches_setSlot hS _).comp (touches_mark hbit)

theorem touches_appendScalars (hS : S (.slot index)) (values : List Scalar) :
    Touches S fun m => m.appendScalars index values := by
  refine touches_bySlot hS fun slot => ?_
  cases slot with
  | scalars old =>
    refine ⟨_, touches_setSlot hS (.scalars (old ++ values)), fun m h => ?_⟩
    rw [appendScalars, h]
  | _ =>
    refine ⟨_, touches_id, fun m h => ?_⟩
    rw [appendScalars, h]

theorem touches_addText (hS : S (.slot index)) (kind : Kind) : Touches S fun m => m.addText index kind := by
  refine touches_bySlot hS fun slot => ?_
  cases slot with
  | texts values =>
    refine ⟨_, touches_setSlot hS (.texts (values.add (fun _ => .zero kind) (.zero kind))), fun m h => ?_⟩
    rw [addText, h]
  | _ =>
    refine ⟨_, touches_id, fun m h => ?_⟩
    rw [addText, h]

theorem touches_setLastText (hS : S (.slot index)) (value : Scalar) : Touches S fun m => m.setLastText index value := by
  refine touches_bySlot hS fun slot => ?_
  cases slot with
  | texts values =>
    refine ⟨_, touches_setSlot hS (.texts (values.setLast value)), fun m h => ?_⟩
    rw [setLastText, h]
  | _ =>
    refine ⟨_, touches_id, fun m h => ?_⟩
    rw [setLastText, h]

theorem touches_insertEntry (hS : S (.slot index)) (entry : Entry Message) :
    Touches S fun m => m.insertEntry index entry := by
  refine touches_bySlot hS fun slot => ?_
  cases slot with
  | map entries =>
    refine ⟨_, touches_setSlot hS (.map (Entry.insert entries entry)), fun m h => ?_⟩
    rw [insertEntry, h]
  | _ =>
    refine ⟨_, touches_id, fun m h => ?_⟩
    rw [insertEntry, h]

theorem touches_setMember (hS : S (.choice slot)) (value : Value Message) :
    Touches S fun m => m.setMember slot index value :=
  touches_byChoice hS (f := fun choice m => m.setChoice slot { choice with selected := some ⟨index, value⟩ })
    fun _ => touches_setChoice hS _

theorem touches_put (table : TypeTable) (type : MessageType) {place : Place} (hS : S place.cell) (child : Message) :
    Touches S fun m => m.put table type place child := by
  cases place with
  | field index => exact touches_setSlot hS _
  | element index =>
    refine touches_bySlot hS fun slot => ?_
    cases slot with
    | messages values =>
      refine ⟨_, touches_setSlot hS (.messages (values.setLast child)), fun m h => ?_⟩
      rw [put, h]
    | _ =>
      refine ⟨_, touches_id, fun m h => ?_⟩
      rw [put, h]
  | member slot index => exact touches_setMember hS _
  | entry index => exact touches_insertEntry hS _

theorem touches_putFailed (table : TypeTable) (type : MessageType) {place : Place} (hS : S place.cell) (child : Message) :
    Touches S fun m => m.putFailed table type place child := by
  cases place with
  | entry index => exact touches_id
  | field index => exact touches_put table type hS child
  | element index => exact touches_put table type hS child
  | member slot index => exact touches_put table type hS child

end Message

/-! ## Steps -/

namespace Step

open Message (Agree)

/-- Steps that end alike, with messages that agree. -/
inductive Agrees (S : Cell → Prop) : Step → Step → Prop
  | next {a b : Message} (r : Reader) : Agree S a b → Agrees S (.next a r) (.next b r)
  | stop {a b : Message} (r : Reader) (e : DecodeError) : Agree S a b → Agrees S (.stop a r e) (.stop b r e)
  | into {a b : Message} (place : Place) (type : MessageType) (child : Message) (inner outer : Reader) :
      Agree S a b → Agrees S (.into a place type child inner outer) (.into b place type child inner outer)

/-- The step changes the message only in `S`, and a sub-message goes there. -/
def Stays (S : Cell → Prop) (m : Message) : Step → Prop
  | next a _ => Agree (fun cell => ¬ S cell) a m
  | stop a _ _ => Agree (fun cell => ¬ S cell) a m
  | into a place _ _ _ _ => Agree (fun cell => ¬ S cell) a m ∧ S place.cell

/-- The step reads and writes only cells in `S`. -/
structure Touches (S : Cell → Prop) (f : Message → Step) : Prop where
  reads : ∀ {T : Cell → Prop} {m n : Message}, (∀ cell, S cell → T cell) → Agree T m n → Agrees T (f m) (f n)
  writes : ∀ m, (f m).Stays S m

variable {S : Cell → Prop} {r : Reader} {a : Message → Message}

theorem touches_next (r : Reader) : Touches S fun m => .next m r :=
  ⟨fun _ h => .next r h, Message.agree_refl _⟩

theorem touches_ofRead {α : Type} (read : Read α) {g : α → Message → Message} (ha : Message.Touches S a)
    (hg : ∀ v, Message.Touches S (g v)) : Touches S fun m => ofRead read r (a m) fun v => g v m := by
  cases hr : read r with
  | error e s =>
    simp only [ofRead, hr]
    exact ⟨fun hT h => .stop s e (ha.reads hT h), ha.writes⟩
  | ok v s =>
    simp only [ofRead, hr]
    exact ⟨fun hT h => .next s ((hg v).reads hT h), (hg v).writes⟩

theorem touches_ofRun (run : Reader.Run) {g : List Scalar → Message → Message} (hg : ∀ vs, Message.Touches S (g vs)) :
    Touches S fun m => ofRun run fun vs => g vs m := by
  cases hr : run.result with
  | error e s =>
    simp only [ofRun, hr]
    exact ⟨fun hT h => .stop s e ((hg _).reads hT h), (hg _).writes⟩
  | ok u s =>
    simp only [ofRun, hr]
    exact ⟨fun hT h => .next s ((hg _).reads hT h), (hg _).writes⟩

theorem touches_ofNested (counted : Bool) {place : Place} (type : MessageType) (child : Message)
    (ha : Message.Touches S a) (hS : S place.cell) :
    Touches S fun m => ofNested counted r (a m) place type child := by
  cases ho : Reader.openNested counted r with
  | error e s =>
    simp only [ofNested, ho]
    exact ⟨fun hT h => .stop s e (ha.reads hT h), ha.writes⟩
  | ok nested s =>
    simp only [ofNested, ho]
    exact ⟨fun hT h => .into _ _ _ _ _ (ha.reads hT h), fun m => ⟨ha.writes m, hS⟩⟩

theorem touches_bySlot {index : Nat} (hS : S (.slot index)) {g : Message → Step}
    (h : ∀ slot, ∃ f, Touches S f ∧ ∀ m, m.slotAt index = slot → g m = f m) : Touches S g where
  reads := by
    intro T m n hT hmn
    obtain ⟨f, hf, heq⟩ := h (n.slotAt index)
    rw [heq m (hmn.slotAt (hT _ hS)), heq n rfl]
    exact hf.reads hT hmn
  writes := by
    intro m
    obtain ⟨f, hf, heq⟩ := h (m.slotAt index)
    rw [heq m rfl]
    exact hf.writes m

theorem touches_byChoice {slot : Nat} (hS : S (.choice slot)) {f : Choice Message → Message → Step}
    (h : ∀ choice, Touches S (f choice)) : Touches S fun m => f (m.choiceAt slot) m := by
  refine ⟨fun {T m n} hT hmn => ?_, fun m => (h _).writes m⟩
  rw [hmn.choiceAt (hT _ hS)]
  exact (h _).reads hT hmn

end Step

/-! ## Regions -/

/-- Where the fields of a tag are kept. -/
inductive Region where
  | field (index : Nat)
  | oneof (slot : Nat)
  | unknown
  deriving DecidableEq

/-- The field that a tag leads to, or its oneof if it is a member; all unknown fields share one region. -/
def Schema.MessageType.region (type : MessageType) (tag : Tag) : Region :=
  match type.dispatch.find? fun entry => entry.tag == tag with
  | none => .unknown
  | some entry =>
    match (type.fields[entry.field]?.getD default).strategy with
    | .member slot _ => .oneof slot
    | _ => .field entry.field

/-- The cells of a region. -/
def Region.Covers (type : MessageType) : Region → Cell → Prop
  | field index, cell => cell = .slot index ∨
      ∃ f bit, type.fields[index]? = some f ∧ f.presenceBit = some bit ∧ cell = .bit bit
  | oneof slot, cell => cell = .choice slot
  | unknown, cell => cell = .unknown

/-- Different regions have no cell in common. -/
theorem Region.disjoint {type : MessageType} (hw : type.WellFormed) {a b : Region} (hne : a ≠ b) {cell : Cell}
    (ha : a.Covers type cell) : ¬ b.Covers type cell := by
  intro hb
  cases a with
  | unknown =>
    cases ha
    cases b with
    | unknown => exact hne rfl
    | oneof slot => cases hb
    | field index => rcases hb with hb | ⟨_, _, _, _, hb⟩ <;> cases hb
  | oneof slot =>
    cases ha
    cases b with
    | unknown => cases hb
    | oneof slot' =>
      cases hb
      exact hne rfl
    | field index => rcases hb with hb | ⟨_, _, _, _, hb⟩ <;> cases hb
  | field index =>
    rcases ha with rfl | ⟨f, bit, hf, hbit, rfl⟩
    · cases b with
      | unknown => cases hb
      | oneof slot => cases hb
      | field index' =>
        rcases hb with hb | ⟨_, _, _, _, hb⟩
        · cases hb
          exact hne rfl
        · cases hb
    · cases b with
      | unknown => cases hb
      | oneof slot => cases hb
      | field index' =>
        rcases hb with hb | ⟨g, bit', hg, hbit', hb⟩
        · cases hb
        · cases hb
          refine hne (congrArg Region.field ?_)
          exact hw.field_of_bit hf hg hbit hbit'

namespace Message

variable {table : TypeTable} {type : MessageType} {S : Cell → Prop} {index : Nat} {field : Field}

theorem readField_touches (table : TypeTable) (type : MessageType) (action : Action) (r : Reader)
    (hfield : (∀ slot value, field.strategy ≠ .member slot value) →
      S (.slot index) ∧ ∀ bit, field.presenceBit = some bit → S (.bit bit))
    (hmember : ∀ slot value, field.strategy = .member slot value → S (.choice slot)) :
    Step.Touches S fun m => m.readField table type field index action r := by
  unfold readField
  cases hs : field.strategy with
  | singular plain presence =>
    obtain ⟨hslot, hbit⟩ := hfield (by simp [hs])
    exact Step.touches_ofRead _ touches_id (touches_setScalar hslot hbit)
  | repeated plain | packed plain =>
    obtain ⟨hslot, _⟩ := hfield (by simp [hs])
    dsimp only
    split
    · exact Step.touches_ofRun _ (touches_appendScalars hslot)
    · exact Step.touches_ofRead _ touches_id fun v => touches_appendScalars hslot [v]
  | texts plain =>
    obtain ⟨hslot, _⟩ := hfield (by simp [hs])
    exact Step.touches_ofRead _ (touches_addText hslot _) fun v =>
      (touches_addText hslot _).comp (touches_setLastText hslot v)
  | message ref =>
    obtain ⟨hslot, _⟩ := hfield (by simp [hs])
    refine Step.touches_bySlot hslot fun slot => ?_
    cases slot with
    | message value =>
      let start := value.getOrInit (clear (table.childAt type index)) (new (table.childAt type index))
      have hplace : S (Place.field index).cell := hslot
      refine ⟨_, Step.touches_ofNested (r := r) true (table.childAt type index) start
        (touches_setSlot hslot (.message (.present start))) hplace, fun m h => ?_⟩
      rw [h]
    | _ =>
      refine ⟨_, Step.touches_next r, fun m h => ?_⟩
      rw [h]
  | messages ref =>
    obtain ⟨hslot, _⟩ := hfield (by simp [hs])
    refine Step.touches_bySlot hslot fun slot => ?_
    cases slot with
    | messages values =>
      let start := values.spare (clear (table.childAt type index)) (new (table.childAt type index))
      have hplace : S (Place.element index).cell := hslot
      refine ⟨_, Step.touches_ofNested (r := r) true (table.childAt type index) start
        (touches_setSlot hslot (.messages (values.push start))) hplace, fun m h => ?_⟩
      rw [h]
    | _ =>
      refine ⟨_, Step.touches_next r, fun m h => ?_⟩
      rw [h]
  | map key value =>
    obtain ⟨hslot, _⟩ := hfield (by simp [hs])
    exact Step.touches_ofNested _ _ _ touches_id hslot
  | member slot value =>
    have hslot := hmember slot value hs
    cases value with
    | plain plain => exact Step.touches_ofRead _ touches_id fun v => touches_setMember hslot (.scalar v)
    | message ref =>
      exact Step.touches_byChoice hslot (f := fun choice m =>
        .ofNested true r (m.setChoice slot (choice.select (clear _) (new _) index).2) (.member slot index)
          (table.childAt type index) (choice.select (clear _) (new _) index).1) fun choice =>
        Step.touches_ofNested _ _ _ (touches_setChoice hslot _) hslot

theorem readUnknown_touches (hS : S .unknown) (type : MessageType) (tag : Tag) (r : Reader) :
    Step.Touches S fun m => m.readUnknown type tag r := by
  unfold readUnknown
  split
  · exact Step.touches_ofRead _ touches_id (touches_addUnknown hS)
  · exact Step.touches_ofRead _ touches_id fun _ => touches_id

theorem step_touches (table : TypeTable) (type : MessageType) (tag : Tag) (r : Reader) :
    Step.Touches ((type.region tag).Covers type) fun m => m.step table type tag r := by
  unfold step MessageType.region
  cases hfind : type.dispatch.find? fun entry => entry.tag == tag with
  | none =>
    have hunknown : Region.unknown.Covers type .unknown := rfl
    exact readUnknown_touches hunknown type tag r
  | some entry =>
    obtain ⟨f, hf, _, _⟩ := field_of_find hfind
    dsimp only
    rw [hf, Option.getD_some]
    refine readField_touches table type entry.action r (fun hne => ?_) fun slot value hs => ?_
    · have hregion : (match f.strategy with
          | .member slot _ => Region.oneof slot
          | _ => Region.field entry.field) = .field entry.field := by
        split
        · rename_i slot value hs
          exact absurd hs (hne slot value)
        · rfl
      rw [hregion]
      exact ⟨.inl rfl, fun bit hbit => .inr ⟨f, bit, hf, hbit, rfl⟩⟩
    · rw [hs]
      rfl

/-! ## Fields -/

/-- Reading a field depends on its region, whatever else the message holds. -/
theorem readOne_agree (table : TypeTable) {T : Cell → Prop} {m n : Message} (tag : Tag) (r : Reader)
    (hT : ∀ cell, (type.region tag).Covers type cell → T cell) (h : Agree T m n) :
    Agree T (m.readOne table type tag r).message (n.readOne table type tag r).message ∧
      (m.readOne table type tag r).reader = (n.readOne table type tag r).reader ∧
      (m.readOne table type tag r).error = (n.readOne table type tag r).error := by
  have htouches := step_touches table type tag r
  have hreads := htouches.reads hT h
  have hwrites := htouches.writes m
  cases hs : m.step table type tag r with
  | next m' s =>
    rw [hs] at hreads
    generalize hn : n.step table type tag r = step at hreads
    cases hreads with
    | next _ h' =>
      rw [readOne_next hs, readOne_next hn]
      exact ⟨h', rfl, rfl⟩
  | stop m' s e =>
    rw [hs] at hreads
    generalize hn : n.step table type tag r = step at hreads
    cases hreads with
    | stop _ _ h' =>
      rw [readOne_stop hs, readOne_stop hn]
      exact ⟨h', rfl, rfl⟩
  | into m' place childType child inner outer =>
    rw [hs] at hreads hwrites
    generalize hn : n.step table type tag r = step at hreads
    cases hreads with
    | into _ _ _ _ _ h' =>
      have hcell := hT _ hwrites.2
      cases he : (child.merge table childType inner).error with
      | none =>
        rw [readOne_into hs he, readOne_into hn he]
        exact ⟨(touches_put table type hcell _).reads (fun _ => id) h', rfl, rfl⟩
      | some e =>
        rw [readOne_into_failed hs he, readOne_into_failed hn he]
        exact ⟨(touches_putFailed table type hcell _).reads (fun _ => id) h', rfl, rfl⟩

/-- Reading a field, also if it fails, leaves all but its region as it was. -/
theorem readOne_keeps (table : TypeTable) (type : MessageType) (m : Message) (tag : Tag) (r : Reader) :
    Agree (fun cell => ¬ (type.region tag).Covers type cell) (m.readOne table type tag r).message m := by
  have hwrites := (step_touches table type tag r).writes m
  cases hs : m.step table type tag r with
  | next m' s =>
    rw [hs] at hwrites
    rw [readOne_next hs]
    exact hwrites
  | stop m' s e =>
    rw [hs] at hwrites
    rw [readOne_stop hs]
    exact hwrites
  | into m' place childType child inner outer =>
    rw [hs] at hwrites
    obtain ⟨hkeeps, hcell⟩ := hwrites
    cases he : (child.merge table childType inner).error with
    | none =>
      rw [readOne_into hs he]
      exact ((touches_put table type hcell _).writes m').trans hkeeps
    | some e =>
      rw [readOne_into_failed hs he]
      exact ((touches_putFailed table type hcell _).writes m').trans hkeeps

end Message

end Protobuf
