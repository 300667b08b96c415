/-
  Protobuf.Proofs.Operation — what is kept aside never shows.

  `Operation` lists all that can be done with a message: reading, setting and clearing fields, changing
  the containers it holds, resetting it, merging into it, writing it, and any of these inside one of its
  sub-messages. `Reached` says which messages there are: new ones, those that operations leave behind, and
  those inside them. Messages that are handed in, or put in place of others, are reached ones too.

  An operation on peers gives the same result and leaves peers (`apply_peers`), hence so does a run of them
  (`run_peers`). Reached messages that show the same are peers, so nothing that such a message keeps aside,
  and no size it remembers, can be told by any run of operations (`aside_unseen`).
-/

import Protobuf.Proofs.Accessors

namespace Protobuf

open Schema

/-! ## Operations -/

/-- The field at a position. -/
def Schema.MessageType.fieldAt (type : MessageType) (index : Nat) : Field := type.fields[index]?.getD default

/-- The strategy of the field at a position. -/
def Schema.MessageType.strategyAt (type : MessageType) (index : Nat) : Option Strategy :=
  type.fields[index]?.map Field.strategy

theorem Schema.MessageType.fieldAt_of_strategyAt {type : MessageType} {index : Nat} {strategy : Strategy}
    (h : type.strategyAt index = some strategy) :
    type.fields[index]? = some (type.fieldAt index) ∧ (type.fieldAt index).strategy = strategy := by
  obtain ⟨field, hf, hs⟩ := Option.map_eq_some_iff.mp h
  rw [fieldAt, hf]
  exact ⟨rfl, hs⟩

/-- Where in a message an operation goes on. -/
inductive Inner where
  /-- The message of a field or member, which is set if it is not, or one more element. -/
  | start (index : Nat)
  | element (index position : Nat)
  | entry (index : Nat) (key : Scalar)

def Inner.index : Inner → Nat
  | start index | element index _ | entry index _ => index

inductive Operation where
  /-- All that the getters of a field return. -/
  | read (index : Nat)
  | set (index : Nat) (value : Value Message)
  /-- Appends to a text or byte string. -/
  | extend (index : Nat) (more : Scalar)
  | clearField (index : Nat)
  | add (index : Nat) (value : Value Message)
  | pop (index : Nat)
  | truncate (index size : Nat)
  /-- Leaves the elements at these positions, in this order. -/
  | arrange (index : Nat) (order : List Nat)
  | replace (index position : Nat) (value : Value Message)
  /-- Takes the message out of a field. -/
  | take (index : Nat)
  | insert (index : Nat) (key : Scalar) (value : Value Message)
  | remove (index : Nat) (key : Scalar)
  /-- Puts another container in place of the one of a field. -/
  | assign (index : Nat) (slot : Slot Message)
  | clearChoice (slot : Nat)
  | takeChoice (slot : Nat)
  | clear
  | merge (maxDepth : Nat) (bytes : Bytes)
  | encode
  | size
  | isComplete
  | hash
  /-- Goes on with a copy. -/
  | copy
  | inside (place : Inner) (operation : Operation)

inductive Result where
  | nothing
  | field (isSet : Bool) (value : Option (Value Message)) (elements : List (Value Message)) (entries : List (Entry Message))
  | value (value : Option (Value Message))
  | member (member : Option (Member Message))
  | error (error : Option DecodeError)
  | encoding (bytes : Bytes)
  | number (n : Nat)
  | flag (b : Bool)
  | hashed (stream : Bytes)

namespace Message

variable (table : TypeTable) (type : MessageType)

/-- A sub-message to work on, if there is one, and what becomes of the message with another in its place. -/
def enter (m : Message) : Inner → Option (Message × (Message → Message))
  | .start index =>
    let (m, place, child) := m.start table type (type.fieldAt index) index
    some (child, m.put table type place)
  | .element index position =>
    match m.slotAt index with
    | .messages values =>
      values.active[position]?.map fun child =>
        (child, fun child => m.setSlot index ((m.slotAt index).replace position (.message child)))
    | _ => none
  | .entry index key =>
    match m.lookup index key with
    | some (.message child) => some (child, fun child => m.insertEntry index ⟨key, .message child⟩)
    | _ => none

/-- What an operation leaves, and what it returns. -/
def apply (type : MessageType) (m : Message) : Operation → Message × Result
  | .read index =>
    let field := type.fieldAt index
    (m, .field (m.has field index) (m.value? field index) (m.elements index) (m.entries index))
  | .set index value => (m.set (type.fieldAt index) index value, .nothing)
  | .extend index more => (m.extend (type.fieldAt index) index more, .nothing)
  | .clearField index => (m.clearField (type.fieldAt index) index, .nothing)
  | .add index (.scalar value) => (m.add index value, .nothing)
  | .add index (.message value) => (m.setSlot index ((m.slotAt index).push value), .nothing)
  | .pop index => ((m.pop index).2, .value (m.pop index).1)
  | .truncate index size => (m.setSlot index ((m.slotAt index).truncate size), .nothing)
  | .arrange index order => (m.setSlot index ((m.slotAt index).arrange order), .nothing)
  | .replace index position value => (m.setSlot index ((m.slotAt index).replace position value), .nothing)
  | .take index => (m.setSlot index (m.slotAt index).take.2, .value ((m.slotAt index).take.1.map .message))
  | .insert index key value => (m.insertEntry index ⟨key, value⟩, .value (m.lookup index key))
  | .remove index key => (m.removeEntry index key, .value (m.lookup index key))
  | .assign index slot => (m.setSlot index slot, .nothing)
  | .clearChoice slot => (m.clearChoice slot, .nothing)
  | .takeChoice slot => (m.takeChoice slot, .member (m.choiceAt slot).selected)
  | .clear => (m.clear type, .nothing)
  | .merge maxDepth bytes =>
    let (m, error) := m.mergeWithin table type maxDepth bytes
    (m, .error error)
  | .encode => (m.measure table type, .encoding (m.encode table type))
  | .size => (m.measure table type, .number (m.size table type))
  | .isComplete => (m, .flag (m.isComplete table type))
  | .hash => (m, .hashed (m.hashBytes table type))
  | .copy => (m.copy, .nothing)
  | .inside place operation =>
    match m.enter table type place with
    | some (child, back) =>
      let (child, result) := child.apply (table.childAt type place.index) operation
      (back child, result)
    | none => (m, .nothing)

/-- The message that an operation works on, with its type: for one inside, what it works on there. -/
def subject (type : MessageType) (m : Message) : Operation → MessageType × Message
  | .inside place operation =>
    match m.enter table type place with
    | some (child, _) => child.subject (table.childAt type place.index) operation
    | none => (type, m)
  | _ => (type, m)

/-- One operation after the other, with all results. -/
def run (m : Message) : List Operation → Message × List Result
  | [] => (m, [])
  | operation :: rest =>
    let (m, result) := m.apply table type operation
    let (m, results) := m.run rest
    (m, result :: results)

end Message

/-! ## The same operation -/

/-- The places in a message of this type that can hold a sub-message. -/
inductive Inner.Suits (type : MessageType) : Inner → Prop
  | start {index : Nat} {strategy : Strategy} {ref : TypeRef} : type.strategyAt index = some strategy →
      strategy.valueType? = some (.message ref) ∨ strategy.elementType? = some (.message ref) → Suits type (.start index)
  | element {index : Nat} {ref : TypeRef} (position : Nat) : type.strategyAt index = some (.messages ref) →
      Suits type (.element index position)
  | entry {index : Nat} {key : ScalarType} {ref : TypeRef} (found : Scalar) :
      type.strategyAt index = some (.map key (.message ref)) → Suits type (.entry index found)

/-- One operation on messages of this type, where the messages handed in may differ as `R` allows and
    containers that are handed in keep others aside. -/
inductive Operation.Rel (table : TypeTable) (R : MessageType → Message → Message → Prop)
    (kept : MessageType → Message → Prop) : MessageType → Operation → Operation → Prop
  | read (type : MessageType) (index : Nat) : Rel table R kept type (.read index) (.read index)
  | set {type : MessageType} {index : Nat} {strategy : Strategy} {valueType : ValueType} {v w : Value Message} :
      type.strategyAt index = some strategy → strategy.valueType? = some valueType → w.suits valueType = true →
      v.Rel (R (table.childAt type index)) w → Rel table R kept type (.set index v) (.set index w)
  | extend {type : MessageType} {index : Nat} {plain : PlainType} {presence : Presence} (more : Scalar) :
      type.strategyAt index = some (.singular plain presence) → Rel table R kept type (.extend index more) (.extend index more)
  | clearField {type : MessageType} {index : Nat} {strategy : Strategy} :
      type.strategyAt index = some strategy → Rel table R kept type (.clearField index) (.clearField index)
  | add {type : MessageType} {index : Nat} {strategy : Strategy} {valueType : ValueType} {v w : Value Message} :
      type.strategyAt index = some strategy → strategy.elementType? = some valueType → w.suits valueType = true →
      v.Rel (R (table.childAt type index)) w → Rel table R kept type (.add index v) (.add index w)
  | pop {type : MessageType} {index : Nat} {strategy : Strategy} {valueType : ValueType} :
      type.strategyAt index = some strategy → strategy.elementType? = some valueType →
      Rel table R kept type (.pop index) (.pop index)
  | truncate {type : MessageType} {index : Nat} {strategy : Strategy} {valueType : ValueType} (size : Nat) :
      type.strategyAt index = some strategy → strategy.elementType? = some valueType →
      Rel table R kept type (.truncate index size) (.truncate index size)
  | arrange {type : MessageType} {index : Nat} {strategy : Strategy} {valueType : ValueType} (order : List Nat) :
      type.strategyAt index = some strategy → strategy.elementType? = some valueType →
      Rel table R kept type (.arrange index order) (.arrange index order)
  | replace {type : MessageType} {index : Nat} {strategy : Strategy} {valueType : ValueType} (position : Nat)
      {v w : Value Message} : type.strategyAt index = some strategy → strategy.elementType? = some valueType →
      w.suits valueType = true → v.Rel (R (table.childAt type index)) w →
      Rel table R kept type (.replace index position v) (.replace index position w)
  | take {type : MessageType} {index : Nat} {ref : TypeRef} : type.strategyAt index = some (.message ref) →
      Rel table R kept type (.take index) (.take index)
  | insert {type : MessageType} {index : Nat} {keyType : ScalarType} {valueType : ValueType} {key : Scalar}
      {v w : Value Message} : type.strategyAt index = some (.map keyType valueType) →
      (Entry.mk key w).suits keyType valueType = true → v.Rel (R (table.childAt type index)) w →
      Rel table R kept type (.insert index key v) (.insert index key w)
  | remove {type : MessageType} {index : Nat} {keyType : ScalarType} {valueType : ValueType} (key : Scalar) :
      type.strategyAt index = some (.map keyType valueType) → Rel table R kept type (.remove index key) (.remove index key)
  | assign {type : MessageType} {index : Nat} {strategy : Strategy} {s t : Slot Message} :
      type.strategyAt index = some strategy → (∀ plain presence, strategy ≠ .singular plain presence) →
      Slot.Form strategy t → s.Rel (R (table.childAt type index)) t →
      (∀ x ∈ s.aside ++ t.aside, kept (table.childAt type index) x) → Rel table R kept type (.assign index s) (.assign index t)
  | clearChoice {type : MessageType} {slot : Nat} : slot < type.oneofs.length →
      Rel table R kept type (.clearChoice slot) (.clearChoice slot)
  | takeChoice {type : MessageType} {slot : Nat} : slot < type.oneofs.length →
      Rel table R kept type (.takeChoice slot) (.takeChoice slot)
  | clear (type : MessageType) : Rel table R kept type .clear .clear
  | merge (type : MessageType) (maxDepth : Nat) (bytes : Bytes) :
      Rel table R kept type (.merge maxDepth bytes) (.merge maxDepth bytes)
  | encode (type : MessageType) : Rel table R kept type .encode .encode
  | size (type : MessageType) : Rel table R kept type .size .size
  | isComplete (type : MessageType) : Rel table R kept type .isComplete .isComplete
  | hash (type : MessageType) : Rel table R kept type .hash .hash
  | copy (type : MessageType) : Rel table R kept type .copy .copy
  | inside {type : MessageType} {place : Inner} {operation operation' : Operation} : place.Suits type →
      Rel table R kept (table.childAt type place.index) operation operation' →
      Rel table R kept type (.inside place operation) (.inside place operation')

/-- Results that cannot be told apart: their messages have the same content, and two encodings are ways to
    write the message worked on, with the entries of maps in other orders. -/
inductive Result.Rel (table : TypeTable) (subject : MessageType × Message) : Result → Result → Prop
  | nothing : Rel table subject .nothing .nothing
  | field (isSet : Bool) {v w : Option (Value Message)} {vs ws : List (Value Message)} {es fs : List (Entry Message)} :
      Option.Rel (Value.Rel Message.Same) v w → List.Forall₂ (Value.Rel Message.Same) vs ws →
      Entry.Rel Message.Same es fs → Rel table subject (.field isSet v vs es) (.field isSet w ws fs)
  | value {v w : Option (Value Message)} : Option.Rel (Value.Rel Message.Same) v w → Rel table subject (.value v) (.value w)
  | member {m n : Option (Member Message)} : Option.Rel (Member.Rel Message.Same) m n →
      Rel table subject (.member m) (.member n)
  | error (e : Option DecodeError) : Rel table subject (.error e) (.error e)
  | encoding {x y : Bytes} : subject.2.WrittenAs table subject.1 x → subject.2.WrittenAs table subject.1 y →
      Rel table subject (.encoding x) (.encoding y)
  | number (n : Nat) : Rel table subject (.number n) (.number n)
  | flag (b : Bool) : Rel table subject (.flag b) (.flag b)
  | hashed (stream : Bytes) : Rel table subject (.hashed stream) (.hashed stream)

/-- The results of two runs, of which the second is of these operations on this message, cannot be told apart. -/
inductive Message.ResultsRel (table : TypeTable) (type : MessageType) :
    Message → List Operation → List Result → List Result → Prop
  | nil (m : Message) : ResultsRel table type m [] [] []
  | cons {m : Message} {operation : Operation} {operations : List Operation} {result result' : Result}
      {results results' : List Result} : result.Rel table (m.subject table type operation) result' →
      ResultsRel table type (m.apply table type operation).1 operations results results' →
      ResultsRel table type m (operation :: operations) (result :: results) (result' :: results')

/-! ## Peers -/

theorem Operation.Rel.imp {table : TypeTable} {R S : MessageType → Message → Message → Prop}
    {kept stored : MessageType → Message → Prop} (hRS : ∀ childType x y, R childType x y → S childType x y)
    (hkept : ∀ childType x, kept childType x → stored childType x) {type : MessageType} {operation operation' : Operation}
    (h : operation.Rel table R kept type operation') : operation.Rel table S stored type operation' := by
  induction h with
  | read type index => exact .read type index
  | set hat hv hsuits hvw => exact .set hat hv hsuits (hvw.imp (hRS _))
  | extend more hat => exact .extend more hat
  | clearField hat => exact .clearField hat
  | add hat he hsuits hvw => exact .add hat he hsuits (hvw.imp (hRS _))
  | pop hat he => exact .pop hat he
  | truncate size hat he => exact .truncate size hat he
  | arrange order hat he => exact .arrange order hat he
  | replace position hat he hsuits hvw => exact .replace position hat he hsuits (hvw.imp (hRS _))
  | take hat => exact .take hat
  | insert hat hsuits hvw => exact .insert hat hsuits (hvw.imp (hRS _))
  | remove key hat => exact .remove key hat
  | assign hat hne hform hrel haside =>
    exact .assign hat hne hform (hrel.imp fun x _ y _ => hRS _ x y) fun x hx => hkept _ x (haside x hx)
  | clearChoice hlt => exact .clearChoice hlt
  | takeChoice hlt => exact .takeChoice hlt
  | clear type => exact .clear type
  | merge type maxDepth bytes => exact .merge type maxDepth bytes
  | encode type => exact .encode type
  | size type => exact .size type
  | isComplete type => exact .isComplete type
  | hash type => exact .hash type
  | copy type => exact .copy type
  | inside hplace _ ih => exact .inside hplace ih

namespace Message

variable {table : TypeTable} {type : MessageType} {a b m : Message}

/-- Peers have peers inside, and with peers put in their places they are peers again. -/
theorem Peers.enter (hg : table.Generated) (h : a.Peers table type b) (hw : type.WellFormed) {place : Inner}
    (hplace : place.Suits type) :
    Option.Rel (fun p q => p.1.Peers table (table.childAt type place.index) q.1 ∧
      ∀ x y, x.Peers table (table.childAt type place.index) y → (p.2 x).Peers table type (q.2 y))
      (a.enter table type place) (b.enter table type place) := by
  cases hplace with
  | @start index strategy ref hat href =>
    obtain ⟨hf, rfl⟩ := MessageType.fieldAt_of_strategyAt hat
    obtain ⟨a', b', here, x, y, ha, hb, hab, hsuits, hxy⟩ := h.start hg hw hf href
    simp only [Message.enter, ha, hb]
    exact .some ⟨hxy, fun _ _ => hab.put hg hw hsuits⟩
  | @element index ref position hat =>
    obtain ⟨hf, hs⟩ := MessageType.fieldAt_of_strategyAt hat
    have hset := fun s t => h.setSlot (s := s) (t := t) hw hf (by rw [hs]; nofun)
    have hslot := h.slotAt hf
    rw [hs] at hslot hset
    have hreplace : ∀ x y : Message, x.Peers table (table.childAt type index) y →
        (a.setSlot index ((a.slotAt index).replace position (.message x))).Peers table type
          (b.setSlot index ((b.slotAt index).replace position (.message y))) :=
      fun x y hxy => hset _ _ (hslot.replace rfl position rfl (.message hxy))
    simp only [Message.enter]
    generalize a.slotAt index = s at *
    generalize b.slotAt index = t at *
    obtain ⟨form, rel, _, _⟩ := hslot
    cases form with
    | messages =>
      cases rel with
      | messages hactive => exact rel_map (rel_getElem? hactive position) fun _ _ hxy => ⟨hxy, hreplace⟩
  | @entry index key ref found hat =>
    obtain ⟨hf, hs⟩ := MessageType.fieldAt_of_strategyAt hat
    have hlookup := h.lookup hf hs found
    have hinsert : ∀ value, b.lookup index found = some value → ∀ x y : Message,
        x.Peers table (table.childAt type index) y →
          (a.insertEntry index ⟨found, .message x⟩).Peers table type (b.insertEntry index ⟨found, .message y⟩) :=
      fun value hvalue x y hxy => h.insertEntry hw hf hs rfl (.message hxy) (h.key_suits hf hs hvalue rfl)
    simp only [Message.enter]
    generalize a.lookup index found = v at *
    generalize b.lookup index found = w at *
    cases hlookup with
    | none => exact .none
    | some hvw =>
      cases hvw with
      | scalar value => exact .none
      | message hxy => exact .some ⟨hxy, hinsert _ rfl⟩

/-- An operation gives the same result on peers, and leaves peers. -/
theorem apply_peers (hg : table.Generated) {operation operation' : Operation}
    (h : operation.Rel table (Message.Peers table) (Held table) type operation') (hw : type.WellFormed)
    (hab : a.Peers table type b) : (a.apply table type operation).1.Peers table type (b.apply table type operation').1 ∧
      (a.apply table type operation).2.Rel table (b.subject table type operation') (b.apply table type operation').2 := by
  induction h generalizing a b with
  | read type index =>
    refine ⟨hab, ?_⟩
    simp only [Message.apply, hab.same.has_eq]
    exact .field _ (hab.same.value? _ index) (hab.same.elements index) (hab.same.entries index)
  | set hat hv hsuits hvw =>
    obtain ⟨hf, rfl⟩ := MessageType.fieldAt_of_strategyAt hat
    exact ⟨hab.set hw hf hv hsuits hvw, .nothing⟩
  | extend more hat =>
    obtain ⟨hf, hs⟩ := MessageType.fieldAt_of_strategyAt hat
    exact ⟨hab.extend hw hf hs more, .nothing⟩
  | clearField hat => exact ⟨hab.clearField hw (MessageType.fieldAt_of_strategyAt hat).1, .nothing⟩
  | @add type index strategy valueType v w hat he hsuits hvw =>
    obtain ⟨hf, rfl⟩ := MessageType.fieldAt_of_strategyAt hat
    cases hvw with
    | message hxy =>
      exact ⟨hab.setSlot hw hf (Strategy.ne_singular_of_elementType he) ((hab.slotAt hf).push hxy), .nothing⟩
    | scalar value =>
      cases valueType with
      | plain plain => exact ⟨hab.add hw hf he (eq_of_beq hsuits), .nothing⟩
      | message ref => cases hsuits
  | pop hat he =>
    obtain ⟨hf, rfl⟩ := MessageType.fieldAt_of_strategyAt hat
    obtain ⟨hleft, hlast⟩ := hab.pop hw hf he
    exact ⟨hleft, .value (rel_imp hlast fun _ _ hvw => hvw.imp fun _ _ hxy => hxy.same)⟩
  | truncate size hat he =>
    obtain ⟨hf, rfl⟩ := MessageType.fieldAt_of_strategyAt hat
    exact ⟨hab.setSlot hw hf (Strategy.ne_singular_of_elementType he) ((hab.slotAt hf).truncate size), .nothing⟩
  | arrange order hat he =>
    obtain ⟨hf, rfl⟩ := MessageType.fieldAt_of_strategyAt hat
    exact ⟨hab.setSlot hw hf (Strategy.ne_singular_of_elementType he) ((hab.slotAt hf).arrange order), .nothing⟩
  | replace position hat he hsuits hvw =>
    obtain ⟨hf, rfl⟩ := MessageType.fieldAt_of_strategyAt hat
    have hreplace := (hab.slotAt hf).replace he position hsuits hvw
    exact ⟨hab.setSlot hw hf (Strategy.ne_singular_of_elementType he) hreplace, .nothing⟩
  | take hat =>
    obtain ⟨hf, hs⟩ := MessageType.fieldAt_of_strategyAt hat
    obtain ⟨hrest, htaken⟩ := (hab.slotAt hf).take
    exact ⟨hab.setSlot hw hf (by rw [hs]; nofun) hrest, .value (rel_map htaken fun _ _ hxy => .message hxy.same)⟩
  | insert hat hsuits hvw =>
    obtain ⟨hf, hs⟩ := MessageType.fieldAt_of_strategyAt hat
    exact ⟨hab.insertEntry hw hf hs rfl hvw hsuits, .value ((hab.same.entries _).values _)⟩
  | remove key hat =>
    obtain ⟨hf, hs⟩ := MessageType.fieldAt_of_strategyAt hat
    exact ⟨hab.removeEntry hw hf hs key, .value ((hab.same.entries _).values key)⟩
  | assign hat hne hform hrel haside =>
    obtain ⟨hf, rfl⟩ := MessageType.fieldAt_of_strategyAt hat
    refine ⟨hab.setSlot hw hf hne ⟨hform, hrel, fun x hx => ?_, fun x hx => ?_⟩, .nothing⟩
    · exact haside x (List.mem_append_left _ hx)
    · exact haside x (List.mem_append_right _ hx)
  | clearChoice hlt => exact ⟨hab.clearChoice hlt, .nothing⟩
  | @takeChoice type slot hlt => exact ⟨hab.takeChoice hlt, .member (hab.same.choiceAt slot)⟩
  | clear type => exact ⟨hab.clear hw, .nothing⟩
  | merge type maxDepth bytes =>
    obtain ⟨hleft, herror⟩ := hab.merge hg hw (Reader.valid_ofBytesWithin bytes maxDepth).1
    refine ⟨hleft, ?_⟩
    simp only [Message.apply, mergeWithin, herror]
    exact .error _
  | encode type =>
    exact ⟨hab.measure, .encoding (hab.same.writtenAs (writtenAs_encode table type _)) (writtenAs_encode table type _)⟩
  | size type =>
    refine ⟨hab.measure, ?_⟩
    simp only [Message.apply, hab.same.size_eq hab.right]
    exact .number _
  | isComplete type =>
    refine ⟨hab, ?_⟩
    simp only [Message.apply, hab.same.isComplete_eq hab.right]
    exact .flag _
  | hash type =>
    refine ⟨hab, ?_⟩
    simp only [Message.apply, hab.same.hashBytes_eq hab.right]
    exact .hashed _
  | copy type => exact ⟨hab.copy, .nothing⟩
  | @inside type place operation operation' hplace _ ih =>
    have henter := hab.enter hg hw hplace
    simp only [Message.apply, Message.subject]
    generalize a.enter table type place = p at henter
    generalize b.enter table type place = q at henter
    cases henter with
    | none => exact ⟨hab, .nothing⟩
    | some henter =>
      obtain ⟨hxy, hback⟩ := henter
      obtain ⟨hleft, hresult⟩ := ih (hg.childAt type place.index) hxy
      exact ⟨hback _ _ hleft, hresult⟩

theorem run_peers (hg : table.Generated) (hw : type.WellFormed) {operations operations' : List Operation}
    (h : List.Forall₂ (Operation.Rel table (Message.Peers table) (Held table) type) operations operations')
    (hab : a.Peers table type b) : (a.run table type operations).1.Peers table type (b.run table type operations').1 ∧
      ResultsRel table type b operations' (a.run table type operations).2 (b.run table type operations').2 := by
  induction h generalizing a b with
  | nil => exact ⟨hab, .nil b⟩
  | cons hop _ ih =>
    obtain ⟨hleft, hresult⟩ := apply_peers hg hop hw hab
    obtain ⟨hend, hresults⟩ := ih hleft
    exact ⟨hend, .cons hresult hresults⟩

end Message

/-! ## Reached messages -/

/-- The messages there are. A program has those that are not `idle`: new ones, what operations leave of them
    and what is inside. Idle ones were dropped or are kept aside, and containers that are handed in hold such. -/
inductive Message.Arises (table : TypeTable) : (idle : Bool) → MessageType → Message → Prop
  | new {type : MessageType} : type ∈ table.messages → Arises table false type (new type)
  | apply {type : MessageType} {m : Message} {operation : Operation} {given kept : MessageType → Message → Prop} :
      Arises table false type m → (∀ childType x, given childType x → Arises table false childType x) →
      (∀ childType x, kept childType x → Arises table true childType x) →
      operation.Rel table (fun childType x y => x = y ∧ given childType x) kept type operation →
      Arises table false type (m.apply table type operation).1
  | inside {idle : Bool} {type : MessageType} {m : Message} {part : Nat × Message} : Arises table idle type m →
      part ∈ m.body.inUse → Arises table idle (table.childAt type part.1) part.2
  | aside {idle : Bool} {type : MessageType} {m : Message} {part : Nat × Message} : Arises table idle type m →
      part ∈ m.body.aside → Arises table true (table.childAt type part.1) part.2
  | dropped {type : MessageType} {m : Message} : Arises table false type m → Arises table true type m

namespace Message

/-- The messages that a program can have. -/
def Reached (table : TypeTable) (type : MessageType) (m : Message) : Prop := Arises table false type m

variable {table : TypeTable} {type : MessageType} {a b m : Message}

/-- What an operation leaves that no messages are handed to. -/
theorem Reached.apply (hm : Reached table type m) {operation : Operation}
    (h : operation.Rel table (fun _ _ _ => False) (fun _ _ => False) type operation) :
    Reached table type (m.apply table type operation).1 :=
  Arises.apply hm (fun _ _ (hx : False) => hx.elim) (fun _ _ (hx : False) => hx.elim)
    (h.imp (fun _ _ _ => False.elim) fun _ _ => id)

/-- Idle messages keep their form; they may hold values that they no longer show. -/
theorem Arises.held (hg : table.Generated) {idle : Bool} (h : Arises table idle type m) :
    type.WellFormed ∧ Held table type m ∧ (idle = false → Settled table type m) := by
  induction h with
  | new htype =>
    have hw := hg.wellFormed htype
    exact ⟨hw, held_new table hw, fun _ => settled_new table hw⟩
  | @apply type m operation given kept _ _ _ hop ih ihGiven ihKept =>
    obtain ⟨hw, hm, hs⟩ := ih
    have hgiven : ∀ childType (x y : Message), x = y ∧ given childType x → x.Peers table childType y := by
      rintro childType x _ ⟨rfl, hx⟩
      obtain ⟨_, hx, hs⟩ := ihGiven childType x hx
      exact hx.peers (hs rfl)
    have hop := hop.imp hgiven fun childType x hx => (ihKept childType x hx).2.1
    have hleft := (apply_peers hg hop hw (hm.peers (hs rfl))).1
    exact ⟨hw, hleft.right, fun _ => hleft.settled⟩
  | @inside idle type m part _ hp ih =>
    obtain ⟨_, hm, hs⟩ := ih
    refine ⟨hg.childAt type part.1, ?_, fun hidle => ?_⟩
    · cases hm with
      | mk _ inUse _ => exact inUse part hp
    · cases hs hidle with
      | mk _ parts => exact parts part hp
  | @aside idle type m part _ hp ih =>
    obtain ⟨_, hm, _⟩ := ih
    refine ⟨hg.childAt type part.1, ?_, nofun⟩
    cases hm with
    | mk _ _ aside => exact aside part hp
  | dropped _ ih => exact ⟨ih.1, ih.2.1, nofun⟩

theorem Peers.alike (h : a.Peers table type b) : a.Alike table type b := by
  have ha := visible_same h.left (h.settled.of_same h.right h.same)
  exact (ha.trans h.same).trans (visible_same h.right h.settled).symm

theorem Alike.peers (hg : table.Generated) (h : a.Alike table type b) (ha : Reached table type a)
    (hb : Reached table type b) : a.Peers table type b := by
  obtain ⟨_, hma, hsa⟩ := Arises.held hg ha
  obtain ⟨_, hmb, hsb⟩ := Arises.held hg hb
  exact ⟨⟨hma, hmb, ((visible_same hma (hsa rfl)).symm.trans h).trans (visible_same hmb (hsb rfl))⟩, hsb rfl⟩

/-- What is kept aside never shows. A reset message shows what a new one does; messages that show the same
    give the same results, and go on to show the same, in every run of operations on them; and so reading into
    a reset message is reading into a new one. -/
theorem aside_unseen (hg : table.Generated) (type : MessageType) :
    (∀ m, Reached table type m → (m.clear type).Alike table type (new type)) ∧
    (∀ a b operations operations', Reached table type a → Reached table type b → a.Alike table type b →
      List.Forall₂ (Operation.Rel table (fun childType x y => Reached table childType x ∧ Reached table childType y ∧
        x.Alike table childType y) (Arises table true) type) operations operations' →
      ResultsRel table type b operations' (a.run table type operations).2 (b.run table type operations').2 ∧
        (a.run table type operations).1.Alike table type (b.run table type operations').1) ∧
    ∀ m bytes, Reached table type m →
      ((m.clear type).mergeBytes table type bytes).2 = ((new type).mergeBytes table type bytes).2 ∧
        ((m.clear type).mergeBytes table type bytes).1.Alike table type ((new type).mergeBytes table type bytes).1 := by
  have hclear : ∀ m, Reached table type m → type.WellFormed ∧ (m.clear type).Peers table type (new type) := by
    intro m hm
    obtain ⟨hw, hm, _⟩ := Arises.held hg hm
    exact ⟨hw, ⟨held_clear hw hm, held_new table hw, clear_same hm⟩, settled_new table hw⟩
  refine ⟨fun m hm => (hclear m hm).2.alike, fun a b operations operations' ha hb hab hops => ?_, fun m bytes hm => ?_⟩
  · have hops : List.Forall₂ (Operation.Rel table (Message.Peers table) (Held table) type) operations operations' :=
      hops.imp fun _ _ hop => hop.imp (fun _ _ _ ⟨hx, hy, hxy⟩ => hxy.peers hg hx hy) fun _ _ hx => (hx.held hg).2.1
    obtain ⟨hend, hresults⟩ := run_peers hg (Arises.held hg ha).1 hops (hab.peers hg ha hb)
    exact ⟨hresults, hend.alike⟩
  · obtain ⟨hw, hpeers⟩ := hclear m hm
    obtain ⟨hleft, herror⟩ := hpeers.merge hg hw (Reader.valid_ofBytesWithin bytes 100).1
    exact ⟨herror, hleft.alike⟩

set_option maxRecDepth 100000 in
/-- Reading breaks off after an origin and a vertex. Reset, the shape keeps both aside, and still does what
    a new one does. -/
theorem aside_unseen_shape :
    let table := Sample.Shapes.table
    let shape := table.message "demo.shapes.Shape"
    let reset := ((new shape).run table shape [.merge 100 [0x1a, 2, 8, 5, 0x22, 2, 0x10, 7, 0x0a], .clear]).1
    let operations : List Operation :=
      [.inside (.start 2) (.set 0 (.scalar (.int32 1))), .inside (.start 3) (.read 1), .read 2, .encode, .hash]
    Reached table shape reset ∧ (reset.slotAt 2).aside.length = 1 ∧ (reset.slotAt 3).aside.length = 1 ∧
      ResultsRel table shape (new shape) operations (reset.run table shape operations).2
        ((new shape).run table shape operations).2 ∧
      (reset.run table shape operations).1.Alike table shape ((new shape).run table shape operations).1 := by
  intro table shape reset operations
  have hg : table.Generated := generated_tableOf _ _
  obtain ⟨hnamed, horigin, hvertices, hx, hkept⟩ :
      (table.messages.any fun type => type.fullName == "demo.shapes.Shape") = true ∧
      shape.strategyAt 2 = some (.message ⟨"demo.shapes.Point", ⟨["demo", "shapes"], "Point"⟩⟩) ∧
      shape.strategyAt 3 = some (.messages ⟨"demo.shapes.Point", ⟨["demo", "shapes"], "Point"⟩⟩) ∧
      (table.childAt shape 2).strategyAt 0 = some (.singular (.scalar .int32) .implicit) ∧
      (reset.slotAt 2).aside.length = 1 ∧ (reset.slotAt 3).aside.length = 1 := by
    decide +kernel
  have hnew : Reached table shape (new shape) := Arises.new (TypeTable.message_mem hnamed)
  have hmerged := hnew.apply (.merge shape 100 [0x1a, 2, 8, 5, 0x22, 2, 0x10, 7, 0x0a])
  have hreset : Reached table shape reset := hmerged.apply (.clear shape)
  have hunseen := aside_unseen hg shape
  refine ⟨hreset, hkept.1, hkept.2, hunseen.2.1 reset (new shape) _ _ hreset hnew (hunseen.1 _ hmerged) ?_⟩
  refine .cons (.inside (.start horigin (.inl rfl)) (.set hx rfl rfl (.scalar _))) ?_
  refine .cons (.inside (.start hvertices (.inr rfl)) (.read _ 1)) ?_
  exact .cons (.read shape 2) (.cons (.encode shape) (.cons (.hash shape) .nil))

end Message

end Protobuf
