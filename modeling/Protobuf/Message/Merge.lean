/-
  Protobuf.Message.Merge — reading bytes into a message.

  A tag leads to a field and a way to read it. Single values are replaced, repeated ones appended
  and sub-messages read into the one that is there. Everything else is kept or skipped. A failure
  leaves what was read before it, and in the field that failed what had been read of it.

  `step` does what one tag asks for, except that it only opens a sub-message; `merge` is the loop
  over tags that also reads into those. It ends because every step leaves fewer bytes than the tag
  was found with.
-/

import Protobuf.Message.Typed
import Protobuf.Reader.Scalar
import Protobuf.Reader.Skip

namespace Protobuf

open Schema

/-! ## Changes to a message -/

/-- Puts an entry in, in place of the one with its key. -/
def Entry.insert {M : Type} (entries : List (Entry M)) (entry : Entry M) : List (Entry M) :=
  if entries.any fun other => other.key == entry.key then
    entries.map fun other => if other.key == entry.key then entry else other
  else entries ++ [entry]

/-- The message member to read into, and the choice with it selected: the selected one if it is that
    member, else the one put aside if it is, reset, else a fresh one. -/
def Choice.select (reset : Message → Message) (fresh : Message) (index : Nat) (choice : Choice Message) :
    Message × Choice Message :=
  let selected := fun m => some (Member.mk index (Value.message m))
  match choice.selected, choice.stash.spare with
  | some ⟨field, .message m⟩, spare =>
    if field = index then (m, choice)
    else
      match spare with
      | some ⟨field, .message m⟩ =>
        if field = index then (reset m, ⟨selected (reset m), none⟩) else (fresh, ⟨selected fresh, spare⟩)
      | spare => (fresh, ⟨selected fresh, spare⟩)
  | _, some ⟨field, .message m⟩ =>
    if field = index then (reset m, ⟨selected (reset m), none⟩)
    else (fresh, ⟨selected fresh, choice.stash.spare⟩)
  | _, spare => (fresh, ⟨selected fresh, spare⟩)

namespace Message

def slotAt (m : Message) (index : Nat) : Slot Message := m.body.slots[index]?.getD .member

def setSlot (m : Message) (index : Nat) (slot : Slot Message) : Message :=
  m.update fun body => { body with slots := body.slots.set index slot }

def choiceAt (m : Message) (slot : Nat) : Choice Message := m.body.choices[slot]?.getD {}

def setChoice (m : Message) (slot : Nat) (choice : Choice Message) : Message :=
  m.update fun body => { body with choices := body.choices.set slot choice }

/-- Marks a field present, if it has a mark. -/
def mark (m : Message) (field : Field) : Message :=
  match field.presenceBit with
  | some bit => m.update fun body => { body with presence := body.presence.set bit }
  | none => m

def setScalar (m : Message) (field : Field) (index : Nat) (value : Scalar) : Message :=
  (m.setSlot index (.scalar value)).mark field

def appendScalars (m : Message) (index : Nat) (values : List Scalar) : Message :=
  match m.slotAt index with
  | .scalars old => m.setSlot index (.scalars (old ++ values))
  | _ => m

/-- Appends an empty text or byte string. -/
def addText (m : Message) (index : Nat) (kind : Kind) : Message :=
  match m.slotAt index with
  | .texts values => m.setSlot index (.texts (values.add (fun _ => .zero kind) (.zero kind)))
  | _ => m

/-- Replaces the last text or byte string. -/
def setLastText (m : Message) (index : Nat) (value : Scalar) : Message :=
  match m.slotAt index with
  | .texts values => m.setSlot index (.texts (values.setLast value))
  | _ => m

def insertEntry (m : Message) (index : Nat) (entry : Entry Message) : Message :=
  match m.slotAt index with
  | .map entries => m.setSlot index (.map (Entry.insert entries entry))
  | _ => m

/-- Selects a member of a choice with its value; nothing is put aside. -/
def setMember (m : Message) (slot index : Nat) (value : Value Message) : Message :=
  m.setChoice slot { m.choiceAt slot with selected := some ⟨index, value⟩ }

end Message

/-! ## Sub-messages -/

/-- Where a sub-message belongs. -/
inductive Place where
  | field (index : Nat)
  /-- The last element of a repeated field. -/
  | element (index : Nat)
  | member (slot index : Nat)
  /-- A map entry, read as a message of its two fields. -/
  | entry (index : Nat)
  deriving DecidableEq, Repr

/-- The two fields of a map entry, as a message type. -/
def entryType (key : ScalarType) (value : ValueType) (valueDefault : Option Scalar) : MessageType :=
  let field := fun (number : Nat) (type : ValueType) (start : Option Scalar) =>
    { (default : Field) with
      number
      presence := if type.isMessage then .explicit else .implicit
      type := .value type
      default := start }
  { (default : MessageType) with
    fields := [field 1 (.plain (.scalar key)) none, field 2 value valueDefault] }

/-- The entry that a message of its two fields stands for. -/
def entryOf (valueType : MessageType) (m : Message) : Entry Message where
  key :=
    match m.slotAt 0 with
    | .scalar key => key
    | _ => default
  value :=
    match m.slotAt 1 with
    | .scalar value => .scalar value
    | .message value => .message (value.get?.getD (.new valueType))
    | _ => default

namespace Message

/-- Puts back a sub-message that was read. -/
def put (table : TypeTable) (type : MessageType) (m : Message) (place : Place) (child : Message) : Message :=
  match place with
  | .field index => m.setSlot index (.message (.present child))
  | .element index =>
    match m.slotAt index with
    | .messages values => m.setSlot index (.messages (values.setLast child))
    | _ => m
  | .member slot index => m.setMember slot index (.message child)
  | .entry index => m.insertEntry index (entryOf (table.childAt type index) child)

/-- Puts back a sub-message that failed; a map takes only whole entries. -/
def putFailed (table : TypeTable) (type : MessageType) (m : Message) (place : Place) (child : Message) : Message :=
  match place with
  | .entry _ => m
  | place => m.put table type place child

end Message

namespace Reader

/-- Readers for a length-delimited part and for what follows it. -/
structure Nested where
  inner : Reader
  outer : Reader

/-- Opens a length-delimited part, which may count as one more level. -/
def openNested (counted : Bool) : Read Nested := fun r =>
  match readLength r with
  | .error e r => .error e r
  | .ok len r =>
    match (if counted then enter else pure ()) r with
    | .error e r => .error e r
    | .ok _ r' => .ok ⟨{ r' with limit := r.pos + len }, { r with pos := r.pos + len }⟩ r'

end Reader

/-! ## One field -/

/-- What a tag led to. -/
inductive Step where
  | next (message : Message) (reader : Reader)
  | stop (message : Message) (reader : Reader) (error : DecodeError)
  /-- A sub-message to read from `inner`; `outer` is behind it. -/
  | into (message : Message) (place : Place) (type : MessageType) (child : Message) (inner outer : Reader)

namespace Step

/-- A read that changes the message once it succeeds. -/
def ofRead {α : Type} (read : Read α) (r : Reader) (m : Message) (change : α → Message) : Step :=
  match read r with
  | .error e r => stop m r e
  | .ok a r => next (change a) r

def ofRun (run : Reader.Run) (change : List Scalar → Message) : Step :=
  match run.result with
  | .error e r => stop (change run.values) r e
  | .ok _ r => next (change run.values) r

/-- A sub-message, of which the message already holds the start. -/
def ofNested (counted : Bool) (r : Reader) (m : Message) (place : Place) (type : MessageType) (child : Message) :
    Step :=
  match Reader.openNested counted r with
  | .error e r => stop m r e
  | .ok nested _ => into m place type child nested.inner nested.outer

end Step

namespace Message

/-- Reads what stands behind one of a field's tags. -/
def readField (table : TypeTable) (type : MessageType) (field : Field) (index : Nat) (action : Action)
    (m : Message) (r : Reader) : Step :=
  let child := table.childAt type index
  match field.strategy with
  | .singular plain _ => .ofRead (Reader.readScalar plain.kind) r m (m.setScalar field index)
  | .repeated plain | .packed plain =>
    if action = .run then .ofRun (Reader.readRun plain.kind r) (m.appendScalars index)
    else .ofRead (Reader.readScalar plain.kind) r m fun value => m.appendScalars index [value]
  | .texts plain =>
    let m := m.addText index plain.kind
    .ofRead (Reader.readScalar plain.kind) r m (m.setLastText index)
  | .message _ =>
    match m.slotAt index with
    | .message value =>
      let start := value.getOrInit (clear child) (new child)
      .ofNested true r (m.setSlot index (.message (.present start))) (.field index) child start
    | _ => .next m r
  | .messages _ =>
    match m.slotAt index with
    | .messages values =>
      let start := values.spare (clear child) (new child)
      .ofNested true r (m.setSlot index (.messages (values.push start))) (.element index) child start
    | _ => .next m r
  | .map key value =>
    let valueDefault :=
      match field.type with
      | .map _ _ valueDefault => valueDefault
      | .value _ => none
    let entry := entryType key value valueDefault
    .ofNested false r m (.entry index) entry (new entry)
  | .member slot (.plain plain) =>
    .ofRead (Reader.readScalar plain.kind) r m fun value => m.setMember slot index (.scalar value)
  | .member slot (.message _) =>
    let (start, choice) := (m.choiceAt slot).select (clear child) (new child) index
    .ofNested true r (m.setChoice slot choice) (.member slot index) child start

/-- Keeps or skips a field the type does not have. -/
def readUnknown (type : MessageType) (tag : Tag) (m : Message) (r : Reader) : Step :=
  if type.keepsUnknown then
    .ofRead (Reader.readRaw tag) r m fun raw =>
      m.update fun body => { body with unknown := body.unknown ++ raw }
  else .ofRead (Reader.skip tag) r m fun _ => m

/-- Reads what stands behind a tag. -/
def step (table : TypeTable) (type : MessageType) (m : Message) (tag : Tag) (r : Reader) : Step :=
  match type.dispatch.find? fun entry => entry.tag == tag with
  | some entry =>
    m.readField table type (type.fields[entry.field]?.getD default) entry.field entry.action r
  | none => m.readUnknown type tag r

end Message

/-! ## Progress -/

namespace Step

/-- Whatever is left to read is no more than what `r` had. -/
def Within (r : Reader) : Step → Prop
  | next _ r' => r'.left ≤ r.left
  | stop _ _ _ => True
  | into _ _ _ _ inner outer => inner.left ≤ r.left ∧ outer.left ≤ r.left

theorem within_ofRead {α : Type} {read : Read α} (h : Reader.Advances read) (r : Reader) (m : Message)
    (change : α → Message) : (ofRead read r m change).Within r := by
  unfold ofRead
  split
  · trivial
  · rename_i hr
    exact (h _ _ _ hr).2

theorem within_ofRun (kind : Kind) (r : Reader) (change : List Scalar → Message) :
    (ofRun (Reader.readRun kind r) change).Within r := by
  unfold ofRun
  split
  · trivial
  · rename_i hr
    exact Nat.le_of_lt (Reader.readRun_ok hr).2

theorem openNested_within {counted : Bool} {r r' : Reader} {nested : Reader.Nested}
    (h : Reader.openNested counted r = .ok nested r') :
    nested.inner.left ≤ r.left ∧ nested.outer.left ≤ r.left := by
  unfold Reader.openNested at h
  split at h
  · cases h
  · rename_i len s hl
    have left := Reader.readLength_consumes _ _ _ hl
    have room := Reader.readLength_room hl
    split at h
    · cases h
    · rename_i u t he
      have pos : t.pos = s.pos := by
        cases counted with
        | false =>
          cases he
          rfl
        | true =>
          simp only [if_true, Reader.enter] at he
          split at he
          · cases he
          · cases he
            rfl
      cases h
      simp only [Reader.left] at *
      omega

theorem within_ofNested (counted : Bool) (r : Reader) (m : Message) (place : Place) (type : MessageType)
    (child : Message) : (ofNested counted r m place type child).Within r := by
  unfold ofNested
  split
  · trivial
  · rename_i h
    exact openNested_within h

end Step

namespace Message

theorem readField_within (table : TypeTable) (type : MessageType) (field : Field) (index : Nat) (action : Action)
    (m : Message) (r : Reader) : (m.readField table type field index action r).Within r := by
  have scalar := fun kind => (Reader.readScalar_consumes kind).advances
  unfold readField
  split
  · exact Step.within_ofRead (scalar _) _ _ _
  · split
    · exact Step.within_ofRun _ _ _
    · exact Step.within_ofRead (scalar _) _ _ _
  · split
    · exact Step.within_ofRun _ _ _
    · exact Step.within_ofRead (scalar _) _ _ _
  · exact Step.within_ofRead (scalar _) _ _ _
  · split
    · exact Step.within_ofNested ..
    · exact Nat.le_refl _
  · split
    · exact Step.within_ofNested ..
    · exact Nat.le_refl _
  · exact Step.within_ofNested ..
  · exact Step.within_ofRead (scalar _) _ _ _
  · exact Step.within_ofNested ..

theorem readUnknown_within (type : MessageType) (tag : Tag) (m : Message) (r : Reader) :
    (m.readUnknown type tag r).Within r := by
  unfold readUnknown
  split
  · exact Step.within_ofRead (Reader.readRaw_advances tag) _ _ _
  · exact Step.within_ofRead (Reader.skip_advances tag) _ _ _

theorem step_within (table : TypeTable) (type : MessageType) (m : Message) (tag : Tag) (r : Reader) :
    (m.step table type tag r).Within r := by
  unfold step
  split
  · exact readField_within ..
  · exact readUnknown_within ..

theorem next_left {table : TypeTable} {type : MessageType} {m m' : Message} {tag : Tag} {r r' : Reader}
    (h : m.step table type tag r = .next m' r') : r'.left ≤ r.left := by
  have within := m.step_within table type tag r
  rwa [h] at within

theorem into_left {table : TypeTable} {type childType : MessageType} {m m' child : Message} {tag : Tag}
    {place : Place} {r inner outer : Reader} (h : m.step table type tag r = .into m' place childType child inner outer) :
    inner.left ≤ r.left ∧ outer.left ≤ r.left := by
  have within := m.step_within table type tag r
  rwa [h] at within

end Message

/-! ## All fields -/

/-- How a merge ended: the message and the reader as they were left, and the failure if any. -/
structure Outcome where
  message : Message
  reader : Reader
  error : Option DecodeError

namespace Message

/-- Reads fields up to the reader's limit into a message. -/
def merge (table : TypeTable) (type : MessageType) (m : Message) (r : Reader) : Outcome :=
  match _ht : r.readTag with
  | .error e r => ⟨m, r, some e⟩
  | .ok none r => ⟨m, r, none⟩
  | .ok (some tag) r' =>
    match _hs : m.step table type tag r' with
    | .stop m r e => ⟨m, r, some e⟩
    | .next m r => merge table type m r
    | .into m place childType child inner outer =>
      let out := merge table childType child inner
      match out.error with
      | some e => ⟨m.putFailed table type place out.message, out.reader, some e⟩
      | none => merge table type (m.put table type place out.message) { outer with tagStart := out.reader.tagStart }
termination_by r.left
decreasing_by
  · exact Nat.lt_of_le_of_lt (next_left _hs) (Reader.readTag_lt _ht).2
  · exact Nat.lt_of_le_of_lt (into_left _hs).1 (Reader.readTag_lt _ht).2
  · exact Nat.lt_of_le_of_lt (into_left _hs).2 (Reader.readTag_lt _ht).2

/-- Reads a message behind its length into one; a failure leaves the reader inside. -/
def mergeNested (table : TypeTable) (type : MessageType) (m : Message) (r : Reader) : Outcome :=
  match Reader.openNested true r with
  | .error e r => ⟨m, r, some e⟩
  | .ok nested _ =>
    let out := m.merge table type nested.inner
    match out.error with
    | some _ => out
    | none => { out with reader := { nested.outer with tagStart := out.reader.tagStart } }

end Message

end Protobuf
