/-
  Protobuf.Plugin.RawField — serialized declarations, field by field.

  A form says which numbers a message has and what stands behind each. Reading is strict: a number
  that the form has must come with its wire type, texts must be well formed, and everything nested
  must be readable. Other numbers are skipped. Nesting has bounded room, and each message, skipped
  field and skipped group needs some.
-/

import Protobuf.Reader.Scalar
import Protobuf.Reader.Skip

namespace Protobuf.Plugin

/-- The messages a request is made of. -/
inductive Form where
  | request
  | version
  | file
  | message
  | field
  | oneof
  | enumeration
  | enumValue
  | service
  | method
  | extensionRange
  /-- A start and an end. -/
  | range
  | sourceInfo
  | location
  | fileOptions
  | messageOptions
  | fieldOptions
  | enumOptions
  | enumValueOptions
  | serviceOptions
  | methodOptions
  /-- Options with nothing but uninterpreted ones. -/
  | otherOptions
  | uninterpreted
  | namePart
  deriving DecidableEq, Repr

/-- What stands behind a number. -/
inductive Shape where
  | text
  | bytes
  | number
  /-- Numbers one by one or in runs. -/
  | numbers
  | word
  | record (form : Form)
  deriving DecidableEq, Repr

namespace Form

def shapes : Form → List (Nat × Shape)
  | request => [(1, .text), (2, .text), (3, .record version), (15, .record file)]
  | version => [(1, .number), (2, .number), (3, .number), (4, .text)]
  | file =>
    [ (1, .text), (2, .text), (3, .text), (4, .record message), (5, .record enumeration), (6, .record service),
      (7, .record field), (8, .record fileOptions), (9, .record sourceInfo), (10, .numbers), (11, .numbers),
      (12, .text) ]
  | message =>
    [ (1, .text), (2, .record field), (3, .record message), (4, .record enumeration), (5, .record extensionRange),
      (6, .record field), (7, .record messageOptions), (8, .record oneof), (9, .record range), (10, .text) ]
  | field =>
    [ (1, .text), (2, .text), (3, .number), (4, .number), (5, .number), (6, .text), (7, .text),
      (8, .record fieldOptions), (9, .number), (10, .text), (17, .number) ]
  | oneof => [(1, .text), (2, .record otherOptions)]
  | enumeration =>
    [(1, .text), (2, .record enumValue), (3, .record enumOptions), (4, .record range), (5, .text)]
  | enumValue => [(1, .text), (2, .number), (3, .record enumValueOptions)]
  | service => [(1, .text), (2, .record method), (3, .record serviceOptions)]
  | method =>
    [(1, .text), (2, .text), (3, .text), (4, .record methodOptions), (5, .number), (6, .number)]
  | extensionRange => [(1, .number), (2, .number), (3, .record otherOptions)]
  | range => [(1, .number), (2, .number)]
  | sourceInfo => [(1, .record location)]
  | location => [(1, .numbers), (2, .numbers), (3, .text), (4, .text), (6, .text)]
  | fileOptions =>
    [ (1, .text), (8, .text), (9, .number), (10, .number), (11, .text), (16, .number), (17, .number), (18, .number),
      (20, .number), (23, .number), (27, .number), (31, .number), (36, .text), (37, .text), (39, .text), (40, .text),
      (41, .text), (42, .number), (44, .text), (45, .text), (999, .record uninterpreted) ]
  | messageOptions =>
    [(1, .number), (2, .number), (3, .number), (7, .number), (999, .record uninterpreted)]
  | fieldOptions =>
    [ (1, .number), (2, .number), (3, .number), (5, .number), (6, .number), (10, .number),
      (999, .record uninterpreted) ]
  | enumOptions => [(2, .number), (3, .number), (999, .record uninterpreted)]
  | enumValueOptions => [(1, .number), (999, .record uninterpreted)]
  | serviceOptions => [(33, .number), (999, .record uninterpreted)]
  | methodOptions => [(33, .number), (34, .number), (999, .record uninterpreted)]
  | otherOptions => [(999, .record uninterpreted)]
  | uninterpreted =>
    [ (2, .record namePart), (3, .text), (4, .number), (5, .number), (6, .word), (7, .bytes), (8, .text) ]
  | namePart => [(1, .text), (2, .number)]

def shape? (form : Form) (number : Nat) : Option Shape := form.shapes.lookup number

end Form

/-- A field of a serialized message that its form has. -/
inductive RawField where
  | text (number : Nat) (value : String)
  | bytes (number : Nat) (value : Bytes)
  | number (number value : Nat)
  | record (number : Nat) (fields : List RawField)
  deriving Repr, Inhabited

namespace Form

open Reader

/-! ## Skipping -/

/-- Messages and groups that may be open at once. -/
def maxDepth : Nat := 100

def needRoom (room : Nat) : Read Unit :=
  if room = 0 then throw (.recursionLimitExceeded maxDepth) else pure ()

/-- Steps over the fields of the groups in `groups`, innermost first, each field in the room that
    the groups around it leave. -/
def skipOpen (room : Nat) (groups : List Nat) (r : Reader) : EStateM.Result DecodeError Reader Unit :=
  match groups with
  | [] => .ok () r
  | group :: outer =>
    match _h : readTag r with
    | .error e r => .error e r
    | .ok none r => .error (.unterminatedGroup group) r
    | .ok (some tag) r' =>
      if tag.wireType? = some .endGroup then
        if tag.number = group then skipOpen room outer r' else .error (.unexpectedEndGroup tag.number) r'
      else if room ≤ outer.length + 1 then .error (.recursionLimitExceeded maxDepth) r'
      else if tag.wireType? = some .startGroup then skipOpen room (tag.number :: group :: outer) r'
      else
        match _hs : skipPlain tag r' with
        | .error e r => .error e r
        | .ok _ r' => skipOpen room (group :: outer) r'
termination_by r.left
decreasing_by
  · exact (readTag_lt _h).2
  · exact (readTag_lt _h).2
  · have := (readTag_lt _h).2
    have := (skipPlain_advances tag _ _ _ _hs).2
    omega

/-- Steps over the payload of a number that the form does not have. -/
def skipPayload (room : Nat) (tag : Tag) : Read Unit := fun r =>
  if tag.wireType? = some .startGroup then skipOpen room [tag.number] r else skipPlain tag r

def skipOther (room : Nat) (tag : Tag) : Read (List RawField) := do
  needRoom room
  skipPayload room tag
  return []

/-! ## Reading one field -/

/-- The numbers of a run. -/
def numbersOf (number : Nat) (values : List Scalar) : List RawField :=
  values.filterMap fun
    | .uint64 value => some (.number number value.toNat)
    | _ => none

def readNumbers (number : Nat) : Read (List RawField) := fun r =>
  match (readRun (.scalar .uint64) r).result with
  | .error e r => .error e r
  | .ok _ r' => .ok (numbersOf number (readRun (.scalar .uint64) r).values) r'

/-- A nested message, which `inner` reads. -/
def recordOf (inner : Form → Bytes → Except DecodeError (List RawField)) (form : Form) (number : Nat)
    (payload : Bytes) : Read (List RawField) :=
  match inner form payload with
  | .ok fields => pure [.record number fields]
  | .error e => throw e

/-- What a field of the form stands for. -/
def readShape (inner : Form → Bytes → Except DecodeError (List RawField)) (shape : Shape) (tag : Tag) :
    Read (List RawField) :=
  match shape, tag.wireType? with
  | .text, some .lengthDelimited => readText >>= fun value => pure [.text tag.number value]
  | .bytes, some .lengthDelimited => readBytes >>= fun value => pure [.bytes tag.number value]
  | .number, some .varint | .numbers, some .varint => readVarint >>= fun value => pure [.number tag.number value]
  | .numbers, some .lengthDelimited => readNumbers tag.number
  | .word, some .fixed64 => readFixed 8 >>= fun _ => pure []
  | .record form, some .lengthDelimited => readBytes >>= recordOf inner form tag.number
  | _, _ => throw (.invalidWireType tag.wireCode)

def readField (room : Nat) (inner : Form → Bytes → Except DecodeError (List RawField)) (form : Form) (tag : Tag) :
    Read (List RawField) :=
  match form.shape? tag.number with
  | some shape => readShape inner shape tag
  | none => skipOther room tag

/-! ## Progress -/

theorem advances_throw {α : Type} (e : DecodeError) : Advances (throw e : Read α) := by
  intro r a r' h
  cases h

theorem skipOpen_advances (room : Nat) (groups : List Nat) : Advances (skipOpen room groups) := by
  intro r a r' h
  fun_induction skipOpen room groups r with
  | case1 =>
    cases h
    exact ⟨rfl, Nat.le_refl _⟩
  | case4 =>
    rename_i ht _ ih
    have := readTag_lt ht
    have := ih h
    omega
  | case7 =>
    rename_i ht _ _ _ ih
    have := readTag_lt ht
    have := ih h
    omega
  | case9 =>
    rename_i ht _ _ _ _ _ hs ih
    have := readTag_lt ht
    have := skipPlain_advances _ _ _ _ hs
    have := ih h
    omega
  | _ => cases h

theorem skipPayload_advances (room : Nat) (tag : Tag) : Advances (skipPayload room tag) := by
  intro r a r' h
  simp only [skipPayload] at h
  split at h
  · exact skipOpen_advances _ _ _ _ _ h
  · exact skipPlain_advances _ _ _ _ h

theorem skipOther_advances (room : Nat) (tag : Tag) : Advances (skipOther room tag) := by
  intro r a r' h
  obtain ⟨_, s, hn, h⟩ := bind_ok h
  obtain ⟨_, t, hs, h⟩ := bind_ok h
  cases h
  unfold needRoom at hn
  split at hn
  · cases hn
  · cases hn
    exact skipPayload_advances _ _ _ _ _ hs

theorem readNumbers_advances (number : Nat) : Advances (readNumbers number) := by
  intro r a r' h
  unfold readNumbers at h
  split at h
  · cases h
  · rename_i hr
    have := readRun_ok hr
    cases h
    exact ⟨this.1, Nat.le_of_lt this.2⟩

theorem recordOf_advances (inner : Form → Bytes → Except DecodeError (List RawField)) (form : Form) (number : Nat)
    (payload : Bytes) : Advances (recordOf inner form number payload) := by
  unfold recordOf
  split
  · exact advances_pure _
  · exact advances_throw _

theorem readShape_advances (inner : Form → Bytes → Except DecodeError (List RawField)) (shape : Shape) (tag : Tag) :
    Advances (readShape inner shape tag) := by
  unfold readShape
  split
  · exact (readText_consumes.bind fun _ => advances_pure _).advances
  · exact (readBytes_consumes.bind fun _ => advances_pure _).advances
  · exact (readVarint_consumes.bind fun _ => advances_pure _).advances
  · exact (readVarint_consumes.bind fun _ => advances_pure _).advances
  · exact readNumbers_advances _
  · exact ((readFixed_consumes (by decide)).bind fun _ => advances_pure _).advances
  · exact (readBytes_consumes.bind fun payload => recordOf_advances inner _ _ payload).advances
  · exact advances_throw _

theorem readField_advances (room : Nat) (inner : Form → Bytes → Except DecodeError (List RawField)) (form : Form)
    (tag : Tag) : Advances (readField room inner form tag) := by
  unfold readField
  split
  · exact readShape_advances inner _ tag
  · exact skipOther_advances room tag

/-! ## Reading messages -/

/-- The fields up to the reader's limit. -/
def readFields (room : Nat) (inner : Form → Bytes → Except DecodeError (List RawField)) (form : Form) (r : Reader) :
    Except DecodeError (List RawField) :=
  match _ht : readTag r with
  | .error e _ => .error e
  | .ok none _ => .ok []
  | .ok (some tag) r' =>
    match _hf : readField room inner form tag r' with
    | .error e _ => .error e
    | .ok fields r'' => (readFields room inner form r'').map (fields ++ ·)
termination_by r.left
decreasing_by
  have := (readTag_lt _ht).2
  have := (readField_advances room inner form tag _ _ _ _hf).2
  omega

/-- The fields of a message, with `room` levels of messages left to open in it. -/
def parse : Nat → Form → Bytes → Except DecodeError (List RawField)
  | 0, form, bytes =>
    readFields 0 (fun _ _ => .error (.recursionLimitExceeded maxDepth)) form (.ofBytes bytes)
  | room + 1, form, bytes => readFields (room + 1) (parse room) form (.ofBytes bytes)

end Form

/-! ## Looking up -/

namespace RawField

/-- All texts of a number, in order. -/
def texts (fields : List RawField) (n : Nat) : List String :=
  fields.filterMap fun
    | .text m value => if m = n then some value else none
    | _ => none

/-- The last text of a number. -/
def text? (fields : List RawField) (n : Nat) : Option String := (texts fields n).getLast?

def numbers (fields : List RawField) (n : Nat) : List Nat :=
  fields.filterMap fun
    | .number m value => if m = n then some value else none
    | _ => none

def int32? (fields : List RawField) (n : Nat) : Option Int32 := (numbers fields n).getLast?.map Int32.ofNat

def bool? (fields : List RawField) (n : Nat) : Option Bool := (numbers fields n).getLast?.map (· != 0)

/-- All nested messages of a number. -/
def records (fields : List RawField) (n : Nat) : List (List RawField) :=
  fields.filterMap fun
    | .record m inner => if m = n then some inner else none
    | _ => none

/-- The nested messages of a number taken as one. -/
def merged (fields : List RawField) (n : Nat) : List RawField := (records fields n).flatten

end RawField

end Protobuf.Plugin
