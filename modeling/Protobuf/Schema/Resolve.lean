/-
  Protobuf.Schema.Resolve — from declarations to resolved types.

  `Registry.resolve` checks a file's field numbers, finds every type its fields name, reads the
  defaults, hands out presence bits in declaration order and gives each field and choice a base
  name under which none of its accessors meets another's.
-/

import Protobuf.Schema.Comments
import Protobuf.Schema.Registry

namespace Protobuf.Schema

open Naming (Scope)

/-- What the declarations of one file are resolved against. -/
structure Context where
  registry : Registry
  dialect : Dialect
  comments : Comments
  keepsUnknown : Bool

abbrev Resolve := Except SchemaError

namespace Context

/-! ## Fields -/

def fieldNumber (field : Descriptor.Field) (fieldName : String) : Resolve Nat :=
  let raw := field.numberValue.toInt
  let number := raw.toNat
  if raw < 1 ∨ !FieldNumber.inRange number then .error (.invalidFieldNumber fieldName raw)
  else if FieldNumber.isReserved number then .error (.reservedFieldNumber fieldName number)
  else .ok number

/-- The type a field names, told from what is registered when only the name is given. -/
def valueType (context : Context) (field : Descriptor.Field) (fieldName scope : String) :
    Resolve (ValueType × Option Declaration) :=
  let unresolved := SchemaError.unresolvedType fieldName field.typeNameText
  match field.type with
  | some .group => .error (.groupField fieldName)
  | some (.scalar type) => .ok (.plain (.scalar type), none)
  | declared =>
    match context.registry.find? field.typeNameText scope with
    | none => .error unresolved
    | some (fullName, entry) =>
      let ref : TypeRef := ⟨fullName, entry.path⟩
      match entry.declaration with
      | .message _ =>
        if declared = some .enum then .error unresolved else .ok (.message ref, some entry.declaration)
      | .enum _ =>
        if declared = some .message then .error unresolved
        else .ok (.plain (.enum ref), some entry.declaration)

/-- A value's default: the declared one, or the first of an enum when that is not zero. -/
def defaultValue (field : Descriptor.Field) (fieldName : String) (type : ValueType)
    (declaration : Option Declaration) : Resolve (Option Scalar) :=
  let invalid := fun text => SchemaError.invalidDefault fieldName text
  match type, declaration, field.default with
  | .plain (.scalar type), _, some text => some <$> (Default.read type text).mapError (invalid text)
  | .plain (.scalar _), _, none => .ok none
  | .plain (.enum _), some (.enum enum), some text =>
    match enum.values.find? fun value => value.nameText == text with
    | some value => .ok (some (.enum value.numberValue))
    | none => .error (invalid text .unknownValue)
  | .plain (.enum _), some (.enum enum), none =>
    .ok ((enum.values.head?.map (·.numberValue)).filter (· ≠ 0) |>.map .enum)
  | .plain (.enum _), _, _ => .ok none
  | .message _, _, some text => .error (invalid text .notScalar)
  | .message _, _, none => .ok none

/-- The map described by an entry message. -/
def mapType (context : Context) (entry : Descriptor.Message) (fieldName entryName : String) :
    Resolve FieldType := do
  let invalid := SchemaError.invalidMapEntry fieldName
  let some keyField := entry.fields.find? fun field => field.numberValue == 1
    | throw (invalid .noKey)
  let some valueField := entry.fields.find? fun field => field.numberValue == 2
    | throw (invalid .noValue)
  let (key, _) ← context.valueType keyField fieldName entryName
  let .plain (.scalar keyType) := key
    | throw (invalid .badKey)
  if !keyType.isMapKey then throw (invalid .badKey)
  let (value, declaration) ← context.valueType valueField fieldName entryName
  let valueDefault ← defaultValue valueField fieldName value declaration
  return .map keyType value valueDefault

/-- Values that vary in length one by one cannot share a run. -/
def isPackable : ValueType → Bool
  | .plain type => !type.kind.isLengthDelimited
  | .message _ => false

/-- Runs are the rule in one dialect and the exception in the other. -/
def isPacked (context : Context) (field : Descriptor.Field) (type : ValueType) : Bool :=
  isPackable type &&
    match context.dialect with
    | .proto3 => field.packed != some false
    | .proto2 => field.packed == some true

def mapEntry? : Option Declaration → Option Descriptor.Message
  | some (.message message) => if message.isMapEntry then some message else none
  | _ => none

/-- Type and cardinality of a field. -/
def fieldType (context : Context) (field : Descriptor.Field) (fieldName : String) (type : ValueType)
    (declaration : Option Declaration) : Resolve (FieldType × Cardinality) :=
  match field.labelValue, type, mapEntry? declaration with
  | .repeated, .message ref, some entry => do
    return (← context.mapType entry fieldName ref.fullName, .map)
  | .repeated, type, _ => .ok (.value type, if context.isPacked field type then .packed else .repeated)
  | _, type, _ => .ok (.value type, .singular)

def presence (context : Context) (field : Descriptor.Field) (type : ValueType) (cardinality : Cardinality) :
    Presence :=
  if cardinality ≠ .singular then .implicit
  else if type.isMessage || context.dialect == .proto2 || field.isTracked then .explicit
  else .implicit

/-- A default of the field; maps take none. -/
def fieldDefault (field : Descriptor.Field) (fieldName : String) (type : FieldType)
    (declaration : Option Declaration) : Resolve (Option Scalar) :=
  match type, field.default with
  | .value type, _ => defaultValue field fieldName type declaration
  | .map .., some text => .error (.invalidDefault fieldName text .notScalar)
  | .map .., none => .ok none

/-- A field by itself: what depends on its message is filled in later. -/
def field (context : Context) (field : Descriptor.Field) (fieldName : String) (number : Nat) (scope : String) :
    Resolve Field := do
  let (type, declaration) ← context.valueType field fieldName scope
  let (whole, cardinality) ← context.fieldType field fieldName type declaration
  let default ← fieldDefault field fieldName whole declaration
  return {
    name := field.nameText
    fullName := fieldName
    number, cardinality
    required := field.labelValue == .required
    presence := context.presence field type cardinality
    type := whole
    oneof := none
    default
    presenceBit := none
    member := ""
    comment := none }

/-! ## Members -/

/-- Names made from the base name of a field. -/
def fieldMembers (base : String) : List String := [
  Naming.fieldName base, "set_" ++ base, "clear_" ++ base, "has_" ++ base, base ++ "_mut", "add_" ++ base]

/-- Names made from the base name of a choice. -/
def oneofMembers (base : String) : List String := [Naming.fieldName base, "clear_" ++ base, base ++ "_mut"]

/-- `base` if all its names are free, else `other`; and the scope with the names of the one chosen. -/
def takeMember (members : Scope) (names : String → List String) (base other : String) : String × Scope :=
  let member := if (names base).any members.isTaken then other else base
  (member, members.insertAll (names member))

/-- Fields resolved so far, with what the next ones depend on. -/
structure Progress where
  members : Scope
  fields : List Field := []
  oneofs : List Oneof
  bits : Nat := 0

/-- Whether a field needs a presence bit: messages and members of choices show theirs otherwise. -/
def needsBit (field : Field) : Bool :=
  field.cardinality == .singular && field.presence == .explicit && field.oneof.isNone &&
    match field.type with
    | .value type => !type.isMessage
    | .map .. => false

def addOneof (context : Context) (entry : Registered) (fullName : String) (place : Place)
    (progress : Progress) (index : Nat) (decl : Descriptor.Oneof) : Progress :=
  let snake := Naming.snake decl.nameText
  let (member, members) := takeMember progress.members oneofMembers snake (snake ++ "_oneof")
  let name := (context.registry.oneofName? fullName index).getD (Naming.pascal decl.nameText)
  let oneof : Oneof := {
    name := decl.nameText
    member
    path := ⟨entry.path.modules ++ [entry.module], name⟩
    fields := []
    comment := context.comments.get? (place.at .oneof index) }
  { progress with members, oneofs := progress.oneofs ++ [oneof] }

/-- The choice a field belongs to, by position among the real ones. -/
def oneofOf (real : List (Nat × Descriptor.Oneof)) (field : Descriptor.Field) : Option Nat :=
  match field.oneofIndex with
  | some index => real.findIdx? fun (i, _) => Int32.ofNat i == index
  | none => none

def addField (context : Context) (fullName : String) (place : Place) (real : List (Nat × Descriptor.Oneof))
    (progress : Progress) (index : Nat) (decl : Descriptor.Field) : Resolve Progress := do
  let fieldName := fullName ++ "." ++ decl.nameText
  let number ← fieldNumber decl fieldName
  if let some first := progress.fields.find? fun field => field.number == number then
    throw (.duplicateFieldNumber fullName number first.name decl.nameText)
  let alone ← context.field decl fieldName number fullName
  let oneof := oneofOf real decl
  let field := { alone with oneof, presence := if oneof.isSome then .explicit else alone.presence }
  let snake := Naming.snake decl.nameText
  let (member, members) := takeMember progress.members fieldMembers snake (snake ++ "_" ++ Nat.repr number)
  let field := { field with
    member
    presenceBit := if needsBit field then some progress.bits else none
    comment := context.comments.get? (place.at .field index) }
  let oneofs :=
    match oneof with
    | some slot => progress.oneofs.modify slot fun o => { o with fields := o.fields ++ [index] }
    | none => progress.oneofs
  return {
    members, oneofs
    fields := progress.fields ++ [field]
    bits := if needsBit field then progress.bits + 1 else progress.bits }

/-! ## Types -/

def registered (context : Context) (fullName : String) : Resolve Registered :=
  match context.registry.get? fullName with
  | some entry => .ok entry
  | none => .error (.unresolvedType fullName fullName)

/-- Whether every value starts with the enum's own name and goes on with a letter. -/
def sharesStem (stem : String) (values : List Descriptor.EnumValue) : Bool :=
  values.all fun value =>
    match value.nameText.toList.drop stem.length with
    | c :: _ => stem.toList.isPrefixOf value.nameText.toList && c.isAlpha
    | [] => false

/-- Values and aliases so far, with the names of variants taken. -/
structure EnumProgress where
  variants : Scope := {}
  values : List EnumValue := []
  aliases : List EnumAlias := []

/-- Adds a value; one whose number is taken becomes an alias of the first. -/
def addValue (context : Context) (place : Place) (dropped : Nat) (progress : EnumProgress) (index : Nat)
    (decl : Descriptor.EnumValue) : EnumProgress :=
  let comment := context.comments.get? (place.at .enumValue index)
  match progress.values.find? fun value => value.number == decl.numberValue with
  | some target =>
    { progress with aliases := progress.aliases ++ [⟨decl.nameText, target.variant, comment⟩] }
  | none =>
    let stem := String.ofList (decl.nameText.toList.drop dropped)
    let (variant, variants) := progress.variants.claim (Naming.typeName (Naming.pascalFromUpper stem)) ""
    { progress with variants, values := progress.values ++ [⟨decl.nameText, decl.numberValue, variant, comment⟩] }

def enum (context : Context) (decl : Descriptor.Enum) (fullName : String) (place : Place) : Resolve EnumType := do
  let entry ← context.registered fullName
  let stem := Naming.upperSnake decl.nameText ++ "_"
  let dropped := if sharesStem stem decl.values then stem.length else 0
  let progress := decl.values.zipIdx.foldl (fun progress (value, index) =>
    context.addValue place dropped progress index value) {}
  return {
    name := decl.nameText
    fullName
    path := entry.path
    values := progress.values
    aliases := progress.aliases
    comment := context.comments.get? place }

def enums (context : Context) (outer : String) (place : Place) (part : Part) (decls : List Descriptor.Enum) :
    Resolve (List EnumType) :=
  decls.zipIdx.mapM fun (decl, index) => context.enum decl (qualify outer decl.nameText) (place.at part index)

mutual

def message (context : Context) (fullName : String) (place : Place) : Descriptor.Message → Resolve MessageTree
  | .mk name fields nested enums oneofs mapEntry => do
    let decl := Descriptor.Message.mk name fields nested enums oneofs mapEntry
    let entry ← context.registered fullName
    let real := decl.realOneofs
    let start : Progress := { members := ⟨Naming.reservedMembers⟩, oneofs := [] }
    let progress := real.foldl (fun progress (index, oneof) =>
      context.addOneof entry fullName place progress index oneof) start
    let progress ← fields.zipIdx.foldlM (fun progress (field, index) =>
      context.addField fullName place real progress index field) progress
    let inner ← context.messages fullName place .nestedMessage 0 nested
    let enums ← context.enums fullName place .nestedEnum enums
    return {
      type := {
        name := decl.nameText
        fullName
        path := entry.path
        module := entry.module
        dialect := context.dialect
        fields := progress.fields
        oneofs := progress.oneofs
        enums
        presenceWords := (progress.bits + 31) / 32
        keepsUnknown := context.keepsUnknown
        comment := context.comments.get? place }
      nested := inner }

/-- Messages from position `index` on; map entries inside a message are left out. -/
def messages (context : Context) (outer : String) (place : Place) (part : Part) (index : Nat) :
    List Descriptor.Message → Resolve (List MessageTree)
  | [] => .ok []
  | decl :: rest =>
    if part = .nestedMessage ∧ decl.isMapEntry then context.messages outer place part (index + 1) rest
    else do
      let tree ← context.message (qualify outer decl.nameText) (place.at part index) decl
      return tree :: (← context.messages outer place part (index + 1) rest)

end

end Context

def Dialect.ofText? : String → Option Dialect
  | "" | "proto2" => some .proto2
  | "proto3" => some .proto3
  | _ => none

namespace Registry

/-- The resolved types of one of the registered files. -/
def resolve (registry : Registry) (file : Descriptor.File) (keepsUnknown : Bool) : Resolve File := do
  let some dialect := Dialect.ofText? file.dialectText
    | throw (.unsupportedDialect file.nameText file.dialectText)
  let context : Context := { registry, dialect, comments := .ofLocations file.locations, keepsUnknown }
  let messages ← context.messages file.packageText [] .message 0 file.messages
  let enums ← context.enums file.packageText [] .enum file.enums
  return {
    name := file.nameText
    package := file.packageText
    dialect
    modules := Naming.packageModules file.packageText
    messages, enums }

end Registry

end Protobuf.Schema
