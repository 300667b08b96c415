/-
  Protobuf.Descriptor — declarations as a schema compiler hands them over.

  Names are not resolved and nothing is checked. A part that was not given is `none`; the accessors
  below say what it then counts as.
-/

import Protobuf.Scalar

namespace Protobuf.Descriptor

inductive Label where
  | optional
  | required
  | repeated
  deriving DecidableEq, Repr, Inhabited

namespace Label

def ofCode? : Int → Option Label
  | 1 => some optional
  | 2 => some required
  | 3 => some repeated
  | _ => none

/-- Unknown codes count as optional. -/
def ofCode (code : Int) : Label := (ofCode? code).getD optional

end Label

/-- The type a field is declared with. -/
inductive DeclaredType where
  | scalar (type : ScalarType)
  | group
  | message
  | enum
  deriving DecidableEq, Repr, Inhabited

namespace DeclaredType

def ofCode? : Int → Option DeclaredType
  | 1 => some (scalar .double)
  | 2 => some (scalar .float)
  | 3 => some (scalar .int64)
  | 4 => some (scalar .uint64)
  | 5 => some (scalar .int32)
  | 6 => some (scalar .fixed64)
  | 7 => some (scalar .fixed32)
  | 8 => some (scalar .bool)
  | 9 => some (scalar .string)
  | 10 => some group
  | 11 => some message
  | 12 => some (scalar .bytes)
  | 13 => some (scalar .uint32)
  | 14 => some enum
  | 15 => some (scalar .sfixed32)
  | 16 => some (scalar .sfixed64)
  | 17 => some (scalar .sint32)
  | 18 => some (scalar .sint64)
  | _ => none

/-- Unknown codes count as double. -/
def ofCode (code : Int) : DeclaredType := (ofCode? code).getD (scalar .double)

end DeclaredType

structure Field where
  name : Option String := none
  number : Option Int32 := none
  type : Option DeclaredType := none
  label : Option Label := none
  typeName : Option String := none
  default : Option String := none
  oneofIndex : Option Int32 := none
  /-- Declared `optional` where presence is not the rule. -/
  tracksPresence : Option Bool := none
  packed : Option Bool := none
  deriving DecidableEq, Repr, Inhabited

structure EnumValue where
  name : Option String := none
  number : Option Int32 := none
  deriving DecidableEq, Repr, Inhabited

structure Enum where
  name : Option String := none
  values : List EnumValue := []
  deriving DecidableEq, Repr, Inhabited

structure Oneof where
  name : Option String := none
  deriving DecidableEq, Repr, Inhabited

inductive Message where
  | mk (name : Option String) (fields : List Field) (nested : List Message) (enums : List Enum)
      (oneofs : List Oneof) (mapEntry : Option Bool)
  deriving Repr, Inhabited

/-- A place in a file, as the steps from the file to it, with the comments around it. -/
structure Location where
  path : List Int32 := []
  leading : Option String := none
  trailing : Option String := none
  deriving DecidableEq, Repr, Inhabited

structure File where
  name : Option String := none
  package : Option String := none
  dialect : Option String := none
  messages : List Message := []
  enums : List Enum := []
  locations : List Location := []
  deriving Repr, Inhabited

/-! ## Parts that were not given -/

namespace Field

def nameText (field : Field) : String := field.name.getD ""

def numberValue (field : Field) : Int32 := field.number.getD 0

def labelValue (field : Field) : Label := field.label.getD .optional

def typeNameText (field : Field) : String := field.typeName.getD ""

def isTracked (field : Field) : Bool := field.tracksPresence.getD false

end Field

namespace EnumValue

def nameText (value : EnumValue) : String := value.name.getD ""

def numberValue (value : EnumValue) : Int32 := value.number.getD 0

end EnumValue

def Enum.nameText (enum : Enum) : String := enum.name.getD ""

def Oneof.nameText (oneof : Oneof) : String := oneof.name.getD ""

namespace Message

def nameText : Message → String
  | mk name .. => name.getD ""

def fields : Message → List Field
  | mk _ fields .. => fields

def nested : Message → List Message
  | mk _ _ nested .. => nested

def enums : Message → List Enum
  | mk _ _ _ enums .. => enums

def oneofs : Message → List Oneof
  | mk _ _ _ _ oneofs _ => oneofs

/-- Whether the message only describes the entries of a map. -/
def isMapEntry : Message → Bool
  | mk _ _ _ _ _ mapEntry => mapEntry.getD false

/-- A oneof all of whose members ask for presence is no choice: it marks one optional field. -/
def isSynthetic (message : Message) (index : Nat) : Bool :=
  let members := message.fields.filter fun field => field.oneofIndex == some (Int32.ofNat index)
  !members.isEmpty && members.all Field.isTracked

/-- The oneofs that are choices, by position. -/
def realOneofs (message : Message) : List (Nat × Oneof) :=
  (message.oneofs.zipIdx.map fun (oneof, index) => (index, oneof)).filter fun (index, _) =>
    !message.isSynthetic index

/-- Whether types are generated inside the message: nested ones or choices. -/
def needsModule (message : Message) : Bool :=
  message.nested.any (!·.isMapEntry) || !message.enums.isEmpty || !message.realOneofs.isEmpty

end Message

namespace File

def nameText (file : File) : String := file.name.getD ""

def packageText (file : File) : String := file.package.getD ""

def dialectText (file : File) : String := file.dialect.getD ""

end File

end Protobuf.Descriptor
