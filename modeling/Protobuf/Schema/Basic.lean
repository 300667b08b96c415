/-
  Protobuf.Schema.Basic — message and enum types with every reference resolved.

  A `MessageType` says all that is needed to hold, write and read its messages: fields in
  declaration order, which is also the order of writing, the choices among them, and how many
  words of presence bits it takes. `MessageTree` adds the types declared inside it.
-/

import Protobuf.Scalar

namespace Protobuf.Schema

/-- The two sets of rules a file can follow. -/
inductive Dialect where
  | proto2
  | proto3
  deriving DecidableEq, Repr, Inhabited

/-- Where the code of a type goes: modules from the root inwards, then its name. -/
structure ItemPath where
  modules : List String
  name : String
  deriving DecidableEq, Repr, Inhabited

structure TypeRef where
  fullName : String
  path : ItemPath
  deriving DecidableEq, Repr, Inhabited

/-- The types of values that are not messages. -/
inductive PlainType where
  | scalar (type : ScalarType)
  | enum (ref : TypeRef)
  deriving DecidableEq, Repr, Inhabited

def PlainType.kind : PlainType → Kind
  | scalar type => .scalar type
  | enum _ => .enum

inductive ValueType where
  | plain (type : PlainType)
  | message (ref : TypeRef)
  deriving DecidableEq, Repr, Inhabited

namespace ValueType

def isMessage : ValueType → Bool
  | plain _ => false
  | message _ => true

def wireType : ValueType → WireType
  | plain type => type.kind.wireType
  | message _ => .lengthDelimited

end ValueType

inductive FieldType where
  | value (type : ValueType)
  /-- A map, with what an entry without a value holds when that is not zero. -/
  | map (key : ScalarType) (value : ValueType) (valueDefault : Option Scalar)
  deriving DecidableEq, Repr, Inhabited

inductive Cardinality where
  | singular
  | repeated
  | packed
  | map
  deriving DecidableEq, Repr, Inhabited

/-- Whether a field that is not set differs from one set to its default. -/
inductive Presence where
  | implicit
  | explicit
  deriving DecidableEq, Repr, Inhabited

structure Field where
  name : String
  fullName : String
  number : Nat
  cardinality : Cardinality
  required : Bool
  presence : Presence
  type : FieldType
  /-- Which of the message's choices the field belongs to. -/
  oneof : Option Nat
  /-- The declared default, or the first value of an enum when that is not zero. -/
  default : Option Scalar
  presenceBit : Option Nat
  /-- Base of the names of storage and accessors, unique in the message. -/
  member : String
  comment : Option String
  deriving DecidableEq, Repr, Inhabited

structure Oneof where
  name : String
  member : String
  path : ItemPath
  /-- Its members by position among the fields of the message. -/
  fields : List Nat
  comment : Option String
  deriving DecidableEq, Repr, Inhabited

structure EnumValue where
  name : String
  number : Int32
  variant : String
  comment : Option String
  deriving DecidableEq, Repr, Inhabited

/-- A further name for a number that has one. -/
structure EnumAlias where
  name : String
  target : String
  comment : Option String
  deriving DecidableEq, Repr, Inhabited

structure EnumType where
  name : String
  fullName : String
  path : ItemPath
  values : List EnumValue
  aliases : List EnumAlias
  comment : Option String
  deriving DecidableEq, Repr, Inhabited

structure MessageType where
  name : String
  fullName : String
  path : ItemPath
  /-- The module for the types inside the message. -/
  module : String
  dialect : Dialect
  fields : List Field
  oneofs : List Oneof
  enums : List EnumType
  presenceWords : Nat
  keepsUnknown : Bool
  comment : Option String
  deriving DecidableEq, Repr, Inhabited

structure MessageTree where
  type : MessageType
  nested : List MessageTree
  deriving Repr, Inhabited

namespace MessageTree

/-- Whether anything is generated inside the message's module. -/
def hasModule (tree : MessageTree) : Bool :=
  !tree.nested.isEmpty || !tree.type.enums.isEmpty || !tree.type.oneofs.isEmpty

end MessageTree

structure File where
  name : String
  package : String
  dialect : Dialect
  modules : List String
  messages : List MessageTree
  enums : List EnumType
  deriving Repr, Inhabited

mutual

/-- A message type and all inside it, outermost first. -/
def MessageTree.flatten : MessageTree → List MessageType
  | ⟨type, nested⟩ => type :: flattenAll nested

def flattenAll : List MessageTree → List MessageType
  | [] => []
  | tree :: rest => tree.flatten ++ flattenAll rest

end

namespace File

/-- All message types of a file. -/
def messageTypes (file : File) : List MessageType := flattenAll file.messages

/-- All enum types of a file, those inside messages included. -/
def enumTypes (file : File) : List EnumType := file.enums ++ file.messageTypes.flatMap MessageType.enums

end File

/-- `name` as a part of `outer`, which may be empty. -/
def qualify (outer name : String) : String := if outer.isEmpty then name else outer ++ "." ++ name

end Protobuf.Schema
