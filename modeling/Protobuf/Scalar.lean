/-
  Protobuf.Scalar — single values as the wire knows them.

  A `Scalar` carries its kind, so it determines its own bytes: `encode` needs no type beside it.
  Floats are bit patterns. An enum value is its number; which numbers have names is the schema's
  business. `size` counts the bytes without writing them.
-/

import Protobuf.Binary.Format
import Protobuf.Wire.Fixed
import Protobuf.Wire.Frame
import Protobuf.Wire.Tag
import Protobuf.Wire.ZigZag

namespace Protobuf

/-- The value types a schema can declare without naming another type. -/
inductive ScalarType where
  | int32
  | int64
  | uint32
  | uint64
  | sint32
  | sint64
  | fixed32
  | fixed64
  | sfixed32
  | sfixed64
  | float
  | double
  | bool
  | string
  | bytes
  deriving DecidableEq, Repr, Inhabited

namespace ScalarType

def all : List ScalarType :=
  [int32, int64, uint32, uint64, sint32, sint64, fixed32, fixed64, sfixed32, sfixed64, float, double, bool, string, bytes]

/-- The name a schema gives the type. -/
def name : ScalarType → String
  | int32 => "int32"
  | int64 => "int64"
  | uint32 => "uint32"
  | uint64 => "uint64"
  | sint32 => "sint32"
  | sint64 => "sint64"
  | fixed32 => "fixed32"
  | fixed64 => "fixed64"
  | sfixed32 => "sfixed32"
  | sfixed64 => "sfixed64"
  | float => "float"
  | double => "double"
  | bool => "bool"
  | string => "string"
  | bytes => "bytes"

def ofName? (name : String) : Option ScalarType := all.find? fun type => type.name == name

/-- Text and byte strings, whose payload has a length in front. -/
def isLengthDelimited : ScalarType → Bool
  | string | bytes => true
  | _ => false

/-- Maps are keyed by whole numbers, booleans and text. -/
def isMapKey : ScalarType → Bool
  | float | double | bytes => false
  | _ => true

end ScalarType

/-- How a single value is written. -/
inductive Kind where
  | scalar (type : ScalarType)
  | enum
  deriving DecidableEq, Repr, Inhabited

namespace Kind

def name : Kind → String
  | scalar type => type.name
  | enum => "enum"

def wireType : Kind → WireType
  | scalar .fixed32 | scalar .sfixed32 | scalar .float => .fixed32
  | scalar .fixed64 | scalar .sfixed64 | scalar .double => .fixed64
  | scalar .string | scalar .bytes => .lengthDelimited
  | _ => .varint

/-- Bytes per value when every value takes the same, `none` for varints and lengths. -/
def width? (kind : Kind) : Option Nat :=
  match kind.wireType with
  | .fixed32 => some 4
  | .fixed64 => some 8
  | _ => none

def isLengthDelimited : Kind → Bool
  | scalar type => type.isLengthDelimited
  | enum => false

end Kind

inductive Scalar where
  | int32 (v : Int32)
  | int64 (v : Int64)
  | uint32 (v : UInt32)
  | uint64 (v : UInt64)
  | sint32 (v : Int32)
  | sint64 (v : Int64)
  | fixed32 (v : UInt32)
  | fixed64 (v : UInt64)
  | sfixed32 (v : Int32)
  | sfixed64 (v : Int64)
  | float (bits : UInt32)
  | double (bits : UInt64)
  | bool (v : Bool)
  | string (v : String)
  | bytes (v : Bytes)
  | enum (number : Int32)
  deriving DecidableEq, Repr, Inhabited

namespace Scalar

def kind : Scalar → Kind
  | int32 _ => .scalar .int32
  | int64 _ => .scalar .int64
  | uint32 _ => .scalar .uint32
  | uint64 _ => .scalar .uint64
  | sint32 _ => .scalar .sint32
  | sint64 _ => .scalar .sint64
  | fixed32 _ => .scalar .fixed32
  | fixed64 _ => .scalar .fixed64
  | sfixed32 _ => .scalar .sfixed32
  | sfixed64 _ => .scalar .sfixed64
  | float _ => .scalar .float
  | double _ => .scalar .double
  | bool _ => .scalar .bool
  | string _ => .scalar .string
  | bytes _ => .scalar .bytes
  | enum _ => .enum

/-- Zero, false, the empty text or the empty byte string. -/
def zero : Kind → Scalar
  | .scalar .int32 => int32 0
  | .scalar .int64 => int64 0
  | .scalar .uint32 => uint32 0
  | .scalar .uint64 => uint64 0
  | .scalar .sint32 => sint32 0
  | .scalar .sint64 => sint64 0
  | .scalar .fixed32 => fixed32 0
  | .scalar .fixed64 => fixed64 0
  | .scalar .sfixed32 => sfixed32 0
  | .scalar .sfixed64 => sfixed64 0
  | .scalar .float => float 0
  | .scalar .double => double 0
  | .scalar .bool => bool false
  | .scalar .string => string ""
  | .scalar .bytes => bytes []
  | .enum => enum 0

/-- Whether the value is the zero of its kind; a negative float zero is not. -/
def isZero (value : Scalar) : Bool := value == zero value.kind

@[simp] theorem kind_zero (kind : Kind) : (zero kind).kind = kind := by
  cases kind with
  | enum => rfl
  | scalar type => cases type <;> rfl

/-- A 32-bit number is written as the 64-bit number of the same value. -/
def extended (v : Int32) : Nat := v.toInt64.toUInt64.toNat

/-- The payload, without a tag. -/
def encode : Scalar → Bytes
  | int32 v | enum v => Varint.encode (extended v)
  | int64 v => Varint.encode v.toUInt64.toNat
  | uint32 v => Varint.encode v.toNat
  | uint64 v => Varint.encode v.toNat
  | sint32 v => Varint.encode (ZigZag.encode32 v).toNat
  | sint64 v => Varint.encode (ZigZag.encode64 v).toNat
  | fixed32 v | float v => Fixed.encode 4 v.toNat
  | fixed64 v | double v => Fixed.encode 8 v.toNat
  | sfixed32 v => Fixed.encode 4 v.toUInt32.toNat
  | sfixed64 v => Fixed.encode 8 v.toUInt64.toNat
  | bool v => [if v then 1 else 0]
  | string v => Frame.encode (Bytes.ofText v)
  | bytes v => Frame.encode v

/-- Bytes of the payload. -/
def size : Scalar → Nat
  | int32 v | enum v => Varint.size (extended v)
  | int64 v => Varint.size v.toUInt64.toNat
  | uint32 v => Varint.size v.toNat
  | uint64 v => Varint.size v.toNat
  | sint32 v => Varint.size (ZigZag.encode32 v).toNat
  | sint64 v => Varint.size (ZigZag.encode64 v).toNat
  | fixed32 _ | sfixed32 _ | float _ => 4
  | fixed64 _ | sfixed64 _ | double _ => 8
  | bool _ => 1
  | string v => Frame.size v.utf8ByteSize
  | bytes v => Frame.size v.length

/-- The payloads of a run of values, back to back. -/
def encodeAll (values : List Scalar) : Bytes := values.flatMap encode

/-- Bytes of a run of values. -/
def sizeAll (values : List Scalar) : Nat := total size values

/-- Equality of values; floats compare as numbers, so a NaN differs from itself. -/
def equal : Scalar → Scalar → Bool
  | float a, float b => Binary.Format.single.equal a.toNat b.toNat
  | double a, double b => Binary.Format.double.equal a.toNat b.toNat
  | a, b => a == b

end Scalar

end Protobuf
