/-
  Protobuf.Schema.Default — default values as a schema spells them.

  Whole numbers are decimal, `0x` hexadecimal or `0` octal; floats are numerals, with trailing
  `f`s ignored, or `inf`, `-inf`, `nan`; byte strings are escaped; texts stand for themselves.
  A single-precision default is read in double precision first and then rounded.
-/

import Protobuf.Binary.Numeral
import Protobuf.Scalar
import Protobuf.Text.Escaped
import Protobuf.Text.Integer

namespace Protobuf.Schema

inductive DefaultError where
  | integer (cause : Text.IntegerError)
  | numeral (cause : Binary.NumeralError)
  | escape (cause : Text.EscapeError)
  | outOfRange (bits : Nat)
  | notBoolean
  | unknownValue
  | notScalar
  deriving DecidableEq, Repr

def DefaultError.message : DefaultError → String
  | integer cause => cause.message
  | numeral cause => cause.message
  | escape cause => cause.message
  | outOfRange bits => "out of range for a " ++ Nat.repr bits ++ "-bit integer"
  | notBoolean => "expected `true` or `false`"
  | unknownValue => "no enum value with that name"
  | notScalar => "only scalar and enum fields can declare defaults"

namespace Default

/-- A number below 2^64. -/
def readUnsigned (text : String) : Except DefaultError Nat :=
  (Text.Integer.readPrefixed 0x10000000000000000 text.toList).mapError .integer

/-- A number from -2^63 up to 2^63. -/
def readSigned (text : String) : Except DefaultError Int :=
  match text.toList with
  | '-' :: rest => do
    let n ← readUnsigned (String.ofList rest)
    if 0x8000000000000000 < n then throw (.outOfRange 64)
    return -(n : Int)
  | _ => do
    let n ← readUnsigned text
    if 0x8000000000000000 ≤ n then throw (.outOfRange 64)
    return n

def readSigned32 (text : String) : Except DefaultError Int32 := do
  let n ← readSigned text
  if n < -0x80000000 ∨ 0x80000000 ≤ n then throw (.outOfRange 32)
  return Int32.ofInt n

def readSigned64 (text : String) : Except DefaultError Int64 := do return Int64.ofInt (← readSigned text)

def readUnsigned32 (text : String) : Except DefaultError UInt32 := do
  let n ← readUnsigned text
  if 0x100000000 ≤ n then throw (.outOfRange 32)
  return n.toUInt32

def readUnsigned64 (text : String) : Except DefaultError UInt64 := do return (← readUnsigned text).toUInt64

/-- A text without the `f`s at its end. -/
def dropSuffix (text : List Char) : List Char :=
  (text.reverse.dropWhile fun c => c == 'f' || c == 'F').reverse

/-- A double-precision word. -/
def readDouble (text : String) : Except DefaultError Nat :=
  let format := Binary.Format.double
  match text with
  | "inf" => .ok format.infinity
  | "-inf" => .ok (format.infinity + format.signBit)
  | "nan" | "-nan" => .ok format.nan
  | _ => (Binary.Numeral.read format (dropSuffix text.toList)).mapError .numeral

def readBool : String → Except DefaultError Bool
  | "true" => .ok true
  | "false" => .ok false
  | _ => .error .notBoolean

def read (type : ScalarType) (text : String) : Except DefaultError Scalar :=
  match type with
  | .int32 => .int32 <$> readSigned32 text
  | .sint32 => .sint32 <$> readSigned32 text
  | .sfixed32 => .sfixed32 <$> readSigned32 text
  | .int64 => .int64 <$> readSigned64 text
  | .sint64 => .sint64 <$> readSigned64 text
  | .sfixed64 => .sfixed64 <$> readSigned64 text
  | .uint32 => .uint32 <$> readUnsigned32 text
  | .fixed32 => .fixed32 <$> readUnsigned32 text
  | .uint64 => .uint64 <$> readUnsigned64 text
  | .fixed64 => .fixed64 <$> readUnsigned64 text
  | .float => (fun word => .float (Binary.Format.double.convert .single word).toUInt32) <$> readDouble text
  | .double => (fun word => .double word.toUInt64) <$> readDouble text
  | .bool => .bool <$> readBool text
  | .string => .ok (.string text)
  | .bytes => .bytes <$> (Text.Escaped.decode (Bytes.ofText text)).mapError .escape

end Default

end Protobuf.Schema
