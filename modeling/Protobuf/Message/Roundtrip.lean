/-
  Protobuf.Message.Roundtrip — checking that a message survives writing and reading.
-/

import Protobuf.Message.Codec
import Protobuf.Message.Equality

namespace Protobuf.Message

open Schema

/-- Why a message did not survive. -/
inductive RoundtripFault where
  | wrongSize
  | undecodable (cause : DecodeError)
  | differs
  | bytesDiffer
  deriving DecidableEq, Repr

/-- What is reported on the way, and the bytes. -/
structure RoundtripReport where
  lines : List String
  bytes : Bytes
  deriving DecidableEq, Repr

variable (table : TypeTable) (type : MessageType)

/-- The message is as long as measured, and reads back equal to itself. -/
def roundtrip (m : Message) : Except RoundtripFault RoundtripReport := do
  let bytes := m.encode table type
  if m.size table type ≠ bytes.length then throw .wrongSize
  let (back, error) := mergeBytes table type (new type) bytes
  if let some e := error then throw (.undecodable e)
  if !back.equal m then throw .differs
  return ⟨["Encoded " ++ type.fullName ++ " (" ++ Nat.repr bytes.length ++ " bytes)"], bytes⟩

/-- And what is read back is written the same again. -/
def roundtripBytes (m : Message) : Except RoundtripFault RoundtripReport := do
  let report ← roundtrip table type m
  let back ← (decode table type report.bytes).mapError .undecodable
  if back.encode table type ≠ report.bytes then throw .bytesDiffer
  return report

end Protobuf.Message
