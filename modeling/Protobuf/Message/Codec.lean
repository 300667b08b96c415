/-
  Protobuf.Message.Codec — whole messages from and to bytes.

  `decode` wants every required field set, `mergeBytes` does not. Framed messages have their length
  in front, for streams of them.
-/

import Protobuf.Message.Encode
import Protobuf.Message.Merge
import Protobuf.Message.Required

namespace Protobuf.Message

open Schema

variable (table : TypeTable) (type : MessageType)

/-- Reads bytes into a message; what was read before a failure stays. -/
def mergeBytes (m : Message) (bytes : Bytes) : Message × Option DecodeError :=
  let out := m.merge table type (.ofBytes bytes)
  (out.message, out.error)

/-- Like `mergeBytes`, with room for `maxDepth` levels of sub-messages and groups. -/
def mergeWithin (maxDepth : Nat) (m : Message) (bytes : Bytes) : Message × Option DecodeError :=
  let out := m.merge table type (.ofBytesWithin bytes maxDepth)
  (out.message, out.error)

/-- A message with all required fields. -/
def decode (bytes : Bytes) : Except DecodeError Message :=
  match mergeBytes table type (new type) bytes with
  | (_, some e) => .error e
  | (m, none) =>
    if m.isComplete table type then .ok m else .error (.missingRequiredFields type.fullName)

/-- The framed message at the front of `bytes`, and how many bytes it takes. -/
def decodeFramed (bytes : Bytes) : Except DecodeError (Message × Nat) := do
  let (payload, consumed) ← Frame.decode bytes
  return (← decode table type payload, consumed)

/-- The message in a stream, which may itself fail. -/
def decodeStream (stream : Except String Bytes) : Except ReadError Message :=
  match stream with
  | .error cause => .error (.stream cause)
  | .ok bytes => (decode table type bytes).mapError .decode

/-- The message behind its length. -/
def encodeFramed (m : Message) : Bytes :=
  let measured := m.measure table type
  lengthBytes measured.cachedSize ++ measured.encodeRaw table type

/-- The bytes of a message that has all required fields. -/
def tryEncode (m : Message) : Except EncodeError Bytes :=
  if m.isComplete table type then .ok (m.encode table type) else .error (.missingRequiredFields type.fullName)

end Protobuf.Message
