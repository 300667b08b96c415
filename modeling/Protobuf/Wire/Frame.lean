/-
  Protobuf.Wire.Frame — a payload behind its length.
-/

import Protobuf.Wire.Varint

namespace Protobuf.Frame

def encode (payload : Bytes) : Bytes := Varint.encode payload.length ++ payload

/-- The payload of the frame at the front of `bytes`, and the bytes the whole frame takes. -/
def decode (bytes : Bytes) : Except DecodeError (Bytes × Nat) := do
  let (len, start) ← Varint.decode bytes
  let remaining := bytes.length - start
  if remaining < len then
    throw (.lengthOverrun len remaining)
  return ((bytes.drop start).take len, start + len)

/-- Bytes a payload of `len` bytes takes with its length in front. -/
def size (len : Nat) : Nat := Varint.size len + len

end Protobuf.Frame
