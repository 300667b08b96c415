/-
  Protobuf.Hash.Stream — values as the bytes that are hashed for them.

  Equal values give equal streams: both float zeros give that of the positive one, and a map adds up
  a hash for each entry, so that the order of entries does not matter.
-/

import Protobuf.Hash.SipHash
import Protobuf.Scalar
import Protobuf.Wire.Fixed

namespace Protobuf.Hash

def byte (b : UInt8) : Bytes := [b]

def word32 (n : UInt32) : Bytes := Fixed.encode 4 n.toNat

def word64 (n : UInt64) : Bytes := Fixed.encode 8 n.toNat

def length (n : Nat) : Bytes := word64 (UInt64.ofNat n)

/-- The bytes of a text, ended by one that no text holds. -/
def text (s : String) : Bytes := Bytes.ofText s ++ [0xff]

def bytes (b : Bytes) : Bytes := length b.length ++ b

/-- A float's word, where both zeros are the positive one. -/
def float (format : Binary.Format) (bits : Nat) : Bytes :=
  Fixed.encode ((1 + format.fractionBits + format.exponentBits) / 8) (if format.isZero bits then 0 else bits)

def scalar : Scalar → Bytes
  | .int32 v | .sint32 v | .sfixed32 v | .enum v => word32 v.toUInt32
  | .int64 v | .sint64 v | .sfixed64 v => word64 v.toUInt64
  | .uint32 v | .fixed32 v => word32 v
  | .uint64 v | .fixed64 v => word64 v
  | .float bits => float .single bits.toNat
  | .double bits => float .double bits.toNat
  | .bool v => byte (if v then 1 else 0)
  | .string v => text v
  | .bytes v => bytes v

/-- How many there are, then each. -/
def list (streams : List Bytes) : Bytes := length streams.length ++ streams.flatten

def option : Option Bytes → Bytes
  | some stream => byte 1 ++ stream
  | none => byte 0

/-- How many entries there are, and the sum of their hashes. -/
def map (entries : List Bytes) : Bytes :=
  length entries.length ++ word64 ((entries.map (SipHash.hash 0 0)).foldl (· + ·) 0)

end Protobuf.Hash
