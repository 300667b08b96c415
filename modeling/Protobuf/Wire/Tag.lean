/-
  Protobuf.Wire.Tag — field tags: a field number and the form of the payload after it.

  A tag is a number below 2^32: eight times the field number plus the code of the wire type.
  Field numbers run from 1 to 2^29 - 1 without 19000 to 19999.
-/

import Protobuf.Wire.Varint

namespace Protobuf

inductive WireType where
  | varint
  | fixed64
  | lengthDelimited
  | startGroup
  | endGroup
  | fixed32
  deriving DecidableEq, Repr, Inhabited

namespace WireType

def code : WireType → Nat
  | varint => 0
  | fixed64 => 1
  | lengthDelimited => 2
  | startGroup => 3
  | endGroup => 4
  | fixed32 => 5

def ofCode? : Nat → Option WireType
  | 0 => some varint
  | 1 => some fixed64
  | 2 => some lengthDelimited
  | 3 => some startGroup
  | 4 => some endGroup
  | 5 => some fixed32
  | _ => none

def ofCode (code : Nat) : Except DecodeError WireType :=
  match ofCode? code with
  | some wireType => .ok wireType
  | none => .error (.invalidWireType code)

@[simp] theorem ofCode?_code (w : WireType) : ofCode? w.code = some w := by cases w <;> rfl

theorem code_lt (w : WireType) : w.code < 8 := by cases w <;> decide

end WireType

abbrev Tag := Nat

namespace Tag

/-- The tag of a field number; bits of the number above the 29th are lost. -/
def make (number : Nat) (wireType : WireType) : Tag := (number * 8 + wireType.code) % 0x100000000

def number (tag : Tag) : Nat := tag / 8

def wireCode (tag : Tag) : Nat := tag % 8

def wireType? (tag : Tag) : Option WireType := WireType.ofCode? tag.wireCode

def wireType (tag : Tag) : Except DecodeError WireType := WireType.ofCode tag.wireCode

/-- Bytes a tag of this field number takes, whatever its wire type. -/
def size (number : Nat) : Nat := Varint.size (make number .varint)

def encode (tag : Tag) : Bytes := Varint.encode tag

end Tag

namespace FieldNumber

def max : Nat := 0x1fffffff

def inRange (number : Int) : Bool := 1 ≤ number && number ≤ max

/-- Numbers kept for the protocol's own use. -/
def isReserved (number : Nat) : Bool := 19000 ≤ number && number ≤ 19999

end FieldNumber

end Protobuf
