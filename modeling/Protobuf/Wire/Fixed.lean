/-
  Protobuf.Wire.Fixed — words of four and eight bytes, lowest byte first.
-/

import Protobuf.Bytes
import Protobuf.Error

namespace Protobuf.Fixed

/-- The lowest `width` bytes of `n`, lowest first. -/
def encode : (width : Nat) → (n : Nat) → Bytes
  | 0, _ => []
  | width + 1, n => n.toUInt8 :: encode width (n / 256)

/-- The number whose bytes are these, lowest first. -/
def value : Bytes → Nat
  | [] => 0
  | byte :: rest => byte.toNat + 256 * value rest

/-- The number in the first `width` bytes. -/
def decode (width : Nat) (bytes : Bytes) : Except DecodeError Nat :=
  if width ≤ bytes.length then .ok (value (bytes.take width)) else .error .truncated

@[simp] theorem length_encode (width n : Nat) : (encode width n).length = width := by
  induction width generalizing n with
  | zero => rfl
  | succ width ih => simp [encode, ih]

theorem value_encode (width n : Nat) : value (encode width n) = n % Nat.pow 256 width := by
  induction width generalizing n with
  | zero => simp [encode, value, Nat.mod_one]
  | succ width ih =>
    have step : Nat.pow 256 (width + 1) = 256 * Nat.pow 256 width := Nat.mul_comm ..
    rw [encode, value, ih, step, Nat.mod_mul]
    simp

end Protobuf.Fixed
