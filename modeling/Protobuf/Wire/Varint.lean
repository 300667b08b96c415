/-
  Protobuf.Wire.Varint — numbers below 2^64 as groups of seven bits, lowest group first.

  Every byte but the last has its high bit set. Reading takes at most ten bytes and accepts
  over-long forms; a tenth byte can only carry bit 63, so one above 1 is malformed.
-/

import Protobuf.Bytes
import Protobuf.Error

namespace Protobuf.Varint

def encode (n : Nat) : Bytes :=
  if n < 128 then [n.toUInt8] else (n % 128 + 128).toUInt8 :: encode (n / 128)
termination_by n
decreasing_by omega

/-- Bytes that `encode n` takes: one for each seven bits begun. -/
def size (n : Nat) : Nat := n.log2 / 7 + 1

/-- Reads on after `count` bytes whose groups add up to `value`. -/
def decodeFrom (count value : Nat) : Bytes → Except DecodeError (Nat × Nat)
  | [] => .error .truncated
  | byte :: rest =>
    if count = 9 ∧ 1 < byte.toNat then .error .malformedVarint
    else
      let value := value + byte.toNat % 128 * Nat.pow 128 count
      if byte.toNat < 128 then .ok (value, count + 1) else decodeFrom (count + 1) value rest

/-- The number at the front of `bytes` and how many bytes it takes. -/
def decode (bytes : Bytes) : Except DecodeError (Nat × Nat) := decodeFrom 0 0 bytes

theorem lt_of_decodeFrom {bytes : Bytes} {count value v n : Nat}
    (h : decodeFrom count value bytes = .ok (v, n)) : count < n ∧ n ≤ count + bytes.length := by
  induction bytes generalizing count value with
  | nil => simp [decodeFrom] at h
  | cons byte rest ih =>
    simp only [decodeFrom] at h
    split at h
    · cases h
    · split at h
      · simp only [Except.ok.injEq, Prod.mk.injEq] at h
        simp only [List.length_cons]
        omega
      · have := ih h
        simp only [List.length_cons]
        omega

/-- A number read takes at least one byte, and no more than there are. -/
theorem pos_of_decode {bytes : Bytes} {v n : Nat} (h : decode bytes = .ok (v, n)) :
    0 < n ∧ n ≤ bytes.length := by
  have := lt_of_decodeFrom h
  omega

end Protobuf.Varint
