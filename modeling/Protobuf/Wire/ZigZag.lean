/-
  Protobuf.Wire.ZigZag — signed numbers interleaved with unsigned ones.

  0, -1, 1, -2, 2, ... are written 0, 1, 2, 3, 4, ..., so a number of small magnitude is a
  small code whatever its sign.
-/

namespace Protobuf.ZigZag

/-- The place of `n` in 0, -1, 1, -2, 2, ... -/
def code (n : Int) : Nat := if n < 0 then (-2 * n - 1).toNat else (2 * n).toNat

/-- The number at place `c` in 0, -1, 1, -2, 2, ... -/
def number (c : Nat) : Int := if c % 2 = 0 then (c / 2 : Nat) else -(c / 2 : Nat) - 1

theorem number_code (n : Int) : number (code n) = n := by
  unfold code number
  split <;> split <;> omega

def encode32 (v : Int32) : UInt32 := UInt32.ofNat (code v.toInt)

def decode32 (w : UInt32) : Int32 := Int32.ofInt (number w.toNat)

def encode64 (v : Int64) : UInt64 := UInt64.ofNat (code v.toInt)

def decode64 (w : UInt64) : Int64 := Int64.ofInt (number w.toNat)

end Protobuf.ZigZag
