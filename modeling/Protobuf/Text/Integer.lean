/-
  Protobuf.Text.Integer — whole numbers read from text.

  A text is read from the left and refused at its first fault: a character that is no digit of the
  base, or the digit that takes the number past the bound. One plus sign may stand in front.
-/

namespace Protobuf.Text

inductive IntegerError where
  | empty
  | invalidDigit
  | tooLarge
  deriving DecidableEq, Repr

def IntegerError.message : IntegerError → String
  | empty => "cannot parse integer from empty string"
  | invalidDigit => "invalid digit found in string"
  | tooLarge => "number too large to fit in target type"

namespace Integer

/-- The value of a digit in a base up to sixteen. -/
def digit? (base : Nat) (c : Char) : Option Nat :=
  let value :=
    if '0' ≤ c ∧ c ≤ '9' then some (c.toNat - '0'.toNat)
    else if 'a' ≤ c ∧ c ≤ 'f' then some (c.toNat - 'a'.toNat + 10)
    else if 'A' ≤ c ∧ c ≤ 'F' then some (c.toNat - 'A'.toNat + 10)
    else none
  value.filter (· < base)

/-- Reads on behind digits of value `n`, staying below `bound`. -/
def readDigits (base bound n : Nat) : List Char → Except IntegerError Nat
  | [] => .ok n
  | c :: rest =>
    match digit? base c with
    | none => .error .invalidDigit
    | some d => if n * base + d < bound then readDigits base bound (n * base + d) rest else .error .tooLarge

/-- A number below `bound` in the given base. -/
def read (base bound : Nat) : List Char → Except IntegerError Nat
  | [] => .error .empty
  | ['+'] => .error .invalidDigit
  | '+' :: digits => readDigits base bound 0 digits
  | digits => readDigits base bound 0 digits

/-- A number below `bound`: hexadecimal behind `0x`, octal behind another `0`, else decimal. -/
def readPrefixed (bound : Nat) : List Char → Except IntegerError Nat
  | '0' :: 'x' :: digits | '0' :: 'X' :: digits => read 16 bound digits
  | '0' :: c :: rest => read 8 bound (c :: rest)
  | digits => read 10 bound digits

end Integer

end Protobuf.Text
