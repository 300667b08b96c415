/-
  Protobuf.Binary.Numeral — floating-point numbers read from text.

  A numeral is a sign, digits with an optional point, and an optional exponent; or the name of an
  infinity or of NaN in any case. Its value is the nearest word, computed from the exact ratio.
  Exponents far beyond the format are settled without computing the power.
-/

import Protobuf.Binary.Decimal

namespace Protobuf.Binary

inductive NumeralError where
  | empty
  | invalid
  deriving DecidableEq, Repr

def NumeralError.message : NumeralError → String
  | empty => "cannot parse float from empty string"
  | invalid => "invalid float literal"

namespace Decimal

/-- The magnitude of a word nearest to a decimal. -/
def round (f : Format) (d : Decimal) : Nat :=
  if d.digits = 0 ∨ d.leading < -400 then 0
  else if 400 < d.leading then f.infinity
  else f.ofRatio (d.digits * Nat.pow 10 d.exponent.toNat) (Nat.pow 10 (-d.exponent).toNat)

end Decimal

namespace Numeral

def ofDigits (digits : List Char) : Nat := digits.foldl (fun n c => n * 10 + (c.toNat - '0'.toNat)) 0

/-- The exponent behind the digits, with nothing after it. -/
def exponent : List Char → Option Int
  | [] => some 0
  | c :: rest =>
    if c = 'e' ∨ c = 'E' then
      let (negative, digits) :=
        match rest with
        | '-' :: digits => (true, digits)
        | '+' :: digits => (false, digits)
        | digits => (false, digits)
      if digits.isEmpty || !digits.all Char.isDigit then none
      else some (if negative then -(ofDigits digits : Int) else ofDigits digits)
    else none

/-- Digits with an optional point, then the exponent. -/
def decimal (text : List Char) : Option Decimal :=
  let whole := text.takeWhile Char.isDigit
  let rest := text.dropWhile Char.isDigit
  let (fraction, rest) :=
    match rest with
    | '.' :: rest => (rest.takeWhile Char.isDigit, rest.dropWhile Char.isDigit)
    | rest => ([], rest)
  if whole.isEmpty && fraction.isEmpty then none
  else (exponent rest).map fun e => ⟨ofDigits (whole ++ fraction), e - fraction.length⟩

/-- The word for a text without a sign. -/
def magnitude (f : Format) (text : List Char) : Option Nat :=
  let name := String.ofList (text.map Char.toLower)
  if name = "inf" ∨ name = "infinity" then some f.infinity
  else if name = "nan" then some f.nan
  else (decimal text).map (Decimal.round f)

def read (f : Format) (text : List Char) : Except NumeralError Nat :=
  let (negative, digits) :=
    match text with
    | '-' :: rest => (true, rest)
    | '+' :: rest => (false, rest)
    | rest => (false, rest)
  if text.isEmpty then .error .empty
  else
    match magnitude f digits with
    | some word => .ok (if negative then word + f.signBit else word)
    | none => .error .invalid

end Numeral

end Protobuf.Binary
