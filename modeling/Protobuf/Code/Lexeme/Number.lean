/-
  Protobuf.Code.Lexeme.Number — numbers in program text.

  Digits may have underscores among them, and a name directly behind a number is its suffix. A point
  belongs to a number unless a name or another point follows it; an exponent needs a digit.
-/

import Protobuf.Code.Lexeme.Basic

namespace Protobuf.Code.Lexeme

/-- The value of a hexadecimal digit. -/
def digitValue? (c : Char) : Option Nat :=
  if c.isDigit then some (c.toNat - '0'.toNat)
  else if 'a' ≤ c && c ≤ 'f' then some (c.toNat - 'a'.toNat + 10)
  else if 'A' ≤ c && c ≤ 'F' then some (c.toNat - 'A'.toNat + 10)
  else none

/-- Behind digits of a base. A decimal digit that is too large is a fault, a letter ends the digits. -/
def behindDigits? (base : Nat) : (any : Bool) → List Char → Option (List Char)
  | any, [] => if any then some [] else none
  | any, c :: rest =>
    if c = '_' then if any || base ≠ 10 then behindDigits? base any rest else none
    else
      match digitValue? c with
      | some digit =>
        if digit < base then behindDigits? base true rest
        else if c.isDigit || !any then none
        else some (c :: rest)
      | none => if any then some (c :: rest) else none

/-- A number ends at its suffix, and no other letter or mark of a name follows. -/
def endNumber? (behind : List Char) : Option (List Char) :=
  let rest := behindSuffix behind
  if rest.head?.any Text.isIdentifierContinue then none else some rest

def behindInteger? : List Char → Option (List Char)
  | '0' :: 'x' :: rest => (behindDigits? 16 false rest).bind endNumber?
  | '0' :: 'o' :: rest => (behindDigits? 8 false rest).bind endNumber?
  | '0' :: 'b' :: rest => (behindDigits? 2 false rest).bind endNumber?
  | text => (behindDigits? 10 false text).bind endNumber?

/-- Behind the digits of an exponent, which may have a sign. -/
def behindExponent? : (sign any : Bool) → List Char → Option (List Char)
  | _, any, [] => if any then some [] else none
  | sign, any, c :: rest =>
    if c = '+' ∨ c = '-' then
      if any then some (c :: rest) else if sign then none else behindExponent? true any rest
    else if c.isDigit then behindExponent? sign true rest
    else if c = '_' then behindExponent? sign any rest
    else if any then some (c :: rest)
    else none

/-- Behind digits with a point or an exponent among them. -/
def behindFraction? : (point : Bool) → List Char → Option (List Char)
  | point, [] => if point then some [] else none
  | point, c :: rest =>
    if c.isDigit || c == '_' then behindFraction? point rest
    else if c = '.' then
      if point then some (c :: rest)
      else if rest.head?.any fun d => d == '.' || isNameStart d then none
      else behindFraction? true rest
    else if c = 'e' ∨ c = 'E' then
      match behindExponent? false false rest with
      | some rest => some rest
      | none => if point then some (c :: rest) else none
    else if point then some (c :: rest)
    else none

/-- Behind the number at the front. -/
def behindNumber? (text : List Char) : Option (List Char) :=
  if text.head?.any Char.isDigit then
    match (behindFraction? false text).bind endNumber? with
    | some rest => some rest
    | none => behindInteger? text
  else none

end Protobuf.Code.Lexeme
