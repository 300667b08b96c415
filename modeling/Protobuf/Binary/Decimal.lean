/-
  Protobuf.Binary.Decimal — decimal numbers: the shortest one for a word, and its texts.

  `Format.shortest` picks, among the decimals that round to a word, one with the fewest digits,
  of those the nearest, and of two equally near the larger. Two layouts print it: `plain` never
  uses an exponent, `general` always shows a point or an exponent and leaves positional notation
  below 10^-4 and from 10^16 on.
-/

import Protobuf.Binary.Format

namespace Protobuf.Binary

/-- The number `digits · 10^exponent`. -/
structure Decimal where
  digits : Nat
  exponent : Int
  deriving DecidableEq, Repr, Inhabited

def digitCount (n : Nat) : Nat := (Nat.toDigits 10 n).length

namespace Decimal

/-- Trailing zeros moved into the exponent, at most `fuel` of them. -/
def normalize (fuel : Nat) (d : Decimal) : Decimal :=
  match fuel with
  | 0 => d
  | fuel + 1 =>
    if d.digits ≠ 0 ∧ d.digits % 10 = 0 then normalize fuel ⟨d.digits / 10, d.exponent + 1⟩ else d

/-- The power of ten of the first digit. -/
def leading (d : Decimal) : Int := digitCount d.digits - 1 + d.exponent

/-- Whole part and fraction digits, either may be empty. -/
def split (d : Decimal) : String × String :=
  let digits := Nat.repr d.digits
  if 0 ≤ d.exponent then
    (if d.digits = 0 then "0" else digits ++ "".pushn '0' d.exponent.toNat, "")
  else
    let places := (-d.exponent).toNat
    let padded := ("".pushn '0' (places + 1 - digits.length) ++ digits).toList
    (String.ofList (padded.take (padded.length - places)), String.ofList (padded.drop (padded.length - places)))

/-- Positional, without a point when whole. -/
def plain (d : Decimal) : String :=
  let (whole, fraction) := d.split
  if fraction.isEmpty then whole else whole ++ "." ++ fraction

/-- One digit, the others after a point, then the exponent. -/
def scientific (d : Decimal) : String :=
  let digits := (Nat.repr d.digits).toList
  let rest := digits.drop 1
  let point := if rest.isEmpty then "" else "."
  String.ofList (digits.take 1) ++ point ++ String.ofList rest ++ "e" ++ toString d.leading

/-- Positional with a fraction from 10^-4 up to 10^16, else with an exponent. -/
def general (d : Decimal) : String :=
  if d.digits ≠ 0 ∧ (d.leading < -4 ∨ 16 ≤ d.leading) then d.scientific
  else
    let (whole, fraction) := d.split
    whole ++ "." ++ (if fraction.isEmpty then "0" else fraction)

end Decimal

namespace Format

/-- The power of ten just at or below `num / den`, for a positive quotient. -/
def decimalExponent (num den : Nat) : Int :=
  if den ≤ num then digitCount (num / den) - 1 else -(digitCount ((den + num - 1) / num - 1) : Int)

/-- A candidate with exponent `k` for the value `4 · value` in quarter units, if the decimals that
    round to the word meet that grid: the nearer neighbour, the larger when both are equally near. -/
def onGrid (one value low high : Nat) (ends : Bool) (k : Int) : Option Nat :=
  let up := Nat.pow 10 k.toNat
  let down := Nat.pow 10 (-k).toNat
  let inside (c : Nat) : Bool :=
    let x := c * up * one
    if ends then low * down ≤ x && x ≤ high * down else low * down < x && x < high * down
  let c := value * down / (one * up)
  match inside c, inside (c + 1) with
  | true, true => if value * down - c * up * one < (c + 1) * up * one - value * down then some c else some (c + 1)
  | true, false => some c
  | false, true => some (c + 1)
  | false, false => none

/-- The fewest digits that read back as the finite word `bits`. -/
def shortest (f : Format) (bits : Nat) : Decimal :=
  let v := f.units bits
  if v = 0 then ⟨0, 0⟩
  else
    let one := 4 * Nat.pow 2 f.unitBits
    let gap := Nat.pow 2 (f.lastPlace bits)
    let narrow := f.fraction bits = 0 ∧ 1 < f.exponent bits
    let low := if narrow then 4 * v - gap else 4 * v - 2 * gap
    let high := 4 * v + 2 * gap
    let ends := f.significand bits % 2 == 0
    let first := decimalExponent (4 * v) one
    let grids := (List.range 17).map fun (i : Nat) => first - (i : Int)
    match grids.findSome? fun k => (onGrid one (4 * v) low high ends k).map fun c => (c, k) with
    | some (c, k) => Decimal.normalize 400 ⟨c, k⟩
    | none => ⟨v, -(f.unitBits : Int)⟩

/-- A word's text in the layout `layout` of its magnitude. -/
def text (f : Format) (layout : Decimal → String) (bits : Nat) : String :=
  if f.isNaN bits then "NaN"
  else
    let sign := if f.isNegative bits then "-" else ""
    sign ++ if f.isInfinite bits then "inf" else layout (f.shortest bits)

end Format

end Protobuf.Binary
