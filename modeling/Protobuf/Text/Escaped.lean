/-
  Protobuf.Text.Escaped — byte strings written with backslash escapes.

  A backslash and a letter stand for a control character, a backslash and up to three octal digits
  or `\x` and up to two hexadecimal digits for a byte by number. Everything else stands for its
  own UTF-8 bytes. `decode` reports the first escape that means nothing.
-/

import Protobuf.Bytes

namespace Protobuf.Text

inductive EscapeError where
  | trailingBackslash
  | octalOutOfRange
  | noHexDigits
  | unknown (escape : UInt8)
  deriving DecidableEq, Repr

def EscapeError.message : EscapeError → String
  | trailingBackslash => "trailing backslash"
  | octalOutOfRange => "octal escape out of range"
  | noHexDigits => "`\\x` escape without hex digits"
  | unknown escape => "unknown escape `\\" ++ (Char.ofNat escape.toNat).toString ++ "`"

namespace Escaped

/-- What a backslash and one character stand for. -/
def named? (c : Char) : Option UInt8 :=
  match c with
  | 'n' => some 0x0A
  | 'r' => some 0x0D
  | 't' => some 0x09
  | 'a' => some 0x07
  | 'b' => some 0x08
  | 'f' => some 0x0C
  | 'v' => some 0x0B
  | '\\' => some 0x5C
  | '\x27' => some 0x27
  | '"' => some 0x22
  | '?' => some 0x3F
  | _ => none

def octal? (b : UInt8) : Option Nat :=
  if 0x30 ≤ b ∧ b ≤ 0x37 then some (b.toNat - 0x30) else none

def hex? (b : UInt8) : Option Nat :=
  if 0x30 ≤ b ∧ b ≤ 0x39 then some (b.toNat - 0x30)
  else if 0x61 ≤ b ∧ b ≤ 0x66 then some (b.toNat - 0x61 + 10)
  else if 0x41 ≤ b ∧ b ≤ 0x46 then some (b.toNat - 0x41 + 10)
  else none

/-- The digits at the front, at most `count` of them. -/
def digits (digit? : UInt8 → Option Nat) : Nat → Bytes → List Nat
  | 0, _ => []
  | _, [] => []
  | count + 1, b :: rest =>
    match digit? b with
    | some d => d :: digits digit? count rest
    | none => []

def number (base : Nat) (ds : List Nat) : Nat := ds.foldl (fun n d => n * base + d) 0

/-- The byte that the escape at the front stands for, and the length of its text after the backslash. -/
def escape : Bytes → Except EscapeError (UInt8 × Nat)
  | [] => .error .trailingBackslash
  | b :: rest =>
    match named? (Char.ofNat b.toNat) with
    | some byte => .ok (byte, 1)
    | none =>
      if (octal? b).isSome then
        let ds := digits octal? 3 (b :: rest)
        let value := number 8 ds
        if value < 256 then .ok (value.toUInt8, ds.length) else .error .octalOutOfRange
      else if b = 0x78 ∨ b = 0x58 then
        let ds := digits hex? 2 rest
        if ds.isEmpty then .error .noHexDigits else .ok ((number 16 ds).toUInt8, ds.length + 1)
      else .error (.unknown b)

def decode : Bytes → Except EscapeError Bytes
  | [] => .ok []
  | b :: rest =>
    if b = 0x5C then do
      let (byte, count) ← escape rest
      return byte :: (← decode (rest.drop count))
    else do
      return b :: (← decode rest)
termination_by bytes => bytes.length
decreasing_by
  all_goals simp only [List.length_cons, List.length_drop]
  all_goals omega

end Escaped

end Protobuf.Text
