/-
  Protobuf.Text.Quoted — texts and byte strings between quotation marks.

  Tabs, line feeds, returns, quotation marks, backslashes and NUL have escapes of their own; other
  characters that cannot be shown are written by number. In program text a NUL before an octal
  digit is spelt in full, because `\0` and the digit would read as one octal escape elsewhere.
-/

import Protobuf.Bytes
import Protobuf.Error
import Protobuf.Text.Printable

namespace Protobuf.Text

/-- A character's code in hexadecimal between braces. -/
def escapeCode (c : Char) : String := "\\u\x7b" ++ hexText c.toNat ++ "\x7d"

/-- How a character other than NUL stands between quotation marks. -/
def quoteChar (c : Char) : String :=
  match c with
  | '\t' => "\\t"
  | '\n' => "\\n"
  | '\r' => "\\r"
  | '"' => "\\\""
  | '\\' => "\\\\"
  | c => if isPrintable c then c.toString else escapeCode c

def isOctal (c : Char) : Bool := '0' ≤ c && c ≤ '7'

/-- The contents of a quoted text, as shown to a reader. -/
def shownContents : List Char → String
  | [] => ""
  | c :: rest => (if c = '\x00' then "\\0" else quoteChar c) ++ shownContents rest

/-- The contents of a text literal in program text. -/
def literalContents : List Char → String
  | [] => ""
  | c :: rest =>
    let head :=
      if c = '\x00' then if rest.head?.any isOctal then "\\x00" else "\\0"
      else quoteChar c
    head ++ literalContents rest

def shown (text : String) : String := "\"" ++ shownContents text.toList ++ "\""

def literal (text : String) : String := "\"" ++ literalContents text.toList ++ "\""

/-- A byte in upper-case hexadecimal, two digits. -/
def byteCode (b : UInt8) : String :=
  String.ofList [(Nat.digitChar (b.toNat / 16)).toUpper, (Nat.digitChar (b.toNat % 16)).toUpper]

/-- The contents of a byte-string literal in program text. -/
def byteContents : Bytes → String
  | [] => ""
  | b :: rest =>
    let c := Char.ofNat b.toNat
    let head :=
      if b = 0 then if rest.head?.any fun d => isOctal (Char.ofNat d.toNat) then "\\x00" else "\\0"
      else if c = '\t' ∨ c = '\n' ∨ c = '\r' ∨ c = '"' ∨ c = '\\' then quoteChar c
      else if 32 ≤ b ∧ b < 127 then c.toString
      else "\\x" ++ byteCode b
    head ++ byteContents rest

def byteLiteral (bytes : Bytes) : String := "b\"" ++ byteContents bytes ++ "\""

end Protobuf.Text
