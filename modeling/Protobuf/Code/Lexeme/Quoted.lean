/-
  Protobuf.Code.Lexeme.Quoted — characters and texts in program text.

  Three kinds of text differ in what they may hold: characters, bytes, or characters without NUL.
  Each is written with escapes, or raw between number signs. A name directly behind the closing
  mark is a suffix. A carriage return stands only before a line feed.
-/

import Protobuf.Code.Lexeme.Number

namespace Protobuf.Code.Lexeme

inductive QuoteKind where
  | text
  | bytes
  | terminated
  deriving DecidableEq, Repr

namespace QuoteKind

/-- Whether a character may stand for itself. -/
def admits (kind : QuoteKind) (c : Char) : Bool :=
  match kind with
  | text => true
  | bytes => c.toNat < 128
  | terminated => c.toNat ≠ 0

/-- Whether two hexadecimal digits are an escape. -/
def admitsCode (kind : QuoteKind) (high low : Nat) : Bool :=
  match kind with
  | text => high < 8
  | bytes => true
  | terminated => high ≠ 0 || low ≠ 0

end QuoteKind

/-- Behind the digits and the closing brace of an escape by number, and the number. -/
def behindCode? : (count value : Nat) → List Char → Option (Nat × List Char)
  | _, _, [] => none
  | count, value, c :: rest =>
    if c = '_' then if count = 0 then none else behindCode? count value rest
    else if c = '\x7d' then if count = 0 then none else some (value, rest)
    else
      match digitValue? c with
      | some digit => if count < 6 then behindCode? (count + 1) (16 * value + digit) rest else none
      | none => none

def isScalarValue (code : Nat) : Bool := code < 0xD800 || (0xDFFF < code && code < 0x110000)

/-- Behind an escape, of which the backslash is gone. -/
def behindEscape? (kind : QuoteKind) : List Char → Option (List Char)
  | 'x' :: a :: b :: rest => do
    let high ← digitValue? a
    let low ← digitValue? b
    if kind.admitsCode high low then some rest else none
  | 'u' :: '\x7b' :: rest => do
    let (code, rest) ← behindCode? 0 0 rest
    if isScalarValue code && kind ≠ .bytes && (kind ≠ .terminated || code ≠ 0) then some rest else none
  | '0' :: rest => if kind = .terminated then none else some rest
  | c :: rest => if "nrt\\'\"".toList.contains c then some rest else none
  | [] => none

/-- Behind the end of a text with escapes. A backslash at the end of a line removes the blanks at
the start of the next, which `skipping` tells of. -/
def behindQuoted? (kind : QuoteKind) : (fuel : Nat) → (skipping : Bool) → List Char → Option (List Char)
  | 0, _, _ => none
  | _ + 1, _, [] => none
  | fuel + 1, skipping, '\r' :: rest =>
    match rest with
    | '\n' :: rest => behindQuoted? kind fuel skipping rest
    | _ => none
  | fuel + 1, _, '\\' :: rest =>
    match rest with
    | '\n' :: rest => behindQuoted? kind fuel true rest
    | '\r' :: '\n' :: rest => behindQuoted? kind fuel true rest
    | rest => (behindEscape? kind rest).bind (behindQuoted? kind fuel false)
  | fuel + 1, skipping, c :: rest =>
    if skipping && (c == ' ' || c == '\t' || c == '\n') then behindQuoted? kind fuel true rest
    else if c = '"' then some (behindSuffix rest)
    else if kind.admits c then behindQuoted? kind fuel false rest
    else none

/-- Behind the end of a raw text, which is a quotation mark and as many number signs as at its start. -/
def behindRaw? (kind : QuoteKind) (signs : Nat) : List Char → Option (List Char)
  | [] => none
  | '\r' :: '\n' :: rest => behindRaw? kind signs rest
  | '\r' :: _ => none
  | c :: rest =>
    if c = '"' ∧ (rest.take signs).length = signs ∧ (rest.take signs).all (· == '#') then
      some (behindSuffix (rest.drop signs))
    else if kind.admits c then behindRaw? kind signs rest
    else none

/-- Behind a raw text from its first number sign or quotation mark on. -/
def rawText? (kind : QuoteKind) (text : List Char) : Option (List Char) :=
  let signs := (text.takeWhile (· == '#')).length
  match text.drop signs with
  | '"' :: rest => if signs < 256 then behindRaw? kind signs rest else none
  | _ => none

def quotedText? (kind : QuoteKind) (text : List Char) : Option (List Char) :=
  behindQuoted? kind (text.length + 1) false text

/-- Behind the end of a single character of which the opening mark is gone. -/
def behindCharacter? (kind : QuoteKind) (text : List Char) : Option (List Char) :=
  let behind :=
    match text with
    | '\\' :: rest => behindEscape? kind rest
    | c :: rest => if kind.admits c then some rest else none
    | [] => none
  match behind with
  | some ('\x27' :: rest) => some (behindSuffix rest)
  | _ => none

/-- Behind the text or character at the front. -/
def behindQuote? : List Char → Option (List Char)
  | '"' :: rest => quotedText? .text rest
  | 'r' :: rest => rawText? .text rest
  | 'b' :: '"' :: rest => quotedText? .bytes rest
  | 'b' :: 'r' :: rest => rawText? .bytes rest
  | 'b' :: '\x27' :: rest => behindCharacter? .bytes rest
  | 'c' :: '"' :: rest => quotedText? .terminated rest
  | 'c' :: 'r' :: rest => rawText? .terminated rest
  | '\x27' :: rest => behindCharacter? .text rest
  | _ => none

end Protobuf.Code.Lexeme
