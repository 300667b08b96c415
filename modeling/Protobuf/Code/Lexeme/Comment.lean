/-
  Protobuf.Code.Lexeme.Comment — comments in program text.

  A comment runs to the end of its line or, from `/*` on, to the `*/` that belongs to it; comments
  of the second kind nest. A comment with one more mark at its start is documentation: `!` for
  what is around it, else for what follows.
-/

import Protobuf.Text.Blank

namespace Protobuf.Code.Lexeme

/-- White space and the invisible direction marks. -/
def isGap (c : Char) : Bool := Text.isBlank c || c.toNat == 0x200E || c.toNat == 0x200F

def startsComment : List Char → Bool
  | '/' :: '/' :: _ | '/' :: '*' :: _ => true
  | _ => false

/-- Behind the end of the comment in which `depth + 1` comments are open, if it has one. -/
def behindComment? : (depth : Nat) → List Char → Option (List Char)
  | depth, '/' :: '*' :: rest => behindComment? (depth + 1) rest
  | 0, '*' :: '/' :: rest => some rest
  | depth + 1, '*' :: '/' :: rest => behindComment? depth rest
  | depth, _ :: rest => behindComment? depth rest
  | _, [] => none

/-- Behind the comment at the front; documentation is none. -/
def comment? : List Char → Option (List Char)
  | '/' :: '/' :: '!' :: _ => none
  | '/' :: '/' :: '/' :: '/' :: rest => some (rest.dropWhile (· ≠ '\n'))
  | '/' :: '/' :: '/' :: _ => none
  | '/' :: '/' :: rest => some (rest.dropWhile (· ≠ '\n'))
  | '/' :: '*' :: '!' :: _ => none
  | '/' :: '*' :: '*' :: '/' :: rest => some rest
  | '/' :: '*' :: '*' :: '*' :: rest => behindComment? 0 ('*' :: '*' :: rest)
  | '/' :: '*' :: '*' :: _ => none
  | '/' :: '*' :: rest => behindComment? 0 rest
  | _ => none

/-- Documentation: whether it is for what is around it, and its text. -/
structure Doc where
  isInner : Bool
  text : List Char
  deriving DecidableEq, Repr

/-- Whether every carriage return stands before a line feed. -/
def hasWholeReturns : List Char → Bool
  | '\r' :: '\n' :: rest => hasWholeReturns rest
  | '\r' :: _ => false
  | _ :: rest => hasWholeReturns rest
  | [] => true

def docLine (isInner : Bool) (text : List Char) : Doc × List Char :=
  let line := text.takeWhile (· ≠ '\n')
  let rest := text.dropWhile (· ≠ '\n')
  (⟨isInner, if rest.isEmpty then line else Text.dropReturn line⟩, rest)

def docBlock? (isInner : Bool) (text : List Char) : Option (Doc × List Char) :=
  (behindComment? 0 text).map fun rest => (⟨isInner, text.take (text.length - rest.length - 2)⟩, rest)

/-- The documentation at the front, and what is behind it. -/
def doc? (text : List Char) : Option (Doc × List Char) :=
  let found :=
    match text with
    | '/' :: '/' :: '!' :: rest => some (docLine true rest)
    | '/' :: '*' :: '!' :: rest => docBlock? true rest
    | '/' :: '/' :: '/' :: '/' :: _ => none
    | '/' :: '/' :: '/' :: rest => some (docLine false rest)
    | '/' :: '*' :: '*' :: '*' :: _ => none
    | '/' :: '*' :: '*' :: rest => docBlock? false rest
    | _ => none
  found.filter fun (doc, _) => hasWholeReturns doc.text

end Protobuf.Code.Lexeme
