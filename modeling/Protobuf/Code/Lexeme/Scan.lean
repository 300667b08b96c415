/-
  Protobuf.Code.Lexeme.Scan — program text cut into lexemes.

  `scan?` fails where the text holds anything but names, literals, marks, brackets, comments and
  blanks, and where brackets do not match. Documentation becomes the attribute it stands for.
-/

import Protobuf.Code.Lexeme.Comment
import Protobuf.Code.Lexeme.Quoted
import Protobuf.Text.Quoted

namespace Protobuf.Code.Lexeme

/-- Beginnings of literals, where no name begins. -/
def literalStarts : List String := ["r\"", "r#\"", "r##", "b\"", "b'", "br\"", "br#", "c\"", "cr\"", "cr#"]

def startsLiteral (text : List Char) : Bool := literalStarts.any fun start => start.toList.isPrefixOf text

/-- An apostrophe at the front starts a lifetime: a name follows, and nothing that makes it a literal. -/
def startsLifetime (behind : List Char) : Bool :=
  match name? behind with
  | some (name, rest) =>
    rest.head? ≠ some '\x27' && (rest.head? ≠ some '#' || "r#".toList.isPrefixOf name.toList)
  | none => false

/-- The mark at the front. -/
def mark? : List Char → Option (Lexeme × List Char)
  | [] => none
  | c :: rest =>
    if !isMark c || startsComment (c :: rest) then none
    else if c = '\x27' then if startsLifetime rest then some (⟨.mark c, true⟩, rest) else none
    else some (⟨.mark c, rest.head?.any isMark && !startsComment rest⟩, rest)

/-- The lexeme at the front, other than a bracket, and what is behind it. -/
def lexeme? (text : List Char) : Option (Lexeme × List Char) :=
  match (behindQuote? text).or (behindNumber? text), mark? text with
  | some rest, _ => some (⟨.literal (taken text rest), false⟩, rest)
  | none, some found => some found
  | none, none =>
    if startsLiteral text then none
    else (name? text).map fun (name, rest) => (⟨.word name, false⟩, rest)

/-- The attribute that documentation stands for. -/
def Doc.lexemes (doc : Doc) : List Lexeme :=
  let value := Text.literal (String.ofList doc.text)
  let start := Token.marks (if doc.isInner then "#![" else "#[")
  (start ++ [Token.word "doc", .mark '=', .literal value, .mark ']']).map (Lexeme.mk · false)

/-- Cuts a text into lexemes, inside brackets whose closing ones are `closers`. -/
def lexemes? : (fuel : Nat) → (closers : List Char) → List Char → Option (List Lexeme)
  | 0, _, _ => none
  | fuel + 1, closers, text =>
    match text.dropWhile isGap with
    | [] => if closers.isEmpty then some [] else none
    | c :: rest =>
      match comment? (c :: rest), doc? (c :: rest) with
      | some rest, _ => lexemes? fuel closers rest
      | none, some (doc, rest) => (lexemes? fuel closers rest).map (doc.lexemes ++ ·)
      | none, none =>
        match closing? c with
        | some closer => (lexemes? fuel (closer :: closers) rest).map (⟨.mark c, false⟩ :: ·)
        | none =>
          if isClosing c then
            if closers.head? = some c then (lexemes? fuel closers.tail rest).map (⟨.mark c, false⟩ :: ·)
            else none
          else
            match lexeme? (c :: rest) with
            | some (lexeme, rest) => (lexemes? fuel closers rest).map (lexeme :: ·)
            | none => none

/-- A text without the mark that tells the order of its bytes. -/
def dropByteOrderMark : List Char → List Char
  | c :: rest => if c.toNat = 0xFEFF then rest else c :: rest
  | [] => []

/-- All lexemes of a text, if it has nothing else and its brackets match. -/
def scan? (text : String) : Option (List Lexeme) :=
  lexemes? (text.length + 1) [] (dropByteOrderMark text.toList)

end Protobuf.Code.Lexeme
