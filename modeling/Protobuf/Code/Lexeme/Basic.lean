/-
  Protobuf.Code.Lexeme.Basic — the units of which program text consists.

  A lexeme is a token with whether a mark follows it directly: `::` is two marks of which the first
  is joint, `: :` two that are not. Names are plain or, behind `r#`, raw.
-/

import Protobuf.Code.Token
import Protobuf.Naming.Identifier

namespace Protobuf.Code

/-- A token with whether the next mark follows it directly. -/
structure Lexeme where
  token : Token
  joint : Bool := false
  deriving DecidableEq, Repr

namespace Lexeme

def isMark (c : Char) : Bool := "~!@#$%^&*-=+|;:,<.>/?'".toList.contains c

/-- The bracket that closes what a bracket opens. -/
def closing? : Char → Option Char
  | '(' => some ')'
  | '[' => some ']'
  | '{' => some '}'
  | _ => none

def isClosing (c : Char) : Bool := c == ')' || c == ']' || c == '}'

def isNameStart (c : Char) : Bool := c == '_' || Text.isIdentifierStart c

/-- Behind the name at the front. -/
def behindName? : List Char → Option (List Char)
  | c :: rest => if isNameStart c then some (rest.dropWhile Text.isIdentifierContinue) else none
  | [] => none

/-- Behind the name at the front, if there is one. -/
def behindSuffix (text : List Char) : List Char := (behindName? text).getD text

/-- What lies between a text and its end `rest`. -/
def taken (text rest : List Char) : String := String.ofList (text.take (text.length - rest.length))

/-- The plain or raw name at the front, and what is behind it. -/
def name? : List Char → Option (String × List Char)
  | 'r' :: '#' :: rest => do
    let behind ← behindName? rest
    let name := "r#" ++ taken rest behind
    if Naming.isIdentifier name then some (name, behind) else none
  | text => (behindName? text).map fun behind => (taken text behind, behind)

end Lexeme

end Protobuf.Code
