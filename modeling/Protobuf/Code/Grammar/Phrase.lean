/-
  Protobuf.Code.Grammar.Phrase — the phrases of Rust and the words they share.

  A path stands for a module, a type or a value. Its type arguments directly follow a name where a
  type is expected, and `::` where a value is, because `<` would compare there.
-/

import Protobuf.Code.Grammar.Rule

namespace Protobuf.Code.Grammar

/-- What a path stands for. -/
inductive PathKind where
  /-- A module or a trait. -/
  | plain
  | type
  | value
  deriving DecidableEq, Repr

inductive Phrase where
  | path (kind : PathKind)
  | segment (kind : PathKind)
  /-- Type arguments, with the `::` in front of them. -/
  | arguments (kind : PathKind)
  | argument
  /-- A type; `sum` tells whether it may be several traits with `+` between them. -/
  | type (sum : Bool)
  | bound
  | bounds (sum : Bool)
  /-- More bounds, from the `+` on. -/
  | moreBounds (sum : Bool)
  /-- Lifetimes that a type is about. -/
  | binder
  | attributes
  | pattern
  | patterns
  /-- An expression; `braced` tells whether a brace behind a path gives the fields of a structure. -/
  | expression (braced : Bool)
  | operand (braced : Bool)
  /-- An operand without signs. -/
  | atom (braced : Bool)
  /-- Operators and operands behind one; two comparisons in a row are a fault, as are two ranges. -/
  | operators (braced compared ranged : Bool)
  | trailers
  /-- An expression that ends in a block. -/
  | blockLike
  | block
  deriving DecidableEq, Repr

abbrev Rules := Rule Phrase

open Rule

/-- Words that cannot be names. -/
def isReserved (text : String) : Bool := text == "_" || (Naming.isKeyword text && text != "gen")

def name : Rules :=
  want fun
    | .word text => !isReserved text
    | _ => false

def anyWord : Rules :=
  want fun
    | .word _ => true
    | _ => false

def literal : Rules :=
  want fun
    | .literal _ => true
    | _ => false

def number : Rules :=
  want fun
    | .literal text => text.toList.head?.any Char.isDigit
    | _ => false

/-- A text of characters, as the name of a calling convention is. -/
def textLiteral : Rules :=
  want fun
    | .literal text => text.toList.head?.any fun c => c == '"' || c == 'r'
    | _ => false

/-- A literal that may be a truth value or a negative number. -/
def constant : Rules := anyOf [literal, words ["true", "false"], mark "-" >> number]

def lifetime : Rules := mark "'" >> anyWord

def openBrace : Rules := mark "\x7b"

def closeBrace : Rules := mark "\x7d"

/-- A colon that is not the first of two. -/
def colon : Rules := absent (mark "::") >> mark ":"

/-- A point that is not the first of two. -/
def point : Rules := absent (mark "..") >> mark "."

def aType : Rules := call (.type true)

/-- A type that a `+` ends. -/
def narrowType : Rules := call (.type false)

def anExpression : Rules := call (.expression true)

/-! ## Macros -/

/-- Names with `::` between them and no arguments. -/
def bareSegment : Rules := either (words ["super", "self", "Self", "crate", "try"]) name

/-- Another segment follows; parentheses directly behind `::` are arguments. -/
def segmentAhead : Rules := absent (mark "::" >> mark "(") >> mark "::"

def barePath : Rules := opt (mark "::") >> bareSegment >> loop segmentAhead (mark "::" >> bareSegment)

def bang : Rules := absent (mark "!=") >> mark "!"

def macroAhead : Rules := barePath >> bang

def macroCall : Rules :=
  barePath >> mark "!" >> cases [(anyOf [mark "(", mark "[", openBrace], tree)] never

/-! ## Attributes -/

def attributesRule : Rules :=
  loop (mark "#" >> mark "[")
    (mark "#" >> mark "[" >> barePath >>
      cases [(mark "=", mark "=" >> anExpression)] (look stop done tree) >> mark "]")

end Protobuf.Code.Grammar
