/-
  Protobuf.Code.Root — the path under which generated modules are mounted.

  `Root.parse?` accepts a path: names with `::` between them, perhaps one in front, where a name
  may carry type arguments. Where the path stands decides how it is read and printed: arguments
  directly behind a name are such only in a type, and in a type no `::` is printed before them.
  Inside a macro it stays as it was written.
-/

import Protobuf.Code.Grammar.Table
import Protobuf.Code.Lexeme.Scan

namespace Protobuf.Code

/-- Where a path stands. -/
inductive RootUse where
  | type
  /-- In an expression or a pattern. -/
  | value
  | inMacro
  deriving DecidableEq, Repr

structure Root where
  /-- The path as it was written. -/
  tokens : List Token
  /-- As printed in types, if it can be read there. -/
  inTypes : Option (List Token)
  /-- As printed in expressions and patterns, if it can be read there. -/
  inValues : Option (List Token)
  deriving DecidableEq, Repr

namespace Root

open Grammar

def ofLexemes? (lexemes : List Lexeme) : Option Root := do
  let spelt ← (Phrase.path .plain).read? lexemes
  let printed := fun phrase : Phrase => (phrase.read? lexemes).map (·.filterMap Spelt.printed?)
  return ⟨spelt.filterMap Spelt.written?, printed (.type false), printed (.path .value)⟩

/-- The root that a text spells, if it is a path and nothing more. -/
def parse? (text : String) : Option Root := (Lexeme.scan? text).bind ofLexemes?

/-- The root that is one name. -/
def ofName (name : String) : Root := ⟨[.word name], some [.word name], some [.word name]⟩

/-- The root of the program that includes the code. -/
def top : Root := ofName "crate"

instance : Inhabited Root := ⟨top⟩

/-- The path as printed, if it can be read where it stands. -/
def printed? (root : Root) : RootUse → Option (List Token)
  | .type => root.inTypes
  | .value => root.inValues
  | .inMacro => some root.tokens

end Root

end Protobuf.Code
