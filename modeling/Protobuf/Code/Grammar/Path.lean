/-
  Protobuf.Code.Grammar.Path — paths and their type arguments.

  Arguments are printed without `::` in types and with it in values; where there are none, the
  brackets are not printed. Traits with `+` between them are printed with `dyn` in front.
-/

import Protobuf.Code.Grammar.Phrase

namespace Protobuf.Code.Grammar

open Rule

/-- Words that a type can start with, other than names. -/
def typeWords : List String := ["super", "self", "Self", "crate"]

/-- Whether arguments follow a name. -/
def argumentsAhead (kind : PathKind) : Rules :=
  let behindColons := mark "::" >> mark "<"
  match kind with
  | .value => behindColons
  | .plain | .type =>
    either (absent (mark "<=") >> absent (mark "<<=") >> mark "<") behindColons

/-- Whether arguments in parentheses follow a name. -/
def parameterAhead : Rules := either (mark "(") (mark "::" >> mark "(")

def resultType : Rules := following (mark "->") (mark "->" >> narrowType)

/-- Parameter types in parentheses, and perhaps a result. -/
def parameterRule : Rules := dropped (opt (mark "::")) >> bracketed "(" ")" aType >> resultType

/-- Arguments in parentheses, where the path is a type. -/
def parametersOf (kind : PathKind) : Rules :=
  match kind with
  | .type => following parameterAhead parameterRule
  | .plain | .value => done

def segmentRule (kind : PathKind) : Rules :=
  cases [(words ["super", "self", "crate", "try"], anyWord >> parametersOf kind)]
    (either (word "Self") name >> look (argumentsAhead kind) (call (Phrase.arguments kind)) (parametersOf kind))

/-- The segments behind one. -/
def moreSegments (kind : PathKind) : Rules := loop segmentAhead (mark "::" >> call (Phrase.segment kind))

def pathRule (kind : PathKind) : Rules := opt (mark "::") >> call (Phrase.segment kind) >> moreSegments kind

/-- A path below a type in brackets, perhaps seen as a trait. -/
def qualifiedPath (kind : PathKind) : Rules :=
  mark "<" >> aType >> following (word "as") (word "as" >> call (Phrase.path .plain)) >> mark ">" >>
    mark "::" >> call (Phrase.segment kind) >> moreSegments kind

/-- A path, qualified or not. -/
def anyPath (kind : PathKind) : Rules := look (mark "<") (qualifiedPath kind) (call (Phrase.path kind))

def argumentsRule (kind : PathKind) : Rules :=
  let colons :=
    match kind with
    | .value => mark "::"
    | .plain | .type => unprinted (opt (mark "::"))
  look (opt (mark "::") >> mark "<" >> mark ">") (unprinted (opt (mark "::") >> mark "<" >> mark ">"))
    (colons >> mark "<" >> listed (call Phrase.argument) (mark ">") >> mark ">")

def constantAhead : Rules := either constant openBrace

/-- A constant, or a block that computes one. -/
def constantArgument : Rules := look openBrace (call Phrase.block) constant

/-- The type or constant given for a name. -/
def givenRule : Rules := mark "=" >> look constantAhead constantArgument aType

/-- The bounds of a name; with none the colon is not printed, nor is a `+` behind the last. -/
def constraintRule : Rules :=
  let close := either (mark ",") (mark ">")
  look (mark ":" >> close) (unprinted (mark ":"))
    (mark ":" >> call Phrase.bound >>
      loop (mark "+") (look (mark "+" >> close) (unprinted (mark "+")) (mark "+" >> call Phrase.bound)))

/-- A type argument that starts with a name: a type, or what is given or demanded for the name. -/
def namedArgument : Rules :=
  let rest :=
    cases [(mark "=", givenRule >> absent (mark "+")), (colon, constraintRule >> absent (mark "+"))]
      (moreSegments .type)
  lead (.word "dyn") (call (Phrase.segment .type) >> rest) (mark "+") >> call (Phrase.moreBounds true)

def argumentRule : Rules :=
  cases
    [(lifetime >> absent (mark "+"), lifetime),
     (constantAhead, constantArgument),
     (macroAhead, aType),
     (either (words typeWords) name, namedArgument)]
    aType

end Protobuf.Code.Grammar
