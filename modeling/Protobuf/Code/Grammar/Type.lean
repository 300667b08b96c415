/-
  Protobuf.Code.Grammar.Type — types and the bounds on them.

  A `+` binds less than a reference, a pointer or a result, whose types are therefore narrow. A
  type made of traits is printed with `dyn` in front, whether or not it was written so.
-/

import Protobuf.Code.Grammar.Path

namespace Protobuf.Code.Grammar

open Rule

/-! ## Bounds -/

/-- Lifetimes or types that a binder introduces, with their bounds. -/
def binderItem : Rules :=
  let close := anyOf [mark ",", mark ">", mark "="]
  let bounded := fun item : Rules =>
    following colon
      (look (mark ":" >> close) (dropped (mark ":"))
        (mark ":" >> item >>
          loop (mark "+") (look (mark "+" >> close) (unprinted (mark "+")) (mark "+" >> item))))
  call Phrase.attributes >>
    cases [(lifetime, lifetime >> bounded lifetime)]
      (name >> bounded (call Phrase.bound) >> following (mark "=") (mark "=" >> aType))

def binderRule : Rules := word "for" >> mark "<" >> listed binderItem (mark ">") >> mark ">"

/-- A trait, for all lifetimes of a binder or, behind `?`, perhaps not held. -/
def traitRule : Rules :=
  cases [(word "for", call Phrase.binder >> absent (mark "?")), (mark "?", mark "?" >> absent (word "for"))] done >>
    call (Phrase.path .plain) >> following parameterAhead parameterRule

/-- The parameters that a type may depend on. -/
def captureRule : Rules :=
  word "use" >> mark "<" >> listed (anyOf [lifetime, word "Self", name]) (mark ">") >> mark ">"

def boundRule : Rules :=
  cases [(lifetime, lifetime), (word "use", captureRule), (mark "(", mark "(" >> traitRule >> mark ")")]
    traitRule

def boundAhead : Rules := anyOf [anyWord, mark "::", mark "?", lifetime, mark "("]

def moreBoundsRule (sum : Bool) : Rules :=
  if sum then
    following (mark "+")
      (look (mark "+" >> boundAhead) (mark "+" >> call Phrase.bound >> call (Phrase.moreBounds true))
        (unprinted (mark "+")))
  else done

/-- Bounds of which one at least is a trait. -/
def boundsRule (sum : Bool) : Rules :=
  look lifetime (if sum then lifetime >> mark "+" >> call (Phrase.bounds true) else never)
    (call Phrase.bound >> call (Phrase.moreBounds sum))

/-! ## Types -/

def pathAhead : Rules := anyOf [words typeWords, mark "::", name]

def functionAhead : Rules := words ["fn", "unsafe", "extern"]

/-- A parameter of a function type, perhaps with a name. -/
def functionItem : Rules :=
  let label := either (words ["_", "self"]) name >> colon
  call Phrase.attributes >>
    cases
      [(mark "...", mark "..." >> opt (mark ",") >> stop),
       (label >> mark "...", label >> mark "..." >> opt (mark ",") >> stop)]
      (following label label >> aType >> look stop done (mark ","))

def functionType : Rules :=
  opt (word "unsafe") >> following (word "extern") (word "extern" >> opt textLiteral) >> word "fn" >>
    mark "(" >> loop (absent stop) functionItem >> mark ")" >> resultType

/-- A path as a type, to which more traits may be added. -/
def pathType (sum : Bool) : Rules :=
  if sum then lead (.word "dyn") (call (Phrase.path .type)) (mark "+") >> call (Phrase.moreBounds true)
  else call (Phrase.path .type)

/-- A type behind a binder: a function, or a trait held for all its lifetimes. -/
def boundType (sum : Bool) : Rules :=
  look (call Phrase.binder >> functionAhead) (call Phrase.binder >> functionType)
    (look (call Phrase.binder >> pathAhead)
      (print (.word "dyn") >> call Phrase.binder >> call (Phrase.path .type) >> call (Phrase.moreBounds sum))
      never)

/-- A type in parentheses, or several. -/
def parenType (sum : Bool) : Rules :=
  let body :=
    mark "(" >> aType >>
      look (mark ",") (mark "," >> listed aType stop >> mark ")" >> absent (mark "+")) (mark ")")
  cases
    [(mark "(" >> mark ")", mark "(" >> mark ")"),
     (mark "(" >> lifetime, mark "(" >> print (.word "dyn") >> call (Phrase.bounds true) >> mark ")"),
     (mark "(" >> mark "?",
      print (.word "dyn") >> mark "(" >> traitRule >> mark ")" >> call (Phrase.moreBounds true)),
     (mark "(" >> either (word "for") pathAhead,
      if sum then lead (.word "dyn") body (mark "+") >> call (Phrase.moreBounds true) else body)]
    body

def typeRule (sum : Bool) : Rules :=
  cases
    [(word "for", boundType sum),
     (mark "(", parenType sum),
     (functionAhead, functionType),
     (mark "<", qualifiedPath .type),
     (pathAhead, look macroAhead macroCall (pathType sum)),
     (word "dyn", word "dyn" >> call (Phrase.bounds sum)),
     (mark "[", mark "[" >> aType >> following (mark ";") (mark ";" >> anExpression) >> mark "]"),
     (mark "*", mark "*" >> words ["const", "mut"] >> narrowType),
     (mark "&", mark "&" >> following lifetime lifetime >> opt (word "mut") >> narrowType),
     (mark "!", mark "!"),
     (word "impl", word "impl" >> call (Phrase.bounds sum)),
     (word "_", word "_"),
     (lifetime, print (.word "dyn") >> call (Phrase.bounds true))]
    never

end Protobuf.Code.Grammar
