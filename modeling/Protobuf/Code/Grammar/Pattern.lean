/-
  Protobuf.Code.Grammar.Pattern — patterns that take values apart.

  Alternatives stand between bars; one in front of the first is not printed.
-/

import Protobuf.Code.Grammar.Path

namespace Protobuf.Code.Grammar

open Rule

/-- A name that starts a path, not one that a value is bound to. -/
def patternPathAhead : Rules :=
  anyOf
    [name >> anyOf [mark "::", mark "!", openBrace, mark "(", mark ".."],
     word "self" >> mark "::",
     mark "::",
     mark "<",
     words ["Self", "super", "crate"]]

/-- An end of a range of values. -/
def patternEnd : Rules :=
  cases [(constant, constant), (word "const", word "const" >> call Phrase.block)] (anyPath .value)

def patternEndAhead : Rules :=
  anyOf [constant, mark "::", mark "<", words ["const", "self", "Self", "super", "crate"], name]

/-- The rest of a range, whose upper end may be open. -/
def patternRange : Rules :=
  anyOf [mark "..=", mark "...", mark ".."] >> following patternEndAhead patternEnd

/-- A pattern for a field, whose name may stand for a variable. -/
def fieldPattern : Rules :=
  let label := either name number >> colon
  call Phrase.attributes >>
    cases
      [(mark "..", mark ".." >> stop),
       (label, label >> call Phrase.patterns >> look stop done (mark ","))]
      (opt (word "ref") >> opt (word "mut") >> name >> look stop done (mark ","))

def pathPattern : Rules :=
  look macroAhead macroCall
    (anyPath .value >>
      cases
        [(openBrace, openBrace >> loop (absent stop) fieldPattern >> closeBrace),
         (mark "(", bracketed "(" ")" (call Phrase.patterns)),
         (mark "..", patternRange)]
        done)

/-- A variable, perhaps with a pattern for what it holds. -/
def variablePattern : Rules :=
  opt (word "ref") >> opt (word "mut") >> either (word "self") name >>
    following (mark "@") (mark "@" >> call Phrase.pattern)

def patternRule : Rules :=
  cases
    [(patternPathAhead, pathPattern),
     (word "_", word "_"),
     (either constant (word "const"), patternEnd >> following (mark "..") patternRange),
     (either (words ["ref", "mut", "self"]) name, variablePattern),
     (mark "&", mark "&" >> opt (word "mut") >> call Phrase.pattern),
     (mark "(", bracketed "(" ")" (call Phrase.patterns)),
     (mark "[", bracketed "[" "]" (call Phrase.patterns)),
     (mark "..", patternRange)]
    never

/-- A bar between alternatives. -/
def barAhead : Rules := absent (mark "||") >> absent (mark "|=") >> mark "|"

def patternsRule : Rules :=
  following barAhead (unprinted (mark "|")) >> call Phrase.pattern >> loop barAhead (mark "|" >> call Phrase.pattern)

end Protobuf.Code.Grammar
