/-
  Protobuf.Code.Grammar.Expression — expressions and the statements of a block.

  Operators are read from left to right. How tightly they bind does not change the tokens, but
  comparisons cannot be chained, and a range is not an operand of another range or assignment.
  Where a block follows an expression, a brace behind a path belongs to the block.
-/

import Protobuf.Code.Grammar.Pattern

namespace Protobuf.Code.Grammar

open Rule

/-! ## Operators -/

def assignments : List String := ["<<=", ">>=", "+=", "-=", "*=", "/=", "%=", "^=", "&=", "|="]

def comparisons : List String := ["==", "<=", "!=", ">="]

def arithmetic : List String := ["+", "-", "*", "/", "%", "^", "&", "|"]

def oneOf (texts : List String) : Rules := anyOf (texts.map mark)

/-- Marks that follow a range without an upper end. -/
def rangeEnds : List String :=
  [",", ";", "?", "=>", "=", "+", "/", "%", "^", ">", "<=", "!=", "-=", "*=", "&=", "|=", "<<="]

/-- Where a range has no upper end. -/
def rangeEndAhead (braced : Bool) : Rules :=
  anyOf ([stop, point, oneOf rangeEnds, word "as"] ++ if braced then [] else [openBrace])

/-- The rest of a range. -/
def rangeRule (braced : Bool) : Rules :=
  let upper := call (Phrase.operand braced) >> call (Phrase.operators braced false true)
  look (mark "..=") (mark "..=" >> upper)
    (absent (mark "...") >> mark ".." >> look (rangeEndAhead braced) done upper)

/-- What would be applied to a conversion, which needs parentheses for it. -/
def conversionEnd : Rules := absent (anyOf [point, mark "?", mark "[", mark "("])

def operatorsRule (braced compared ranged : Bool) : Rules :=
  let onward := fun (texts : List String) (compared ranged : Bool) =>
    oneOf texts >> call (Phrase.operand braced) >> call (Phrase.operators braced compared ranged)
  let assigned := fun texts => if ranged then done else onward texts false false
  let compare := fun texts => if compared then never else onward texts true ranged
  cases
    [(oneOf assignments, assigned assignments),
     (oneOf ["&&", "||"], onward ["&&", "||"] false ranged),
     (oneOf ["<<", ">>"], onward ["<<", ">>"] compared ranged),
     (oneOf comparisons, compare comparisons),
     (oneOf arithmetic, onward arithmetic compared ranged),
     (oneOf ["<", ">"], compare ["<", ">"]),
     (absent (mark "=>") >> mark "=", assigned ["="]),
     (mark "..", if ranged then done else rangeRule braced),
     (word "as",
      word "as" >> narrowType >> conversionEnd >> call (Phrase.operators braced compared ranged))]
    done

def expressionRule (braced : Bool) : Rules :=
  look (mark "..") (rangeRule braced) (call (Phrase.operand braced) >> call (Phrase.operators braced false false))

/-- Signs in front of an operand. -/
def operandRule (braced : Bool) : Rules :=
  let qualifier := words ["mut", "const"]
  call Phrase.attributes >>
    cases
      [(mark "&",
        mark "&" >> look (word "raw" >> qualifier) (word "raw" >> qualifier) (opt (word "mut")) >>
          call (Phrase.operand braced)),
       (oneOf ["*", "!", "-"], oneOf ["*", "!", "-"] >> call (Phrase.operand braced)),
       (mark "..", rangeRule braced)]
      (call (Phrase.atom braced) >> call Phrase.trailers)

/-! ## What follows an operand -/

def argumentList : Rules := bracketed "(" ")" anExpression

/-- A field, or a method with its arguments. -/
def memberRule : Rules :=
  point >>
    cases [(number, number), (word "await", word "await")]
      (name >>
        look (mark "::") (call (Phrase.arguments .value) >> argumentList) (following (mark "(") argumentList))

def trailersRule : Rules :=
  loop (anyOf [mark "(", mark "[", mark "?", point])
    (cases
      [(mark "(", argumentList), (mark "[", mark "[" >> anExpression >> mark "]"), (mark "?", mark "?")]
      memberRule)

/-! ## Operands -/

/-- A field of a structure with its value, which may be a variable of the same name. -/
def fieldRule : Rules :=
  call Phrase.attributes >>
    cases [(mark "..", mark ".." >> look stop done anExpression >> stop)]
      (either name number >> following colon (mark ":" >> anExpression) >> look stop done (mark ","))

def pathExpression (braced : Bool) : Rules :=
  let fields := openBrace >> loop (absent stop) fieldRule >> closeBrace
  look macroAhead macroCall (anyPath .value >> if braced then following openBrace fields else done)

def closureAhead : Rules :=
  anyOf
    [mark "|",
     words ["move", "static"],
     word "for" >> mark "<",
     word "const" >> absent openBrace,
     word "async" >> either (mark "|") (word "move")]

def closureRule (braced : Bool) : Rules :=
  let parameter := call Phrase.attributes >> call Phrase.pattern >> following colon (mark ":" >> aType)
  following (word "for") (call Phrase.binder) >> opt (word "const") >> opt (word "static") >> opt (word "async") >>
    opt (word "move") >> mark "|" >> listed parameter (mark "|") >> mark "|" >>
    look (mark "->") (mark "->" >> aType >> call Phrase.block) (call (Phrase.expression braced))

/-- Where an expression can begin. -/
def expressionAhead (braced : Bool) : Rules :=
  let alone := fun text others => absent (oneOf others) >> mark text
  anyOf
    ([anyWord, mark "(", mark "[", constant, alone "!" ["!="], alone "-" ["-=", "->"], alone "*" ["*="],
      alone "|" ["|="], alone "&" ["&="], mark "..", alone "<" ["<=", "<<="], mark "::", lifetime,
      mark "#"] ++ if braced then [openBrace] else [])

def pathStart : Rules :=
  anyOf
    [name, mark "::", mark "<", words ["self", "Self", "super", "crate"],
     word "try" >> either (mark "!") (mark "::")]

/-- Elements, or one with how often it is repeated. -/
def arrayRule : Rules :=
  let more := following (mark ",") (mark "," >> listed anExpression stop)
  mark "[" >> look stop done (anExpression >> look (mark ";") (mark ";" >> anExpression) more) >> mark "]"

def blockAhead : Rules :=
  anyOf
    [words ["if", "while", "loop", "match", "unsafe"],
     word "for" >> absent (mark "<"),
     words ["try", "const"] >> openBrace,
     openBrace,
     lifetime >> colon]

def atomRule (braced : Bool) : Rules :=
  let value := following (expressionAhead braced) (call (Phrase.expression braced))
  cases
    [(either literal (words ["true", "false"]), anyOf [literal, anyWord]),
     (word "async" >> either openBrace (word "move" >> openBrace),
      word "async" >> opt (word "move") >> call Phrase.block),
     (closureAhead, closureRule braced),
     (pathStart, pathExpression braced),
     (mark "(", bracketed "(" ")" anExpression),
     (word "break", word "break" >> following lifetime lifetime >> value),
     (word "continue", word "continue" >> following lifetime lifetime),
     (words ["return", "yield"], anyWord >> value),
     (word "become", word "become" >> call (Phrase.expression braced)),
     (mark "[", arrayRule),
     (word "let", word "let" >> call Phrase.patterns >> mark "=" >> call (Phrase.operand braced)),
     (blockAhead, call Phrase.blockLike),
     (word "_", word "_")]
    never

/-! ## Blocks -/

/-- A comma or semicolon, needed only before more. -/
def ended (text : String) : Rules := look (mark text) (mark text) stop

/-- An expression where a block at its start ends it, and what closes it. -/
def boundedExpression (text : String) : Rules :=
  let onward := call (Phrase.operators true false false) >> ended text
  look blockAhead
    (call Phrase.blockLike >> look (either point (mark "?")) (call Phrase.trailers >> onward) (opt (mark text)))
    (look (mark "..") (rangeRule true >> ended text) (call (Phrase.operand true) >> onward))

def armRule : Rules :=
  call Phrase.attributes >> call Phrase.patterns >> following (word "if") (word "if" >> anExpression) >> mark "=>" >>
    boundedExpression ","

def blockLikeRule : Rules :=
  let condition := call (Phrase.expression false)
  cases
    [(lifetime, lifetime >> mark ":" >> call Phrase.blockLike),
     (word "if",
      word "if" >> condition >> call Phrase.block >>
        following (word "else") (word "else" >> look (word "if") (call Phrase.blockLike) (call Phrase.block))),
     (word "while", word "while" >> condition >> call Phrase.block),
     (word "for", word "for" >> call Phrase.patterns >> word "in" >> condition >> call Phrase.block),
     (words ["loop", "unsafe", "try", "const"], anyWord >> call Phrase.block),
     (word "match",
      word "match" >> condition >> openBrace >> loop (absent stop) armRule >> closeBrace)]
    (call Phrase.block)

def letRule : Rules :=
  word "let" >> call Phrase.pattern >> following colon (mark ":" >> aType) >>
    following (mark "=")
      (mark "=" >> anExpression >> following (word "else") (word "else" >> call Phrase.block)) >>
    mark ";"

/-- A macro in braces, which is a statement by itself. -/
def macroStatementAhead : Rules :=
  macroAhead >> look openBrace tree never >> absent (either point (mark "?"))

def statementRule : Rules :=
  look (mark ";") (mark ";")
    (call Phrase.attributes >>
      cases
        [(word "let", letRule),
         (macroStatementAhead, macroCall >> opt (mark ";"))]
        (boundedExpression ";"))

def blockRule : Rules := openBrace >> loop (absent stop) statementRule >> closeBrace

end Protobuf.Code.Grammar
