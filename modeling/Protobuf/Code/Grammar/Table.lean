/-
  Protobuf.Code.Grammar.Table — the grammar: a rule for each phrase.
-/

import Protobuf.Code.Grammar.Expression
import Protobuf.Code.Grammar.Type

namespace Protobuf.Code.Grammar

def Phrase.rule : Phrase → Rules
  | .path kind => pathRule kind
  | .segment kind => segmentRule kind
  | .arguments kind => argumentsRule kind
  | .argument => argumentRule
  | .type sum => typeRule sum
  | .bound => boundRule
  | .bounds sum => boundsRule sum
  | .moreBounds sum => moreBoundsRule sum
  | .binder => binderRule
  | .attributes => attributesRule
  | .pattern => patternRule
  | .patterns => patternsRule
  | .expression braced => expressionRule braced
  | .operand braced => operandRule braced
  | .atom braced => atomRule braced
  | .operators braced compared ranged => operatorsRule braced compared ranged
  | .trailers => trailersRule
  | .blockLike => blockLikeRule
  | .block => blockRule

/-- Rules in each other's scope for one lexeme. -/
def stepsPerLexeme : Nat := 400

/-- Reads a whole text as a phrase. -/
def Phrase.read? (phrase : Phrase) (text : List Lexeme) : Option (List Spelt) :=
  match phrase.rule.run Phrase.rule (stepsPerLexeme * (text.length + 1)) text with
  | some (spelt, []) => some spelt
  | _ => none

end Protobuf.Code.Grammar
