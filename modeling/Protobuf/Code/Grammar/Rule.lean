/-
  Protobuf.Code.Grammar.Rule — grammars whose choices are made by looking ahead.

  A rule takes lexemes off the front of a text or fails; it never takes back what it took. Which
  way to go is told by looking ahead (`look`), so every text is read in one way. Rules of a grammar
  refer to each other by the phrases they define (`call`).

  Reading keeps the tokens. A text is printed much as it was written; the tokens that only one of
  the two forms has are told apart by `Spelt`.
-/

import Protobuf.Code.Lexeme.Basic

namespace Protobuf.Code.Grammar

/-- A token of a text that was read. -/
inductive Spelt where
  | both (token : Token)
  | written (token : Token)
  | printed (token : Token)
  deriving DecidableEq, Repr

namespace Spelt

def written? : Spelt → Option Token
  | both token | written token => some token
  | printed _ => none

def printed? : Spelt → Option Token
  | both token | printed token => some token
  | written _ => none

end Spelt

inductive Rule (P : Type) where
  /-- Takes nothing. -/
  | done
  | never
  /-- One lexeme. -/
  | want (test : Token → Bool)
  /-- Marks that directly follow each other. -/
  | marks (text : List Char)
  /-- One lexeme, or all from a bracket to the one that closes it. -/
  | tree
  /-- Takes nothing, at the end or before a closing bracket. -/
  | stop
  | both (first second : Rule P)
  /-- Goes on as `yes` or `no` by whether `ahead` succeeds here. -/
  | look (ahead yes no : Rule P)
  /-- Repeats `body` as long as `ahead` succeeds before it. -/
  | loop (ahead body : Rule P)
  | call (phrase : P)
  /-- What `rule` takes is written and not printed. -/
  | unprinted (rule : Rule P)
  /-- What `rule` takes is left out of both forms. -/
  | dropped (rule : Rule P)
  /-- A token that is printed without being written. -/
  | print (token : Token)
  /-- What `first` takes, with a printed token in front if `behind` succeeds behind it. -/
  | lead (token : Token) (first behind : Rule P)

namespace Rule

variable {P : Type}

instance : AndThen (Rule P) := ⟨fun first second => both first (second ())⟩

/-- Fails where `rule` succeeds, and takes nothing. -/
def absent (rule : Rule P) : Rule P := look rule never done

/-- Succeeds where one of two rules does; for looking ahead. -/
def either (first second : Rule P) : Rule P := look first first second

/-- Succeeds where one of several rules does. -/
def anyOf (rules : List (Rule P)) : Rule P := rules.foldr either never

/-- A lexeme that may be missing. -/
def opt (rule : Rule P) : Rule P := look rule rule done

/-- What stands only where something is ahead. -/
def following (ahead rule : Rule P) : Rule P := look ahead rule done

/-- The first rule whose condition holds. -/
def cases (ways : List (Rule P × Rule P)) (otherwise : Rule P) : Rule P :=
  ways.foldr (fun (ahead, rule) rest => look ahead rule rest) otherwise

def mark (text : String) : Rule P := marks text.toList

def words (texts : List String) : Rule P :=
  want fun
    | .word text => texts.contains text
    | _ => false

def word (text : String) : Rule P := words [text]

/-- Items with commas between them, perhaps one more behind, up to where `close` succeeds. -/
def listed (item close : Rule P) : Rule P := loop (absent close) (item >> look close done (mark ","))

/-- Items in brackets with commas between them. -/
def bracketed (first last : String) (item : Rule P) : Rule P := mark first >> listed item stop >> mark last

end Rule

/-! ## Reading -/

def takeMarks? : List Char → List Lexeme → Option (List Token × List Lexeme)
  | [], text => some ([], text)
  | [c], ⟨.mark d, _⟩ :: rest => if c = d then some ([.mark c], rest) else none
  | c :: more, ⟨.mark d, true⟩ :: rest =>
    if c = d then (takeMarks? more rest).map fun (tokens, rest) => (.mark c :: tokens, rest) else none
  | _, _ => none

/-- Tokens up to the end of the bracket in which `depth` more are open. -/
def takeBracket? : (depth : Nat) → List Lexeme → Option (List Token × List Lexeme)
  | _, [] => none
  | depth, ⟨token, _⟩ :: rest =>
    let more := fun depth => (takeBracket? depth rest).map fun (tokens, rest) => (token :: tokens, rest)
    match token with
    | .mark c =>
      if Lexeme.isClosing c then
        match depth with
        | 0 => some ([token], rest)
        | depth + 1 => more depth
      else if (Lexeme.closing? c).isSome then more (depth + 1)
      else more depth
    | _ => more depth

def takeTree? : List Lexeme → Option (List Token × List Lexeme)
  | [] => none
  | ⟨.mark c, _⟩ :: rest =>
    if (Lexeme.closing? c).isSome then
      (takeBracket? 0 rest).map fun (tokens, rest) => (.mark c :: tokens, rest)
    else if Lexeme.isClosing c then none
    else some ([.mark c], rest)
  | ⟨token, _⟩ :: rest => some ([token], rest)

def isAtStop : List Lexeme → Bool
  | [] => true
  | ⟨.mark c, _⟩ :: _ => Lexeme.isClosing c
  | _ => false

/-- What a rule takes off the front of a text, and the rest. `fuel` bounds how deep rules nest. -/
def Rule.run {P : Type} (grammar : P → Rule P) :
    (fuel : Nat) → Rule P → List Lexeme → Option (List Spelt × List Lexeme)
  | 0, _, _ => none
  | fuel + 1, rule, text =>
    let plain := fun (found : List Token × List Lexeme) => (found.1.map Spelt.both, found.2)
    match rule with
    | .done => some ([], text)
    | .never => none
    | .want test =>
      match text with
      | lexeme :: rest => if test lexeme.token then some ([.both lexeme.token], rest) else none
      | [] => none
    | .marks chars => (takeMarks? chars text).map plain
    | .tree => (takeTree? text).map plain
    | .stop => if isAtStop text then some ([], text) else none
    | .both first second =>
      match first.run grammar fuel text with
      | some (taken, rest) => (second.run grammar fuel rest).map fun (more, rest) => (taken ++ more, rest)
      | none => none
    | .look ahead yes no =>
      if (ahead.run grammar fuel text).isSome then yes.run grammar fuel text else no.run grammar fuel text
    | .loop ahead body =>
      if (ahead.run grammar fuel text).isSome then (Rule.both body (.loop ahead body)).run grammar fuel text
      else some ([], text)
    | .call phrase => (grammar phrase).run grammar fuel text
    | .unprinted rule =>
      (rule.run grammar fuel text).map fun (taken, rest) =>
        ((taken.filterMap Spelt.written?).map Spelt.written, rest)
    | .dropped rule => (rule.run grammar fuel text).map fun (_, rest) => ([], rest)
    | .print token => some ([.printed token], text)
    | .lead token first behind =>
      match first.run grammar fuel text with
      | some (taken, rest) =>
        if (behind.run grammar fuel rest).isSome then some (.printed token :: taken, rest)
        else some (taken, rest)
      | none => none

end Protobuf.Code.Grammar
