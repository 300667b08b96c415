/-
  Protobuf.Code.Token — program text as a list of tokens.

  Every punctuation character is a token of its own, so two programs that differ only in blanks
  have the same tokens. A literal is one token with its quotation marks and suffix.
-/

namespace Protobuf.Code

inductive Token where
  | word (text : String)
  | literal (text : String)
  | mark (c : Char)
  deriving DecidableEq, Repr, Inhabited

namespace Token

def text : Token → String
  | word text | literal text => text
  | mark c => c.toString

/-- Tokens with one space between them. -/
def spaced (tokens : List Token) : String := " ".intercalate (tokens.map text)

/-- Tokens without blanks, but for those that keep two words apart. -/
def joined : List Token → String
  | [] => ""
  | [token] => token.text
  | token :: next :: rest =>
    let gap := match token, next with
      | mark _, _ | _, mark _ => ""
      | _, _ => " "
    token.text ++ gap ++ joined (next :: rest)

/-- Marks that only group or separate, which a printer may add or leave out. -/
def isSeparator : Token → Bool
  | mark c => c == '{' || c == '}' || c == ',' || c == ';'
  | _ => false

/-- A token for each character. -/
def marks (text : String) : List Token := text.toList.map mark

end Token

end Protobuf.Code
