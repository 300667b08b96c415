/-
  Protobuf.Code.Form — the two written forms of a program.

  The token form of an item is its tokens with single spaces; a module contributes its name and
  then its items, each marked with the modules around it. The layout is ordinary program text. In
  a program that is printed, the module root takes the form that suits its place.

  What is an identifier, a path or a program is for the language to say. `Language` is what generation
  asks of it, and `Language.rust` are the answers that the command works with.
-/

import Protobuf.Code.Piece

namespace Protobuf.Code

def Piece.tokens (isPrinted : Bool) : Piece → List Token
  | .token t | .silent t => [t]
  | .rootPath root use => if isPrinted then (root.printed? use).getD root.tokens else root.tokens
  | .doc text => Token.marks "#[" ++ [.word "doc", .mark '=', .literal (Text.literal text), .mark ']']
  | .space | .line | .deeper | .shallower => []

def Pieces.tokens (isPrinted : Bool) (pieces : Pieces) : List Token := pieces.flatMap (Piece.tokens isPrinted)

mutual

/-- The items by their tokens, inside the modules `outer`. -/
def Item.entries (isPrinted : Bool) (outer : List String) : Item → List (List String × List Token)
  | .module name items => (outer ++ [name], [.word "mod"]) :: Item.listEntries isPrinted (outer ++ [name]) items
  | item@(.struct ..) | item@(.enum ..) | item@(.impl ..) => [(outer, item.pieces.tokens isPrinted)]

def Item.listEntries (isPrinted : Bool) (outer : List String) : List Item → List (List String × List Token)
  | [] => []
  | item :: rest => item.entries isPrinted outer ++ Item.listEntries isPrinted outer rest

end

/-- An item's line in the token form. -/
def entryText (entry : List String × List Token) : String :=
  let modules := String.join (entry.1.map (· ++ "::"))
  if modules.isEmpty then Token.spaced entry.2 else modules ++ " " ++ Token.spaced entry.2

/-- The token form, a text for each item. -/
def tokenForm (items : List Item) : List String := (Item.listEntries false [] items).map entryText

/-- The token form of the printed program, without the tokens that only group or separate. -/
def bareForm (items : List Item) : List String :=
  (Item.listEntries true [] items).map fun (modules, tokens) =>
    entryText (modules, tokens.filter (!·.isSeparator))

/-- Every word of the items. -/
def Item.words (items : List Item) : List String :=
  (Pieces.tokens false (Item.listPieces items).flatten).filterMap fun
    | .word text => some text
    | _ => none

/-- Whether the module root can be read wherever it stands. -/
def Item.isReadable (items : List Item) : Bool :=
  (Item.listPieces items).flatten.all fun
    | .rootPath root use => (root.printed? use).isSome
    | _ => true

/-- Answers about the language of the code. -/
structure Language where
  isIdentifier : String → Bool
  /-- The path that a text spells, if it is one. -/
  root? : String → Option Root
  /-- Whether items can be read back. -/
  reads : List Item → Bool

/-- The answers of the grammar of paths; of a block among the arguments of a path it reads no declarations. -/
def Language.rust : Language where
  isIdentifier := Naming.isIdentifier
  root? := Root.parse?
  reads := Item.isReadable

/-! ## Layout -/

/-- Lays out pieces behind `text`, `depth` levels in. -/
def Pieces.lay (unit : String) (depth : Nat) (text : String) : Pieces → String
  | [] => text
  | .token token :: rest => lay unit depth (text ++ token.text) rest
  | .rootPath root use :: rest =>
    lay unit depth (text ++ Token.joined ((root.printed? use).getD root.tokens)) rest
  | .silent _ :: rest => lay unit depth text rest
  | .doc line :: rest => lay unit depth (text ++ "///" ++ line) rest
  | .space :: rest => lay unit depth (text ++ " ") rest
  | .line :: rest => lay unit depth (text ++ "\n" ++ String.join (List.replicate depth unit)) rest
  | .deeper :: rest => lay unit (depth + 1) text rest
  | .shallower :: rest => lay unit (depth - 1) text rest

/-- Items one after another, each ending its last line. -/
def layout (unit : String) (items : List Item) : String :=
  String.join ((Item.listPieces items).map fun pieces => pieces.lay unit 0 "" ++ "\n")

end Protobuf.Code
