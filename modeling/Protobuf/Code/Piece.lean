/-
  Protobuf.Code.Piece — programs as tokens with the blanks and lines between them.

  One printer serves two forms: dropping everything but tokens gives the token list, laying the
  pieces out gives the text. Blocks open a line for each of their parts; an empty one stays closed.
-/

import Protobuf.Code.Tree
import Protobuf.Text.Quoted

namespace Protobuf.Code

inductive Piece where
  | token (token : Token)
  /-- A token that the laid-out text leaves out. -/
  | silent (token : Token)
  /-- The path of the module root, where it stands. -/
  | rootPath (root : Root) (use : RootUse)
  /-- A line of documentation. -/
  | doc (text : String)
  | space
  | line
  | deeper
  | shallower
  deriving DecidableEq, Repr, Inhabited

abbrev Pieces := List Piece

namespace Piece

def word (text : String) : Pieces := [.token (.word text)]

def mark (text : String) : Pieces := (Token.marks text).map .token

def number (n : Nat) : Pieces := [.token (.literal (Nat.repr n))]

/-- A piece as it stands inside a macro. -/
def inMacro : Piece → Piece
  | rootPath root _ => rootPath root .inMacro
  | piece => piece

/-- Parts with a comma and a blank between them. -/
def listed (parts : List Pieces) : Pieces := (parts.intersperse (mark "," ++ [Piece.space])).flatten

/-- Parts in braces, each on a line. -/
def braced (parts : List Pieces) : Pieces :=
  if parts.isEmpty then mark "\x7b\x7d"
  else mark "\x7b" ++ [Piece.deeper] ++ parts.flatMap ([Piece.line] ++ ·) ++ [Piece.shallower, Piece.line] ++
    mark "\x7d"

end Piece

open Piece

def Literal.token : Literal → Token
  | .number digits => .literal digits
  | .text value => .literal (Text.literal value)
  | .bytes value => .literal (Text.byteLiteral value)

def Path.pieces (path : Path) (use : RootUse) : Pieces :=
  match path.anchor with
  | .crate => path.names.flatMap fun name => mark "::" ++ word name
  | .here => ((path.names.map word).intersperse (mark "::")).flatten
  | .root root => rootPath root use :: path.names.flatMap fun name => mark "::" ++ word name

mutual

def Ty.pieces : Ty → Pieces
  | .path base [] => base.pieces .type
  | .path base (arg :: args) =>
    base.pieces .type ++ mark "<" ++ listed (arg.pieces :: Ty.listPieces args) ++ mark ">"
  | .lifetime name => mark "'" ++ word name
  | .ref target => mark "&" ++ target.pieces
  | .refMut target => mark "&" ++ word "mut" ++ [Piece.space] ++ target.pieces
  | .refStatic target => mark "&'" ++ word "static" ++ [Piece.space] ++ target.pieces
  | .slice element => mark "[" ++ element.pieces ++ mark "]"
  | .array element size => mark "[" ++ element.pieces ++ mark ";" ++ [Piece.space] ++ number size ++ mark "]"
  | .unit => mark "()"
  | .anyWith bound => word "impl" ++ [Piece.space] ++ bound.pieces

def Ty.listPieces : List Ty → List Pieces
  | [] => []
  | type :: rest => type.pieces :: Ty.listPieces rest

end

mutual

def Pat.pieces : Pat → Pieces
  | .path base => base.pieces .value
  | .literal value => [.token value.token]
  | .negative value => mark "-" ++ [.token value.token]
  | .variant base args => base.pieces .value ++ mark "(" ++ listed (Pat.listPieces args) ++ mark ")"
  | .tuple parts => mark "(" ++ listed (Pat.listPieces parts) ++ mark ")"
  | .ref target => mark "&" ++ target.pieces
  | .mutable name => word "mut" ++ [Piece.space] ++ word name
  | .bind name pattern => word name ++ [Piece.space] ++ mark "@" ++ [Piece.space] ++ pattern.pieces
  | .either patterns =>
    mark "(" ++ ((Pat.listPieces patterns).intersperse ([Piece.space] ++ mark "|" ++ [Piece.space])).flatten ++ mark ")"

def Pat.listPieces : List Pat → List Pieces
  | [] => []
  | pattern :: rest => pattern.pieces :: Pat.listPieces rest

end

def Unary.pieces : Unary → Pieces
  | neg => mark "-"
  | not => mark "!"
  | deref => mark "*"
  | ref => mark "&"
  | refMut => mark "&" ++ word "mut" ++ [Piece.space]

def Binary.text : Binary → String
  | add => "+"
  | mul => "*"
  | bitAnd => "&"
  | and => "&&"
  | eq => "=="
  | ne => "!="
  | assign => "="
  | addAssign => "+="
  | andAssign => "&="
  | orAssign => "|="

def Expr.isBlock : Expr → Bool
  | .block _ => true
  | _ => false

/-- The comma behind an arm: always behind an expression, behind a block only among the tokens. -/
def armEnd (body : Expr) (comma : Bool) : Pieces :=
  if !body.isBlock then mark "," else if comma then [.silent (.mark ',')] else []

mutual

def Expr.pieces : Expr → Pieces
  | .path base => base.pieces .value
  | .ofType type name => mark "<" ++ type.pieces ++ mark ">::" ++ word name
  | .literal value => [.token value.token]
  | .field object name => object.pieces ++ mark "." ++ word name
  | .call function args => function.pieces ++ mark "(" ++ listed (Expr.listPieces args) ++ mark ")"
  | .method object name args =>
    object.pieces ++ mark "." ++ word name ++ mark "(" ++ listed (Expr.listPieces args) ++ mark ")"
  | .index object position => object.pieces ++ mark "[" ++ position.pieces ++ mark "]"
  | .unary op operand => op.pieces ++ operand.pieces
  | .binary op left right => left.pieces ++ [Piece.space] ++ mark op.text ++ [Piece.space] ++ right.pieces
  | .cast operand type => operand.pieces ++ [Piece.space] ++ word "as" ++ [Piece.space] ++ type.pieces
  | .question operand => operand.pieces ++ mark "?"
  | .paren inner => mark "(" ++ inner.pieces ++ mark ")"
  | .unit => mark "()"
  | .array elements => mark "[" ++ listed (Expr.listPieces elements) ++ mark "]"
  | .repeated element count => mark "[" ++ element.pieces ++ mark ";" ++ [Piece.space] ++ number count ++ mark "]"
  | .struct base fields => base.pieces .value ++ [Piece.space] ++ braced (Init.listPieces fields)
  | .closure parameter body => mark "|" ++ word parameter ++ mark "|" ++ [Piece.space] ++ body.pieces
  | .hasForm operand pattern =>
    word "matches" ++ mark "!(" ++
      (operand.pieces ++ mark "," ++ [Piece.space] ++ pattern.pieces).map Piece.inMacro ++ mark ")"
  | .unreachable => word "unreachable" ++ mark "!()"
  | .ite condition body =>
    word "if" ++ [Piece.space] ++ condition.pieces ++ [Piece.space] ++ braced (Stmt.listPieces body)
  | .iteLet pattern operand body =>
    word "if" ++ [Piece.space] ++ word "let" ++ [Piece.space] ++ pattern.pieces ++ [Piece.space] ++ mark "=" ++
      [Piece.space] ++ operand.pieces ++ [Piece.space] ++ braced (Stmt.listPieces body)
  | .switch operand arms =>
    word "match" ++ [Piece.space] ++ operand.pieces ++ [Piece.space] ++ braced (Arm.listPieces arms)
  | .forever body => word "loop" ++ [Piece.space] ++ braced (Stmt.listPieces body)
  | .each pattern range body =>
    word "for" ++ [Piece.space] ++ pattern.pieces ++ [Piece.space] ++ word "in" ++ [Piece.space] ++ range.pieces ++
      [Piece.space] ++ braced (Stmt.listPieces body)
  | .block body => braced (Stmt.listPieces body)
  | .ret value => word "return" ++ [Piece.space] ++ value.pieces
  | .leave => word "break"

def Expr.listPieces : List Expr → List Pieces
  | [] => []
  | expr :: rest => expr.pieces :: Expr.listPieces rest

def Init.listPieces : List Init → List Pieces
  | [] => []
  | .mk name value :: rest =>
    (word name ++ mark ":" ++ [Piece.space] ++ value.pieces ++ mark ",") :: Init.listPieces rest

def Arm.listPieces : List Arm → List Pieces
  | [] => []
  | .mk pattern body comma :: rest =>
    (pattern.pieces ++ [Piece.space] ++ mark "=>" ++ [Piece.space] ++ body.pieces ++ armEnd body comma) ::
      Arm.listPieces rest

def Stmt.pieces : Stmt → Pieces
  | .bind mutable name type value =>
    word "let" ++ [Piece.space] ++ (if mutable then word "mut" ++ [Piece.space] else []) ++ word name ++
      (match type with
        | some type => mark ":" ++ [Piece.space] ++ type.pieces
        | none => []) ++
      [Piece.space] ++ mark "=" ++ [Piece.space] ++ value.pieces ++ mark ";"
  | .run value => value.pieces ++ mark ";"
  | .value value => value.pieces

def Stmt.listPieces : List Stmt → List Pieces
  | [] => []
  | stmt :: rest => stmt.pieces :: Stmt.listPieces rest

end

/-! ## Items -/

/-- Documentation, a line each. -/
def docPieces (docs : List String) : Pieces := docs.flatMap fun text => [.doc text, .line]

def Attribute.pieces (attr : Attribute) : Pieces :=
  let args := if attr.args.isEmpty then [] else mark "(" ++ listed (attr.args.map word) ++ mark ")"
  mark "#[" ++ word attr.name ++ args ++ mark "]"

def attributePieces (attributes : List Attribute) : Pieces :=
  attributes.flatMap fun attr => attr.pieces ++ [Piece.line]

def visibility (isPublic : Bool) : Pieces := if isPublic then word "pub" ++ [Piece.space] else []

/-- `name: Type`. -/
def typedPieces (name : String) (type : Ty) : Pieces := word name ++ mark ":" ++ [Piece.space] ++ type.pieces

def Receiver.pieces : Receiver → List Pieces
  | absent => []
  | owned => [word "self"]
  | ref => [mark "&" ++ word "self"]
  | refMut => [mark "&" ++ word "mut" ++ [Piece.space] ++ word "self"]

/-- The parameters of a function, on one line or one a line. -/
def Fn.paramPieces (fn : Fn) : Pieces :=
  let parts := fn.receiver.pieces ++ fn.params.map fun (name, type) => typedPieces name type
  if fn.isWrapped then
    mark "(" ++ [Piece.deeper] ++ parts.flatMap (fun part => [Piece.line] ++ part ++ mark ",") ++
      [Piece.shallower, Piece.line] ++ mark ")"
  else mark "(" ++ listed parts ++ mark ")"

def Fn.pieces (fn : Fn) : Pieces :=
  let generic :=
    match fn.generic with
    | some (name, bound) => mark "<" ++ typedPieces name bound ++ mark ">"
    | none => []
  let result :=
    match fn.result with
    | some type => [Piece.space] ++ mark "->" ++ [Piece.space] ++ type.pieces
    | none => []
  docPieces fn.docs ++ visibility fn.isPublic ++ word "fn" ++ [Piece.space] ++ word fn.name ++ generic ++
    fn.paramPieces ++ result ++ [Piece.space] ++ braced (Stmt.listPieces fn.body)

def Constant.pieces (constant : Constant) : Pieces :=
  docPieces constant.docs ++ visibility constant.isPublic ++ word "const" ++ [Piece.space] ++
    typedPieces constant.name constant.type ++ [Piece.space] ++ mark "=" ++ [Piece.space] ++ constant.value.pieces ++
    mark ";"

def ImplItem.pieces : ImplItem → Pieces
  | .fn f => f.pieces
  | .constant c => c.pieces

def Variant.pieces (variant : Variant) : Pieces :=
  let payload :=
    match variant.payload with
    | some type => mark "(" ++ type.pieces ++ mark ")"
    | none => []
  let discriminant :=
    match variant.discriminant with
    | some value => [Piece.space] ++ mark "=" ++ [Piece.space] ++ value.pieces
    | none => []
  docPieces variant.docs ++ attributePieces variant.attributes ++ word variant.name ++ payload ++ discriminant ++
    mark ","

mutual

def Item.pieces : Item → Pieces
  | .struct docs attributes name fields =>
    docPieces docs ++ attributePieces attributes ++ word "pub" ++ [Piece.space] ++ word "struct" ++ [Piece.space] ++
      word name ++ [Piece.space] ++ braced (fields.map fun (name, type) => typedPieces name type ++ mark ",")
  | .enum docs attributes name variants =>
    docPieces docs ++ attributePieces attributes ++ word "pub" ++ [Piece.space] ++ word "enum" ++ [Piece.space] ++
      word name ++ [Piece.space] ++ braced (variants.map Variant.pieces)
  | .impl ofTrait type members =>
    let ofTrait :=
      match ofTrait with
      | some type => type.pieces ++ [Piece.space] ++ word "for" ++ [Piece.space]
      | none => []
    word "impl" ++ [Piece.space] ++ ofTrait ++ type.pieces ++ [Piece.space] ++ braced (members.map ImplItem.pieces)
  | .module name items =>
    word "pub" ++ [Piece.space] ++ word "mod" ++ [Piece.space] ++ word name ++ [Piece.space] ++
      braced (Item.listPieces items)

def Item.listPieces : List Item → List Pieces
  | [] => []
  | item :: rest => item.pieces :: Item.listPieces rest

end

end Protobuf.Code
