/-
  Protobuf.Code.Tree — the Rust programs the generator writes, as trees.

  Only the forms that generated code uses. Parentheses are part of the tree, so printing needs no
  precedence. A path starts at a crate, at a name in scope, or below the module root.
-/

import Protobuf.Bytes
import Protobuf.Code.Root

namespace Protobuf.Code

/-- Where a path starts. -/
inductive Anchor where
  | crate
  | here
  | root (root : Root)
  deriving DecidableEq, Repr, Inhabited

structure Path where
  anchor : Anchor
  names : List String
  deriving DecidableEq, Repr, Inhabited

namespace Path

/-- `::a::b`. -/
def ofCrate (names : List String) : Path := ⟨.crate, names⟩

/-- `a::b`. -/
def ofNames (names : List String) : Path := ⟨.here, names⟩

/-- One name further. -/
def child (path : Path) (name : String) : Path := { path with names := path.names ++ [name] }

end Path

inductive Literal where
  /-- A number with its suffix, as written. -/
  | number (text : String)
  | text (value : String)
  | bytes (value : Bytes)
  deriving DecidableEq, Repr, Inhabited

inductive Ty where
  | path (path : Path) (args : List Ty)
  | lifetime (name : String)
  | ref (target : Ty)
  | refMut (target : Ty)
  | refStatic (target : Ty)
  | slice (element : Ty)
  | array (element : Ty) (size : Nat)
  | unit
  /-- Some type with the given trait. -/
  | anyWith (bound : Ty)
  deriving Repr, Inhabited

inductive Pat where
  | path (path : Path)
  | literal (value : Literal)
  | negative (value : Literal)
  /-- A variant with patterns for what it holds. -/
  | variant (path : Path) (args : List Pat)
  | tuple (parts : List Pat)
  | ref (target : Pat)
  | mutable (name : String)
  | bind (name : String) (pattern : Pat)
  /-- Either of several, in parentheses. -/
  | either (patterns : List Pat)
  deriving Repr, Inhabited

inductive Unary where
  | neg
  | not
  | deref
  | ref
  | refMut
  deriving DecidableEq, Repr, Inhabited

inductive Binary where
  | add
  | mul
  | bitAnd
  | and
  | eq
  | ne
  | assign
  | addAssign
  | andAssign
  | orAssign
  deriving DecidableEq, Repr, Inhabited

mutual

inductive Expr where
  | path (path : Path)
  /-- A function of a type, `<T>::f`. -/
  | ofType (type : Ty) (name : String)
  | literal (value : Literal)
  | field (object : Expr) (name : String)
  | call (function : Expr) (args : List Expr)
  | method (object : Expr) (name : String) (args : List Expr)
  | index (object : Expr) (position : Expr)
  | unary (op : Unary) (operand : Expr)
  | binary (op : Binary) (left right : Expr)
  | cast (operand : Expr) (type : Ty)
  /-- `e?`. -/
  | question (operand : Expr)
  | paren (inner : Expr)
  | unit
  | array (elements : List Expr)
  | repeated (element : Expr) (count : Nat)
  /-- A structure with its fields given. -/
  | struct (path : Path) (fields : List Init)
  | closure (parameter : String) (body : Expr)
  /-- Whether a value has the form of a pattern. -/
  | hasForm (operand : Expr) (pattern : Pat)
  | unreachable
  | ite (condition : Expr) (body : List Stmt)
  | iteLet (pattern : Pat) (operand : Expr) (body : List Stmt)
  | switch (operand : Expr) (arms : List Arm)
  | forever (body : List Stmt)
  | each (pattern : Pat) (range : Expr) (body : List Stmt)
  | block (body : List Stmt)
  | ret (value : Expr)
  | leave

inductive Init where
  | mk (name : String) (value : Expr)

inductive Arm where
  /-- An arm, and whether a comma ends it also behind a block. -/
  | mk (pattern : Pat) (body : Expr) (comma : Bool)

inductive Stmt where
  | bind (mutable : Bool) (name : String) (type : Option Ty) (value : Expr)
  /-- An expression for its effect. -/
  | run (value : Expr)
  /-- An expression without a semicolon: the value of a block, or one that ends in a block. -/
  | value (value : Expr)

end

instance : Inhabited Expr := ⟨.leave⟩

structure Attribute where
  name : String
  args : List String := []
  deriving DecidableEq, Repr, Inhabited

inductive Receiver where
  | absent
  | owned
  | ref
  | refMut
  deriving DecidableEq, Repr, Inhabited

structure Fn where
  docs : List String := []
  isPublic : Bool := false
  name : String
  /-- A type parameter with its bound. -/
  generic : Option (String × Ty) := none
  receiver : Receiver := .absent
  params : List (String × Ty) := []
  result : Option Ty := none
  body : List Stmt
  /-- Whether each parameter stands on a line of its own. -/
  isWrapped : Bool := false

structure Constant where
  docs : List String := []
  isPublic : Bool := false
  name : String
  type : Ty
  value : Expr

inductive ImplItem where
  | fn (fn : Fn)
  | constant (constant : Constant)

structure Variant where
  docs : List String := []
  attributes : List Attribute := []
  name : String
  payload : Option Ty := none
  discriminant : Option Expr := none

inductive Item where
  | struct (docs : List String) (attributes : List Attribute) (name : String) (fields : List (String × Ty))
  | enum (docs : List String) (attributes : List Attribute) (name : String) (variants : List Variant)
  /-- The members of a type, or of a trait for it. -/
  | impl (ofTrait : Option Ty) (type : Ty) (members : List ImplItem)
  | module (name : String) (items : List Item)

instance : Inhabited Item := ⟨.module "" []⟩

end Protobuf.Code
