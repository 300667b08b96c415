/-
  Protobuf.Generate.Vocabulary — the names and small forms that generated code is built from.

  The code relies on the supporting library `tightbuf` and on the standard ones; everything from
  them is named from the crate on, so no name of a schema can hide it.
-/

import Protobuf.Binary.Decimal
import Protobuf.Code.Tree
import Protobuf.Scalar

namespace Protobuf.Generate

open Code

/-! ## Paths -/

/-- An item of the supporting library. -/
def support (names : List String) : Path := .ofCrate ("tightbuf" :: names)

/-- A function of the library's encoding module. -/
def encoding (name : String) : Path := support ["encoding", name]

def optionPath (name : String) : Path := .ofCrate ["core", "option", "Option", name]

/-! ## Types -/

/-- A type by a name in scope. -/
def named (name : String) : Ty := .path (.ofNames [name]) []

def crateType (names : List String) (args : List Ty) : Ty := .path (.ofCrate names) args

def supportType (name : String) (args : List Ty) : Ty := .path (support [name]) args

def selfType : Ty := named "Self"

def optionType (type : Ty) : Ty := crateType ["core", "option", "Option"] [type]

def vecType (type : Ty) : Ty := crateType ["std", "vec", "Vec"] [type]

def stringType : Ty := crateType ["std", "string", "String"] []

def boxType (type : Ty) : Ty := crateType ["std", "boxed", "Box"] [type]

def mapType (key value : Ty) : Ty := crateType ["std", "collections", "HashMap"] [key, value]

/-- Anything that converts into the type. -/
def intoType (type : Ty) : Ty := .anyWith (crateType ["core", "convert", "Into"] [type])

def hasherType : Ty := crateType ["core", "hash", "Hasher"] []

/-! ## Expressions -/

def var (name : String) : Expr := .path (.ofNames [name])

def self : Expr := var "self"

/-- A field of the message at hand. -/
def own (name : String) : Expr := .field self name

def num (n : Nat) : Expr := .literal (.number (Nat.repr n))

def callPath (path : Path) (args : List Expr) : Expr := .call (.path path) args

def ref (e : Expr) : Expr := .unary .ref e

def refMut (e : Expr) : Expr := .unary .refMut e

def deref (e : Expr) : Expr := .unary .deref e

def assign (place value : Expr) : Expr := .binary .assign place value

/-- What a box holds, by reference. -/
def unboxed (name : String) : Expr := ref (deref (deref (var name)))

def unboxedMut (name : String) : Expr := refMut (deref (deref (var name)))

def wrapSome (e : Expr) : Expr := callPath (optionPath "Some") [e]

def noneValue : Expr := .path (optionPath "None")

/-- A library function of no arguments. -/
def crateCall (names : List String) : Expr := callPath (.ofCrate names) []

/-! ## Patterns -/

def namePat (name : String) : Pat := .path (.ofNames [name])

def wildcard : Pat := namePat "_"

def somePat (pattern : Pat) : Pat := .variant (optionPath "Some") [pattern]

/-! ## Literals -/

/-- A whole number; the least of its width has no magnitude to negate. -/
def signedLiteral (width : Nat) (suffix : String) (n : Int) : Expr :=
  if n = -(Nat.pow 2 (width - 1) : Int) then .path (.ofNames ["i" ++ Nat.repr width, "MIN"])
  else
    let magnitude := Expr.literal (.number (Nat.repr n.natAbs ++ suffix))
    if n < 0 then .unary .neg magnitude else magnitude

def floatLiteral (format : Binary.Format) (type : String) (bits : Nat) : Expr :=
  if format.isNaN bits then .path (.ofNames [type, "NAN"])
  else if format.isInfinite bits then
    .path (.ofNames [type, if format.isNegative bits then "NEG_INFINITY" else "INFINITY"])
  else
    let magnitude := Expr.literal (.number ((format.shortest bits).plain ++ type))
    if format.isNegative bits then .unary .neg magnitude else magnitude

/-- An expression for a value; texts and byte strings are borrowed. -/
def literal : Scalar → Expr
  | .int32 v | .sint32 v | .sfixed32 v => signedLiteral 32 "i32" v.toInt
  | .int64 v | .sint64 v | .sfixed64 v => signedLiteral 64 "i64" v.toInt
  | .uint32 v | .fixed32 v => .literal (.number (Nat.repr v.toNat ++ "u32"))
  | .uint64 v | .fixed64 v => .literal (.number (Nat.repr v.toNat ++ "u64"))
  | .float bits => floatLiteral .single "f32" bits.toNat
  | .double bits => floatLiteral .double "f64" bits.toNat
  | .bool v => var (if v then "true" else "false")
  | .string v => .literal (.text v)
  | .bytes v => .literal (.bytes v)
  | .enum n => signedLiteral 32 "" n.toInt

/-- A pattern for an enum number. -/
def numberPat (n : Int32) : Pat :=
  if n.toInt = -0x80000000 then .path (.ofNames ["i32", "MIN"])
  else
    let magnitude := Literal.number (Nat.repr n.toInt.natAbs)
    if n.toInt < 0 then .negative magnitude else .literal magnitude

end Protobuf.Generate
