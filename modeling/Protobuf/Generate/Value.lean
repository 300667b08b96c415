/-
  Protobuf.Generate.Value — code for single values: their types, and how they are written, measured
  and read.

  Numbers are copied; texts and byte strings are kept in buffers and passed by reference, like
  messages. Reading and measuring a kind uses the library function named for it.
-/

import Protobuf.Generate.Vocabulary
import Protobuf.Schema.Strategy

namespace Protobuf.Generate

open Code Schema

def scalarCodeType : ScalarType → Ty
  | .int32 | .sint32 | .sfixed32 => named "i32"
  | .int64 | .sint64 | .sfixed64 => named "i64"
  | .uint32 | .fixed32 => named "u32"
  | .uint64 | .fixed64 => named "u64"
  | .float => named "f32"
  | .double => named "f64"
  | .bool => named "bool"
  | .string => stringType
  | .bytes => vecType (named "u8")

/-- The path of a generated type. -/
def itemPath (root : Root) (path : ItemPath) : Path := ⟨.root root, path.modules ++ [path.name]⟩

def plainCodeType (root : Root) : PlainType → Ty
  | .scalar type => scalarCodeType type
  | .enum target => supportType "EnumValue" [.path (itemPath root target.path) []]

def valueCodeType (root : Root) : ValueType → Ty
  | .plain type => plainCodeType root type
  | .message target => .path (itemPath root target.path) []

/-- How a value is held: in a buffer that is kept, or copied. -/
inductive Holding where
  | copied
  | text
  | bytes
  deriving DecidableEq, Repr

def holding : PlainType → Holding
  | .scalar .string => .text
  | .scalar .bytes => .bytes
  | _ => .copied

/-- Whether values are passed by themselves and not by reference. -/
def isCopied : ValueType → Bool
  | .plain type => holding type == .copied
  | .message _ => false

/-- A stored value as an argument. -/
def storedArg (type : ValueType) (place : Expr) : Expr := if isCopied type then place else ref place

/-- A value bound by reference as an argument. -/
def boundArg (type : ValueType) (name : String) : Expr := if isCopied type then deref (var name) else var name

/-! ## Writing, measuring, reading -/

def sinkCall (name : String) (args : List Expr) : Expr := .method (var "sink") name args

def sourceCall (name : String) (args : List Expr) : Expr := .question (.method (var "source") name args)

/-- Writes a value, without a tag. -/
def writeValue (type : ValueType) (value : Expr) : Expr :=
  match type with
  | .plain type => sinkCall ("write_" ++ type.kind.name) [value]
  | .message _ => sinkCall "write_message" [value]

/-- A value's size without a tag; a message is measured afresh or by the size it remembers. -/
def valueSize (type : ValueType) (value : Expr) (afresh : Bool) : Expr :=
  match type with
  | .plain type => callPath (encoding (type.kind.name ++ "_size")) [value]
  | .message _ =>
    let size := if afresh then "compute_size" else "cached_size"
    callPath (encoding "message_size") [callPath (support ["Protobuf", size]) [value]]

/-- Reads a value that is copied. -/
def readCopied (type : PlainType) : Expr := sourceCall ("read_" ++ type.kind.name) []

/-- Reads a value into a place: assigned if copied, else through a reference. -/
def readInto (type : ValueType) (target : Expr) : Expr :=
  match type with
  | .message _ => sourceCall "read_message" [target]
  | .plain type =>
    match holding type with
    | .text => sourceCall "read_string_into" [target]
    | .bytes => sourceCall "read_bytes_into" [target]
    | .copied => assign target (readCopied type)

/-- Reads a value into a variable. -/
def readLocal (type : ValueType) (name : String) : Expr :=
  readInto type (if isCopied type then var name else refMut (var name))

/-- Whether a value differs from zero, bit for bit. -/
def isNonzero (type : PlainType) (value : Expr) : Expr :=
  match type with
  | .scalar .bool => value
  | .scalar .float | .scalar .double => .binary .ne (.method value "to_bits" []) (num 0)
  | .scalar .string | .scalar .bytes => .unary .not (.method value "is_empty" [])
  | .scalar _ => .binary .ne value (num 0)
  | .enum _ => .binary .ne (.method value "number" []) (num 0)

/-- The size of a run of values, without tag and length. -/
def runSize (kind : Kind) (values : Expr) : Expr :=
  callPath (encoding ("packed_" ++ kind.name ++ "_data_size")) [values]

def writeRun (kind : Kind) (values : Expr) : Expr := sinkCall ("write_packed_" ++ kind.name) [values]

def readRun (kind : Kind) (values : Expr) : Expr := sourceCall ("read_packed_" ++ kind.name) [values]

/-! ## Defaults -/

/-- The value a field starts with. -/
def startValue (field : Field) (type : PlainType) : Scalar := field.default.getD (.zero type.kind)

/-- Builds a stored value. -/
def initialValue (type : PlainType) (value : Scalar) : Expr :=
  match type, holding type with
  | .enum _, _ => callPath (support ["EnumValue", "from_number"]) [literal value]
  | _, .text =>
    if value.isZero then crateCall ["std", "string", "String", "new"]
    else callPath (.ofCrate ["std", "string", "String", "from"]) [literal value]
  | _, .bytes =>
    if value.isZero then crateCall ["std", "vec", "Vec", "new"] else .method (literal value) "to_vec" []
  | _, .copied => literal value

/-- Gives a field its starting value, keeping its buffer. -/
def resetValue (name : String) (type : PlainType) (value : Scalar) : List Stmt :=
  let clear := Stmt.run (.method (own name) "clear" [])
  match holding type with
  | .text => if value.isZero then [clear] else [clear, .run (.method (own name) "push_str" [literal value])]
  | .bytes =>
    if value.isZero then [clear] else [clear, .run (.method (own name) "extend_from_slice" [literal value])]
  | .copied => [.run (assign (own name) (initialValue type value))]

end Protobuf.Generate
