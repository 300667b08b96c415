/-
  Protobuf.Naming.Identifier — names that generated Rust code can use.

  A schema name can be a word the language keeps for itself. Fields and methods then take the raw
  form `r#name` where that is allowed; modules, types and variants get an underscore at the end.
-/

import Protobuf.Naming.Case
import Protobuf.Text.Identifier

namespace Protobuf.Naming

def keywords : List String := [
  "as", "break", "const", "continue", "crate", "else", "enum", "extern", "false", "fn", "for",
  "if", "impl", "in", "let", "loop", "match", "mod", "move", "mut", "pub", "ref", "return",
  "self", "Self", "static", "struct", "super", "trait", "true", "type", "unsafe", "use", "where",
  "while", "async", "await", "dyn", "abstract", "become", "box", "do", "final", "macro",
  "override", "priv", "typeof", "unsized", "virtual", "yield", "try", "gen"]

/-- Keywords without a raw form. -/
def pathKeywords : List String := ["self", "Self", "super", "crate"]

/-- Names that every generated message already uses for methods and storage. -/
def reservedMembers : List String := [
  "new", "default", "clone", "eq", "ne", "fmt", "hash", "field_hash", "clear", "merge_from",
  "encode_raw", "compute_size", "cached_size", "is_initialized", "encode_vec", "encode_to_vec",
  "encode_length_delimited_vec", "try_encode_vec", "decode", "decode_length_delimited",
  "merge_from_bytes", "clear_and_merge_from_bytes", "decode_from_read", "_has_bits", "_cached_size",
  "_unknown"]

def isKeyword (name : String) : Bool := keywords.contains name

/-- A field or method of this name. -/
def fieldName (name : String) : String :=
  if pathKeywords.contains name || name == "_" then name ++ "_"
  else if isKeyword name then "r#" ++ name
  else name

/-- A module, type or variant of this name. -/
def typeName (name : String) : String := if isKeyword name || name == "_" then name ++ "_" else name

/-- The modules of a package, one for each part of its name. -/
def packageModules (package : String) : List String :=
  ((Text.splitOn '.' package).filter (!·.isEmpty)).map fun part => typeName (snake part)

/-- Whether characters form an identifier: a letter or underscore, then letters, digits and marks. -/
def isPlainIdentifier : List Char → Bool
  | [] => false
  | c :: rest => (c == '_' || Text.isIdentifierStart c) && rest.all Text.isIdentifierContinue

/-- Whether the code can use this name as it stands, raw form included. -/
def isIdentifier (name : String) : Bool :=
  match name.toList with
  | 'r' :: '#' :: raw => isPlainIdentifier raw && !(("_" :: pathKeywords).contains (String.ofList raw))
  | plain => isPlainIdentifier plain

end Protobuf.Naming
