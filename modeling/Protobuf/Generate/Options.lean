/-
  Protobuf.Generate.Options — how code is to be generated.

  The options come as one text: pairs `key=value` with commas between them, a key alone meaning
  `true`. Blanks around keys and values do not count. The first pair at fault is reported; of two
  values for one key the later holds. Which texts are paths is asked of the language.
-/

import Protobuf.Code.Form

namespace Protobuf.Generate

inductive OptionsError where
  | unknownOption (key : String)
  | invalidValue (key value reason : String)
  deriving DecidableEq, Repr

def OptionsError.message : OptionsError → String
  | unknownOption key => "unknown generator option `" ++ key ++ "`"
  | invalidValue key value reason =>
    "invalid value `" ++ value ++ "` for generator option `" ++ key ++ "`: " ++ reason

/-- What one level of indentation looks like. -/
inductive Indent where
  | spaces (count : Nat)
  | tab
  deriving DecidableEq, Repr

def Indent.unit : Indent → String
  | spaces count => "".pushn ' ' count
  | tab => "\t"

structure Options where
  keepsUnknown : Bool := false
  indent : Indent := .spaces 4
  /-- One file for each type declared at the top, not one for all. -/
  splitsTypes : Bool := false
  rootText : String := "crate"
  root : Code.Root := Code.Root.top
  deriving Repr

namespace Options

def readBool (key value : String) : Except OptionsError Bool :=
  match value with
  | "true" => .ok true
  | "false" => .ok false
  | _ => .error (.invalidValue key value "expected `true` or `false`")

def readIndent (value : String) : Except OptionsError Indent :=
  match value with
  | "2" => .ok (.spaces 2)
  | "4" => .ok (.spaces 4)
  | "8" => .ok (.spaces 8)
  | "tab" => .ok .tab
  | _ => .error (.invalidValue "indent" value "expected `2`, `4`, `8` or `tab`")

/-- Key and value of a pair; the value may itself hold an equals sign. -/
def splitPair (pair : List Char) : String × String :=
  let key := pair.takeWhile (· ≠ '=')
  match pair.drop key.length with
  | _ :: value => (Text.trim (String.ofList key), Text.trim (String.ofList value))
  | [] => (String.ofList key, "true")

def apply (language : Code.Language) (options : Options) (key value : String) : Except OptionsError Options :=
  match key with
  | "store_unknown_fields" => do return { options with keepsUnknown := ← readBool key value }
  | "generate_multiple_files" => do return { options with splitsTypes := ← readBool key value }
  | "indent" => do return { options with indent := ← readIndent value }
  | "module_root" =>
    match language.root? value with
    | some root => .ok { options with rootText := value, root }
    | none => .error (.invalidValue key value "expected a Rust path such as `crate::proto`")
  | _ => .error (.unknownOption key)

def parse (language : Code.Language) (parameter : String) : Except OptionsError Options :=
  (Text.splitOn ',' parameter).foldlM (fun options pair =>
    let pair := Text.trim pair
    if pair.isEmpty then .ok options
    else
      let (key, value) := splitPair pair.toList
      options.apply language key value) {}

end Options

end Protobuf.Generate
