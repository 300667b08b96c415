/-
  Protobuf.Generate.Output — the files generated for a request.

  A request lists files to generate among the files it brings. Options, registration, resolution and
  the code of each file are checked in that order, and the first failure is the whole answer. A
  file becomes one output file, or one for each type at its top; no two outputs share a name. All is
  said for any `language`, which only accepts or rejects what it is asked about.
-/

import Protobuf.Generate.Message
import Protobuf.Generate.Options
import Protobuf.Schema.Resolve

namespace Protobuf.Generate

open Code Schema

structure Request where
  listed : List String := []
  parameter : Option String := none
  files : List Descriptor.File := []
  deriving Repr, Inhabited

inductive GenerateError where
  | options (cause : OptionsError)
  | registration (cause : SchemaError)
  | resolution (file : String) (cause : SchemaError)
  | missingDescriptor (file : String)
  /-- A derived name is no identifier. -/
  | badName
  /-- The code of `subject` cannot be read back. -/
  | unreadable (subject : String)
  deriving DecidableEq, Repr

def GenerateError.message : GenerateError → String
  | options cause => "invalid generator parameter: " ++ cause.message
  | registration cause => cause.message
  | resolution file cause => "failed to generate " ++ file ++ ": " ++ cause.message
  | missingDescriptor file => file ++ " is listed for generation but its descriptor is missing"
  | badName => "a derived name is not an identifier"
  | unreadable subject => "failed to format code for " ++ subject

structure OutputFile where
  name : String
  /-- The schema file it comes from. -/
  source : String
  indent : Indent
  items : List Item

namespace OutputFile

def header (file : OutputFile) : List String :=
  ["// Code generated by protoc-gen-tightbuf. Do not edit!", "// source: " ++ file.source, ""]

def text (file : OutputFile) : String :=
  String.join (file.header.map (· ++ "\n")) ++ layout file.indent.unit file.items

end OutputFile

/-! ## Units of code -/

variable (language : Language)

/-- What goes into one output file: some messages and enums of a file. -/
structure CodeUnit where
  messages : List MessageTree
  enums : List EnumType
  /-- What to call it when it cannot be read back. -/
  subject : String

namespace CodeUnit

def items (unit : CodeUnit) (root : Root) : List Item :=
  messagesItems root unit.messages ++ unit.enums.flatMap enumItems

/-- The names of all variants of choices, used or not. -/
def variantNames (unit : CodeUnit) : List String :=
  (flattenAll unit.messages).flatMap fun type => type.variants.map Prod.snd

/-- The unit's items, if all names are identifiers. -/
def code (unit : CodeUnit) (root : Root) : Except GenerateError (List Item) :=
  let items := unit.items root
  if (Item.words items ++ unit.variantNames).all language.isIdentifier then .ok items else .error .badName

/-- The unit's items, if they can be read back. -/
def generate (unit : CodeUnit) (root : Root) : Except GenerateError (List Item) := do
  let items ← unit.code language root
  if language.reads items then return items else throw (.unreadable unit.subject)

end CodeUnit

/-! ## Names of files -/

/-- A name without the marks of a raw identifier. -/
def dropRaw : List Char → List Char
  | 'r' :: '#' :: rest => dropRaw rest
  | name => name

/-- `a/b/` for the modules of package `a.b`. -/
def directory (modules : List String) : String :=
  String.join (modules.map fun name => String.ofList (dropRaw name.toList) ++ "/")

/-- `shapes` for `demo/shapes.proto`. -/
def stem (fileName : String) : String :=
  let base := ((Text.splitOn '/' fileName).getLast?.getD "").toList
  let ending := ".proto".toList
  let base := if ending.isSuffixOf base then base.take (base.length - ending.length) else base
  Naming.snake (String.ofList (base.map fun c => if c.isAlphanum then c else '_'))

/-- The units of a file with the names they ask for. -/
def units (file : File) (options : Options) : List (String × CodeUnit) :=
  let place := directory file.modules
  if options.splitsTypes then
    let unitName := fun name => place ++ Naming.snake name
    let subject := fun name => name ++ " in " ++ file.name
    file.messages.map (fun tree => (unitName tree.type.name, ⟨[tree], [], subject tree.type.name⟩)) ++
      file.enums.map fun type => (unitName type.name, ⟨[], [type], subject type.name⟩)
  else [(place ++ stem file.name, ⟨file.messages, file.enums, file.name⟩)]

/-! ## Requests -/

def emitUnit (file : File) (options : Options) (taken : Naming.Scope) (name : String) (unit : CodeUnit) :
    Except GenerateError (OutputFile × Naming.Scope) := do
  let items ← unit.generate language options.root
  let (name, taken) := taken.claim name "_"
  return ({ name := name ++ ".rs", source := file.name, indent := options.indent, items }, taken)

/-- The outputs of a resolved file, whose names avoid those taken. -/
def emit (file : File) (options : Options) (taken : Naming.Scope) :
    Except GenerateError (List OutputFile × Naming.Scope) :=
  (units file options).foldlM (fun (outputs, taken) (name, unit) => do
    let (output, taken) ← emitUnit language file options taken name unit
    return (outputs ++ [output], taken)) ([], taken)

/-- The outputs for one listed file. -/
def generateFile (request : Request) (options : Options) (registry : Registry) (taken : Naming.Scope)
    (name : String) : Except GenerateError (List OutputFile × Naming.Scope) := do
  let some descriptor := request.files.find? fun file => file.nameText == name
    | throw (.missingDescriptor name)
  let file ← (registry.resolve descriptor options.keepsUnknown).mapError (.resolution name)
  emit language file options taken

def generate (request : Request) : Except GenerateError (List OutputFile) := do
  let options ← (Options.parse language (request.parameter.getD "")).mapError .options
  let registry ← (Registry.ofFiles request.files).mapError .registration
  let (outputs, _) ← request.listed.foldlM (fun (outputs, taken) name => do
    let (more, taken) ← generateFile language request options registry taken name
    return (outputs ++ more, taken)) (([], {}) : List OutputFile × Naming.Scope)
  return outputs

end Protobuf.Generate
