/-
  Protobuf.Plugin.Command — the command line.

  A schema compiler runs the command without arguments and hands it a request. Anything else gets
  the usage text.
-/

import Protobuf.Plugin.Response

namespace Protobuf.Plugin

def programName : String := "protoc-gen-tightbuf"

def usageLines (program : String) : List String :=
  [ "tightbuf protoc plugin",
    "",
    "This program is run by protoc, not directly. It reads a CodeGeneratorRequest",
    "from stdin and writes a CodeGeneratorResponse to stdout.",
    "",
    "USAGE:",
    "  protoc --plugin=protoc-gen-tightbuf=" ++ program ++ " --tightbuf_out=OUT_DIR file.proto",
    "  protoc --tightbuf_out=store_unknown_fields=true,indent=2:OUT_DIR file.proto",
    "",
    "OPTIONS:",
    "  store_unknown_fields=true|false     keep unknown fields (default: false)",
    "  indent=2|4|8|tab                    indentation of emitted code (default: 4)",
    "  generate_multiple_files=true|false  one file per top-level type (default: false)",
    "  module_root=PATH                    prefix of generated paths (default: crate)",
    "",
    "Set TIGHTBUF_LOG (e.g. TIGHTBUF_LOG=debug) for diagnostics on stderr." ]

def usage (program : String) : String := String.join ((usageLines program).map (· ++ "\n"))

/-- What a run of the command writes. -/
inductive Reply where
  | usage (text : String)
  | response (response : Response)

/-- The reply to arguments and input. -/
def reply (language : Code.Language) (program : String) (args : List String) (input : Bytes) : Reply :=
  if !args.isEmpty || input.isEmpty then .usage (usage program) else .response (.ofBytes language input)

/-- The bytes to write. -/
def Reply.bytes : Reply → Bytes
  | usage text => Bytes.ofText text
  | response answer => answer.encode

end Protobuf.Plugin
