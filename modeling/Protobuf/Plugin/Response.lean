/-
  Protobuf.Plugin.Response — what a request is answered with.

  A response has either all the generated files or one error, and says in any case which features
  of the schema language are supported.
-/

import Protobuf.Generate.Output
import Protobuf.Plugin.Request
import Protobuf.Scalar

namespace Protobuf.Plugin

inductive Response where
  /-- The request cannot be read. -/
  | unreadable (cause : DecodeError)
  | failed (cause : Generate.GenerateError)
  | generated (files : List Generate.OutputFile)

namespace Response

variable (language : Code.Language)

def ofRequest (request : Generate.Request) : Response :=
  match Generate.generate language request with
  | .error e => failed e
  | .ok files => generated files

/-- The answer to the bytes of a request. -/
def ofBytes (bytes : Bytes) : Response :=
  match decodeRequest bytes with
  | .error e => unreadable e
  | .ok request => ofRequest language request

def error? : Response → Option String
  | unreadable cause => some ("failed to decode CodeGeneratorRequest: " ++ cause.message)
  | failed cause => some cause.message
  | generated _ => none

def files : Response → List Generate.OutputFile
  | generated files => files
  | _ => []

/-- Optional fields with presence of their own. -/
def supportedFeatures : Nat := 1

/-! ## Bytes -/

def encodeText (number : Nat) (value : String) : Bytes :=
  Tag.encode (Tag.make number .lengthDelimited) ++ Frame.encode (Bytes.ofText value)

def encodeFile (file : Generate.OutputFile) : Bytes := encodeText 1 file.name ++ encodeText 15 file.text

def encode (response : Response) : Bytes :=
  (response.error?.map (encodeText 1)).getD [] ++
    Tag.encode (Tag.make 2 .varint) ++ Varint.encode supportedFeatures ++
    response.files.flatMap fun file =>
      Tag.encode (Tag.make 15 .lengthDelimited) ++ Frame.encode (encodeFile file)

end Response

end Protobuf.Plugin
