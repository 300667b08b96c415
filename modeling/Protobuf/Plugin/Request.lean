/-
  Protobuf.Plugin.Request — serialized requests.

  Of what a request brings, declarations, field options that change the wire form and comments
  are used; the rest only has to be readable.
-/

import Protobuf.Generate.Output
import Protobuf.Plugin.RawField

namespace Protobuf.Plugin

open RawField

def fieldOf (fields : List RawField) : Descriptor.Field where
  name := text? fields 1
  number := int32? fields 3
  type := (int32? fields 5).map fun code => .ofCode code.toInt
  label := (int32? fields 4).map fun code => .ofCode code.toInt
  typeName := text? fields 6
  default := text? fields 7
  oneofIndex := int32? fields 9
  tracksPresence := bool? fields 17
  packed := bool? (merged fields 8) 2

def enumValueOf (fields : List RawField) : Descriptor.EnumValue where
  name := text? fields 1
  number := int32? fields 2

def enumOf (fields : List RawField) : Descriptor.Enum where
  name := text? fields 1
  values := (records fields 2).map enumValueOf

/-- A message whose nested messages are given. -/
def messageOf (fields : List RawField) (nested : List Descriptor.Message) : Descriptor.Message :=
  .mk (text? fields 1) ((records fields 2).map fieldOf) nested ((records fields 4).map enumOf)
    ((records fields 8).map fun fields => { name := text? fields 1 }) (bool? (merged fields 7) 7)

mutual

/-- The message that a field holds, if it is one of nested messages. -/
def nested? : RawField → Option Descriptor.Message
  | .record n fields => if n = 3 then some (messageOf fields (nestedOf fields)) else none
  | _ => none

/-- The messages nested in one with these fields. -/
def nestedOf : List RawField → List Descriptor.Message
  | [] => []
  | field :: rest => (nested? field).toList ++ nestedOf rest

end

def locationOf (fields : List RawField) : Descriptor.Location where
  path := (numbers fields 1).map Int32.ofNat
  leading := text? fields 3
  trailing := text? fields 4

def fileOf (fields : List RawField) : Descriptor.File where
  name := text? fields 1
  package := text? fields 2
  dialect := text? fields 12
  messages := (records fields 4).map fun fields => messageOf fields (nestedOf fields)
  enums := (records fields 5).map enumOf
  locations := (records (merged fields 9) 1).map locationOf

def requestOf (fields : List RawField) : Generate.Request where
  listed := texts fields 1
  parameter := text? fields 2
  files := (records fields 15).map fileOf

/-- The request with these bytes. -/
def decodeRequest (bytes : Bytes) : Except DecodeError Generate.Request :=
  (Form.parse Form.maxDepth .request bytes).map requestOf

end Protobuf.Plugin
