/-
  Protobuf.Sample.Plain — the smallest messages, with unknown fields dropped.
-/

import Protobuf.Descriptor.Build
import Protobuf.Sample.Table

namespace Protobuf.Sample.Plain

open Descriptor

def file : Descriptor.File where
  name := some "demo/plain.proto"
  package := some "demo.plain"
  dialect := some "proto3"
  messages := [.of "Sparse" [.scalar "id" 1 .int32], .of "Empty" []]

def table : Schema.TypeTable := tableOf file false

end Protobuf.Sample.Plain
