/-
  Protobuf.Sample.Legacy — settings with declared defaults, explicit presence and a required field.
-/

import Protobuf.Descriptor.Build
import Protobuf.Sample.Table

namespace Protobuf.Sample.Legacy

open Descriptor

def settings : Descriptor.Message :=
  (Descriptor.Message.of "Settings"
    [ .withDefault (.scalar "retries" 1 .int32) "3",
      .withDefault (.scalar "greeting" 2 .string) "hi",
      .withDefault (.scalar "magic" 3 .bytes) "\\001\\002",
      .enum "level" 4 ".demo.legacy.Level",
      .withDefault (.enum "fallback" 5 ".demo.legacy.Level") "HIGH",
      .required (.scalar "id" 6 .uint64),
      .repeated (.scalar "samples" 7 .fixed64),
      .withDefault (.scalar "ratio" 8 .double) "-inf",
      .withDefault (.scalar "enabled" 9 .bool) "true",
      .message "nested" 10 ".demo.legacy.Settings",
      .repeated (.message "history" 11 ".demo.legacy.Settings"),
      .repeated (.message "levels" 12 ".demo.legacy.Settings.LevelsEntry") ])
    |>.withNested [.entryOf "LevelsEntry" .int32 (.enum "" 0 ".demo.legacy.Level")]

def file : Descriptor.File where
  name := some "demo/legacy.proto"
  package := some "demo.legacy"
  dialect := some "proto2"
  messages := [settings]
  enums := [.of "Level" [("LOW", 1), ("HIGH", 2)]]

def table : Schema.TypeTable := tableOf file true

end Protobuf.Sample.Legacy
