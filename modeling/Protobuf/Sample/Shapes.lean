/-
  Protobuf.Sample.Shapes — points and shapes: every way a field can be declared without required
  ones, with unknown fields kept.
-/

import Protobuf.Descriptor.Build
import Protobuf.Sample.Table

namespace Protobuf.Sample.Shapes

open Descriptor

def point : Descriptor.Message := .of "Point" [.scalar "x" 1 .int32, .scalar "y" 2 .int32]

def shape : Descriptor.Message :=
  (Descriptor.Message.of "Shape"
    [ .scalar "name" 1 .string,
      .enum "color" 2 ".demo.shapes.Color",
      .message "origin" 3 ".demo.shapes.Point",
      .repeated (.message "vertices" 4 ".demo.shapes.Point"),
      .repeated (.scalar "weights" 5 .int32),
      .packedAs (.repeated (.scalar "offsets" 6 .sint64)) false,
      .repeated (.scalar "tags" 7 .string),
      .repeated (.message "labels" 8 ".demo.shapes.Shape.LabelsEntry"),
      .repeated (.message "anchors" 9 ".demo.shapes.Shape.AnchorsEntry"),
      .inOneof (.scalar "radius" 10 .double) 0,
      .inOneof (.message "corner" 11 ".demo.shapes.Point") 0,
      .inOneof (.scalar "caption" 12 .string) 0,
      .inOneof (.enum "tint" 13 ".demo.shapes.Color") 0,
      .tracked (.scalar "revision" 14 .uint32) 1,
      .scalar "payload" 15 .bytes,
      .scalar "visible" 16 .bool,
      .scalar "checksum" 17 .fixed64,
      .scalar "scale" 18 .float,
      .repeated (.enum "palette" 19 ".demo.shapes.Color"),
      .repeated (.message "children" 20 ".demo.shapes.Shape"),
      .enum "style" 21 ".demo.shapes.Shape.Style" ])
    |>.withOneofs ["kind", "_revision"]
    |>.withNested
      [ .entryOf "LabelsEntry" .string (.scalar "" 0 .int64),
        .entryOf "AnchorsEntry" .int32 (.message "" 0 ".demo.shapes.Point") ]
    |>.withEnums [.of "Style" [("STYLE_SOLID", 0), ("STYLE_DASHED", 1)]]

def color : Descriptor.Enum := .of "Color"
  [("COLOR_UNSPECIFIED", 0), ("COLOR_RED", 1), ("COLOR_GREEN", 2), ("COLOR_BLUE", 3), ("COLOR_CRIMSON", 1)]

def file : Descriptor.File where
  name := some "demo/shapes.proto"
  package := some "demo.shapes"
  dialect := some "proto3"
  messages := [point, shape]
  enums := [color]

def table : Schema.TypeTable := tableOf file true

end Protobuf.Sample.Shapes
