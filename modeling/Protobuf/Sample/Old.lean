/-
  Protobuf.Sample.Old — required fields in nested messages, defaults of every kind, repeated fields
  written one by one and presence bits over two words, with unknown fields dropped.
-/

import Protobuf.Descriptor.Build
import Protobuf.Sample.Kit
import Protobuf.Sample.Table

namespace Protobuf.Sample.Old

open Descriptor

def kind : Descriptor.Enum := .of "Kind" [("KIND_X", 7), ("KIND_Y", -1), ("KIND_Z", 0)]

def inner : Descriptor.Message :=
  .of "Inner" [.required (.scalar "n" 1 .uint32), .message "deep" 2 ".old.Inner"]

def req : Descriptor.Message :=
  (Descriptor.Message.of "Req"
    (([ .required (.scalar "id" 1 .int32),
        .withDefault (.required (.scalar "title" 2 .string)) "untitled",
        .message "child" 3 ".old.Inner",
        .required (.message "must" 4 ".old.Inner"),
        .required (.enum "kind" 5 ".old.Kind"),
        .withDefault (.scalar "d_float" 6 .float) "1.5",
        .withDefault (.scalar "d_nan" 7 .double) "nan",
        .withDefault (.scalar "d_neg" 8 .sint64) "-9223372036854775808",
        .withDefault (.scalar "d_str" 9 .string) "a\"b\n",
        .withDefault (.scalar "d_bytes" 10 .bytes) "\\000x\\377",
        .withDefault (.scalar "d_bool" 11 .bool) "true",
        .withDefault (.enum "d_kind" 12 ".old.Kind") "KIND_Z",
        .withDefault (.scalar "d_u" 13 .fixed64) "0xFFFFFFFFFFFFFFFF" ] : List Field)
      ++ (Kit.scalarFields "u_" 20 (ScalarType.all.take 13)).map Field.repeated
      ++ ([ .packedAs (.repeated (.scalar "k_int32" 40 .int32)) true,
            .packedAs (.repeated (.enum "k_kind" 41 ".old.Kind")) true,
            .repeated (.enum "u_kind" 42 ".old.Kind"),
            .inOneof (.message "c_msg" 50 ".old.Inner") 0,
            .inOneof (.scalar "c_int" 51 .int32) 0,
            .repeated (.message "by_id" 52 ".old.Req.ByIdEntry"),
            .repeated (.message "inners" 53 ".old.Inner") ] : List Field)
      ++ (List.range 36).map fun index => Field.scalar ("b" ++ Nat.repr index) (Int32.ofNat (100 + index)) .bool))
    |>.withOneofs ["choice"]
    |>.withNested [.entryOf "ByIdEntry" .int32 (.message "" 0 ".old.Inner")]

def file : Descriptor.File where
  name := some "old.proto"
  package := some "old"
  dialect := some "proto2"
  messages := [inner, req]
  enums := [kind]

def table : Schema.TypeTable := tableOf file false

end Protobuf.Sample.Old
