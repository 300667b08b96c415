/-
  Protobuf.Sample.Kit — each scalar type as a single, an optional and a repeated field, a choice of
  everything, and maps with each kind of key.
-/

import Protobuf.Descriptor.Build
import Protobuf.Sample.Table

namespace Protobuf.Sample.Kit

open Descriptor

/-- A field of each type, numbered from `first` on. -/
def scalarFields (start : String) (first : Nat) (types : List ScalarType) : List Field :=
  types.mapIdx fun index type => .scalar (start ++ type.name) (Int32.ofNat (first + index)) type

def mood : Descriptor.Enum := .of "Mood" [("MOOD_CALM", 0), ("MOOD_LOUD", 1), ("MOOD_COLD", -5)]

def leaf : Descriptor.Message := .of "Leaf" [.scalar "id" 1 .int64, .scalar "text" 2 .string]

def all : Descriptor.Message :=
  (Descriptor.Message.of "All"
    (scalarFields "s_" 1 ScalarType.all
      ++ ([ .tracked (.scalar "o_int32" 16 .int32) 1,
            .tracked (.scalar "o_string" 17 .string) 2,
            .tracked (.scalar "o_bytes" 18 .bytes) 3,
            .tracked (.scalar "o_double" 19 .double) 4 ] : List Field)
      ++ (scalarFields "r_" 21 ScalarType.all).map Field.repeated
      ++ ([ .enum "e" 36 ".kit.Mood",
            .repeated (.enum "r_e" 37 ".kit.Mood"),
            .message "m" 38 ".kit.All",
            .repeated (.message "r_m" 39 ".kit.All"),
            .inOneof (.scalar "p_int" 40 .sint64) 0,
            .inOneof (.scalar "p_str" 41 .string) 0,
            .inOneof (.scalar "p_bytes" 42 .bytes) 0,
            .inOneof (.message "p_msg" 43 ".kit.All") 0,
            .inOneof (.message "p_leaf" 44 ".kit.Leaf") 0,
            .inOneof (.enum "p_enum" 45 ".kit.Mood") 0,
            .inOneof (.scalar "p_float" 46 .float) 0,
            .scalar "far" 2047 .uint32,
            .scalar "farther" 2048 .uint32,
            .scalar "last" 536870911 .uint32 ] : List Field)))
    |>.withOneofs ["pick", "_o_int32", "_o_string", "_o_bytes", "_o_double"]

/-- The key types and values of the maps, the names and numbers of which are their positions. -/
def mapTypes : List (ScalarType × Field) :=
  [ (.int32, .scalar "" 0 .string), (.int64, .scalar "" 0 .bytes), (.uint32, .scalar "" 0 .double),
    (.uint64, .scalar "" 0 .float), (.sint32, .scalar "" 0 .bool), (.sint64, .scalar "" 0 .sint64),
    (.fixed32, .scalar "" 0 .fixed64), (.fixed64, .scalar "" 0 .fixed32), (.sfixed32, .enum "" 0 ".kit.Mood"),
    (.sfixed64, .message "" 0 ".kit.Leaf"), (.bool, .scalar "" 0 .int32), (.string, .message "" 0 ".kit.Maps") ]

def maps : Descriptor.Message :=
  (Descriptor.Message.of "Maps"
    (mapTypes.mapIdx fun index _ =>
      .repeated (.message ("m" ++ Nat.repr (index + 1)) (Int32.ofNat (index + 1))
        (".kit.Maps.M" ++ Nat.repr (index + 1) ++ "Entry"))))
    |>.withNested (mapTypes.mapIdx fun index (key, value) =>
      .entryOf ("M" ++ Nat.repr (index + 1) ++ "Entry") key value)

def file : Descriptor.File where
  name := some "kit.proto"
  package := some "kit"
  dialect := some "proto3"
  messages := [leaf, all, maps]
  enums := [mood]

def table : Schema.TypeTable := tableOf file true

end Protobuf.Sample.Kit
