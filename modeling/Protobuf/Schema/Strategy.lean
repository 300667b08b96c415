/-
  Protobuf.Schema.Strategy — how each field is held, written and read.

  A field has exactly one strategy. `Strategy.wireType` is the form the field is written in;
  `dispatch` lists the tags under which it is read. A repeated field of numbers has two: one value
  by itself, and a run of values, whichever of the two it is written in.
-/

import Protobuf.Schema.Basic

namespace Protobuf.Schema

inductive Strategy where
  | singular (type : PlainType) (presence : Presence)
  | message (ref : TypeRef)
  /-- One tag for each value. -/
  | repeated (type : PlainType)
  /-- One tag for a run of values. -/
  | packed (type : PlainType)
  /-- Texts or byte strings, which never share a run. -/
  | texts (type : PlainType)
  | messages (ref : TypeRef)
  | map (key : ScalarType) (value : ValueType)
  | member (oneof : Nat) (type : ValueType)
  deriving DecidableEq, Repr, Inhabited

namespace Field

def strategy (field : Field) : Strategy :=
  match field.type with
  | .map key value _ => .map key value
  | .value type =>
    match field.oneof, field.cardinality, type with
    | some oneof, _, type => .member oneof type
    | none, .singular, .message ref => .message ref
    | none, .singular, .plain type => .singular type field.presence
    | none, _, .message ref => .messages ref
    | none, cardinality, .plain type =>
      if type.kind.isLengthDelimited then .texts type
      else if cardinality = .packed then .packed type
      else .repeated type

end Field

namespace Strategy

/-- The wire type the field is written with. -/
def wireType : Strategy → WireType
  | singular type _ | repeated type => type.kind.wireType
  | member _ type => type.wireType
  | message _ | packed _ | texts _ | messages _ | map _ _ => .lengthDelimited

/-- The kind of a field that is read one by one and in runs. -/
def runKind? : Strategy → Option Kind
  | repeated type | packed type => some type.kind
  | _ => none

end Strategy

/-- What to do with the bytes behind a tag. -/
inductive Action where
  /-- The field's own form. -/
  | single
  /-- One value of a repeated field. -/
  | element
  /-- A run of values of a repeated field. -/
  | run
  deriving DecidableEq, Repr, Inhabited

structure Dispatch where
  tag : Tag
  /-- Position of the field in its message. -/
  field : Nat
  action : Action
  deriving DecidableEq, Repr, Inhabited

/-- The tags of one field. -/
def Field.dispatch (field : Field) (index : Nat) : List Dispatch :=
  match field.strategy.runKind? with
  | some kind => [
      ⟨Tag.make field.number kind.wireType, index, .element⟩,
      ⟨Tag.make field.number .lengthDelimited, index, .run⟩]
  | none => [⟨Tag.make field.number field.strategy.wireType, index, .single⟩]

/-- The tags of all fields, in declaration order. -/
def MessageType.dispatch (type : MessageType) : List Dispatch :=
  type.fields.zipIdx.flatMap fun (field, index) => field.dispatch index

end Protobuf.Schema
