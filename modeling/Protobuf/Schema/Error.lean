/-
  Protobuf.Schema.Error — what can be wrong with a schema.

  The first fault found ends the resolution of a file. Fields and messages are named in full.
-/

import Protobuf.Schema.Default

namespace Protobuf.Schema

inductive MapEntryFault where
  | noKey
  | noValue
  | badKey
  deriving DecidableEq, Repr

def MapEntryFault.message : MapEntryFault → String
  | noKey => "missing key field"
  | noValue => "missing value field"
  | badKey => "key must be an integer, bool or string"

inductive SchemaError where
  | unresolvedType (field typeName : String)
  | duplicateFieldNumber (message : String) (number : Nat) (first second : String)
  | invalidFieldNumber (field : String) (number : Int)
  | reservedFieldNumber (field : String) (number : Nat)
  | groupField (field : String)
  | unsupportedDialect (file dialect : String)
  | invalidDefault (field value : String) (reason : DefaultError)
  | invalidMapEntry (field : String) (reason : MapEntryFault)
  | duplicateType (name : String)
  deriving DecidableEq, Repr

def SchemaError.message : SchemaError → String
  | unresolvedType field typeName => field ++ ": unresolved type reference `" ++ typeName ++ "`"
  | duplicateFieldNumber message number first second =>
    message ++ ": field number " ++ toString number ++ " is used by both `" ++ first ++ "` and `" ++ second ++ "`"
  | invalidFieldNumber field number => field ++ ": invalid field number " ++ toString number
  | reservedFieldNumber field number =>
    field ++ ": field number " ++ toString number ++ " is in the reserved range 19000-19999"
  | groupField field => field ++ ": group fields are not supported"
  | unsupportedDialect file dialect => file ++ ": unsupported syntax `" ++ dialect ++ "`"
  | invalidDefault field value reason =>
    field ++ ": invalid default value `" ++ value ++ "`: " ++ reason.message
  | invalidMapEntry field reason => field ++ ": invalid map entry: " ++ reason.message
  | duplicateType name => "type `" ++ name ++ "` is defined more than once"

end Protobuf.Schema
