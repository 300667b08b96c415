/-
  Protobuf.Sample.Table — the types of a single file.
-/

import Protobuf.Schema.Resolve
import Protobuf.Schema.Table

namespace Protobuf.Sample

open Schema

/-- A file that refers to no other, resolved; no types if it does not resolve. -/
def tableOf (file : Descriptor.File) (keepsUnknown : Bool) : TypeTable :=
  match Registry.ofFiles [file] with
  | .error _ => {}
  | .ok registry =>
    match registry.resolve file keepsUnknown with
    | .error _ => {}
    | .ok resolved => .ofFile resolved

end Protobuf.Sample
