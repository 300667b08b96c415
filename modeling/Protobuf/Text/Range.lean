/-
  Protobuf.Text.Range — sets of characters given by ranges of code points.
-/

namespace Protobuf.Text

/-- Whether a code point lies in one of the ranges. A range is its first code point and how many follow. -/
def inRanges (ranges : List (Nat × Nat)) (code : Nat) : Bool :=
  ranges.any fun (first, more) => first ≤ code && code ≤ first + more

end Protobuf.Text
