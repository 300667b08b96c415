/-
  Protobuf.Bytes — byte strings, and text as UTF-8.

  Every encoder in the library returns `Bytes`; every reader hands out `Bytes`. Text enters
  and leaves only through `ofText` and `toText?`, so a `String` is always well formed.
-/

namespace Protobuf

abbrev Bytes := List UInt8

namespace Bytes

/-- The UTF-8 bytes of a text. -/
def ofText (text : String) : Bytes := text.toByteArray.data.toList

/-- The text with these UTF-8 bytes; `none` when they are not well-formed UTF-8. -/
def toText? (bytes : Bytes) : Option String := String.fromUTF8? ⟨bytes.toArray⟩

end Bytes

/-- What all items take together, each as much as `size` says. -/
def total {α : Type} (size : α → Nat) (items : List α) : Nat :=
  @List.sum Nat instAddNat Zero.ofOfNat0 (items.map size)

end Protobuf
