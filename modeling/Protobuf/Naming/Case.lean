/-
  Protobuf.Naming.Case — one name in the spellings of modules, types and constants.

  Word boundaries for `snake` are ASCII: a capital after a small letter or digit, and the last
  capital of a run when a small letter follows, so an acronym stays one word. `pascal` and
  `pascalFromUpper` treat an underscore as the boundary and know the case of any character.
-/

import Protobuf.Text.Blank
import Protobuf.Text.CaseMap

namespace Protobuf.Naming

/-- Whether a capital between `before` and `next` begins a word. -/
def beginsWord (before next : Option Char) : Bool :=
  match before with
  | none => false
  | some b => b.isLower || b.isDigit || (b.isUpper && next.any Char.isLower)

def snakeFrom (before : Option Char) : List Char → List Char
  | [] => []
  | c :: rest =>
    let letters :=
      if c.isUpper then
        if beginsWord before rest.head? then ['_', c.toLower] else [c.toLower]
      else [c]
    letters ++ snakeFrom (some c) rest

/-- `HTTPServer` as `http_server`. -/
def snake (name : String) : String := String.ofList (snakeFrom none name.toList)

/-- `HTTPServer` as `HTTP_SERVER`. -/
def upperSnake (name : String) : String := String.ofList ((snakeFrom none name.toList).map Char.toUpper)

/-- A word with its first letter as a capital, the others through `tail`. -/
def capitalize (tail : Char → List Char) : List Char → List Char
  | [] => []
  | c :: rest => Text.upperCase c ++ rest.flatMap tail

/-- `foo_bar` as `FooBar`; capitals inside a word stay. -/
def pascal (name : String) : String :=
  String.ofList ((Text.splitAt '_' name.toList).flatMap (capitalize fun c => [c]))

/-- `FOO_BAR` as `FooBar`; capitals inside a word become small. -/
def pascalFromUpper (name : String) : String :=
  String.ofList ((Text.splitAt '_' name.toList).flatMap (capitalize Text.lowerCase))

end Protobuf.Naming
