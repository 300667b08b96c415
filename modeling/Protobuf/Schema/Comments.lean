/-
  Protobuf.Schema.Comments — the comments of a file, by the place they belong to.

  A place is a path of numbers: which kind of part, which of them, and so on inwards. The comment
  before a declaration is preferred to the one behind it. Lines are trimmed; a comment that trims
  to nothing is none, and of several for one place the last counts.
-/

import Protobuf.Descriptor
import Protobuf.Text.Blank

namespace Protobuf.Schema

/-- The steps of a path that name a kind of part. -/
inductive Part where
  | message
  | enum
  | field
  | nestedMessage
  | nestedEnum
  | oneof
  | enumValue
  deriving DecidableEq, Repr

abbrev Place := List Int32

def Part.code : Part → Int32
  | message => 4
  | enum => 5
  | field => 2
  | nestedMessage => 3
  | nestedEnum => 4
  | oneof => 8
  | enumValue => 2

/-- One part further in. -/
def Place.at (place : Place) (part : Part) (index : Nat) : Place :=
  place ++ [part.code, Int32.ofNat index]

structure Comments where
  entries : List (Place × String) := []
  deriving DecidableEq, Repr, Inhabited

namespace Comments

def get? (comments : Comments) (place : Place) : Option String := comments.entries.lookup place

def size (comments : Comments) : Nat := comments.entries.length

def isEmpty (comments : Comments) : Bool := comments.entries.isEmpty

/-- Replaces what was there. -/
def insert (comments : Comments) (place : Place) (text : String) : Comments :=
  ⟨(place, text) :: comments.entries.filter fun entry => entry.1 ≠ place⟩

/-- A comment with every line, and then the whole, trimmed. -/
def clean (text : String) : String := Text.trim ("\n".intercalate ((Text.lines text).map Text.trim))

def insertLocation (comments : Comments) (location : Descriptor.Location) : Comments :=
  match location.leading <|> location.trailing with
  | none => comments
  | some text =>
    if location.path.isEmpty || (clean text).isEmpty then comments
    else comments.insert location.path (clean text)

def ofLocations (locations : List Descriptor.Location) : Comments := locations.foldl insertLocation {}

/-- A comment's lines as documentation, each with a space in front unless it is empty. -/
def docLines (comment : Option String) : List String :=
  match comment with
  | none => []
  | some text => (Text.lines text).map fun line => if line.isEmpty then "" else " " ++ line

end Comments

end Protobuf.Schema
