/-
  Protobuf.Text.Blank — white space, and texts cut at it.

  White space is Unicode's `White_Space`. Lines end at a line feed, with or without a carriage
  return before it; a text that ends in a line feed has no empty last line.
-/

namespace Protobuf.Text

def isBlank (c : Char) : Bool :=
  let code := c.toNat
  (9 ≤ code && code ≤ 13) || code == 0x20 || code == 0x85 || code == 0xA0 || code == 0x1680 ||
    (0x2000 ≤ code && code ≤ 0x200A) || code == 0x2028 || code == 0x2029 || code == 0x202F ||
    code == 0x205F || code == 0x3000

/-- Without white space at either end. -/
def trim (text : String) : String :=
  String.ofList ((text.toList.dropWhile isBlank).reverse.dropWhile isBlank).reverse

/-- The parts between occurrences of `mark`; one more than there are occurrences. -/
def splitAt (mark : Char) : List Char → List (List Char)
  | [] => [[]]
  | c :: rest =>
    if c = mark then [] :: splitAt mark rest
    else
      match splitAt mark rest with
      | part :: parts => (c :: part) :: parts
      | [] => [[c]]

/-- `splitAt` on texts. -/
def splitOn (mark : Char) (text : String) : List String := (splitAt mark text.toList).map String.ofList

/-- A line without the carriage return that belongs to its end. -/
def dropReturn (line : List Char) : List Char :=
  if line.getLast? = some '\r' then line.dropLast else line

def lines (text : String) : List String :=
  let parts := splitAt '\n' text.toList
  let whole := parts.dropLast.map dropReturn
  let rest := (parts.getLast?.getD [])
  (if rest.isEmpty then whole else whole ++ [rest]).map String.ofList

end Protobuf.Text
