/-!
Block strings: the value of the raw text between triple quotes. The indentation common to all
lines but the first is removed, and so are blank lines at both ends.
-/

namespace StaticQuery.BlockString

def isBlank (c : Char) : Bool :=
  c == ' ' || c == '\t'

/-- Splits into lines; a carriage return, a line feed and the pair of both each end one. The line
being collected is held in reverse. -/
def linesFrom (line : List Char) : List Char → List (List Char)
  | [] => [line.reverse]
  | '\r' :: '\n' :: rest => line.reverse :: linesFrom [] rest
  | '\r' :: rest => line.reverse :: linesFrom [] rest
  | '\n' :: rest => line.reverse :: linesFrom [] rest
  | c :: rest => linesFrom (c :: line) rest

def isBlankLine (line : List Char) : Bool :=
  line.all isBlank

def indentation (line : List Char) : Nat :=
  (line.takeWhile isBlank).length

def commonIndentation (lines : List (List Char)) : Nat :=
  ((lines.filter fun line => !isBlankLine line).map indentation).min?.getD 0

def trimBlankLines (lines : List (List Char)) : List (List Char) :=
  ((lines.dropWhile isBlankLine).reverse.dropWhile isBlankLine).reverse

def joinLines : List (List Char) → List Char
  | [] => []
  | [line] => line
  | line :: rest => line ++ '\n' :: joinLines rest

def value (raw : List Char) : List Char :=
  match linesFrom [] raw with
  | [] => []
  | first :: others =>
      joinLines (trimBlankLines (first :: others.map (·.drop (commonIndentation others))))

end StaticQuery.BlockString
