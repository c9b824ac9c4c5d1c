/-! White space: what trimming removes at both ends of a text, what separates its words, and what ends
its lines. -/
namespace Spreadsheet.Text

/-- Unicode white space, the four information separators and the next-line control. -/
def isBlank (c : Char) : Bool :=
  let n := c.toNat
  (0x09 ≤ n && n ≤ 0x0D) || (0x1C ≤ n && n ≤ 0x20) || n == 0x85 || n == 0xA0 || n == 0x1680 ||
    (0x2000 ≤ n && n ≤ 0x200A) || n == 0x2028 || n == 0x2029 || n == 0x202F || n == 0x205F ||
    n == 0x3000

def trim (cs : List Char) : List Char :=
  ((cs.dropWhile isBlank).reverse.dropWhile isBlank).reverse

/-- Puts a character in front of a list of pieces; a separator opens a new piece. -/
def consPiece (separates : Char → Bool) (c : Char) : List (List Char) → List (List Char)
  | [] => if separates c then [[], []] else [[c]]
  | piece :: pieces => if separates c then [] :: piece :: pieces else (c :: piece) :: pieces

/-- What stands before, between and after the separators. -/
def pieces (separates : Char → Bool) (cs : List Char) : List (List Char) :=
  cs.foldr (consPiece separates) [[]]

/-- The maximal runs of characters other than blanks. -/
def words (cs : List Char) : List (List Char) :=
  (pieces isBlank cs).filter fun piece => !piece.isEmpty

/-- The characters that end a line: feeds, the carriage return, three of the separators, the
next-line control and the two Unicode separators. -/
def isBreak (c : Char) : Bool :=
  let n := c.toNat
  (0x0A ≤ n && n ≤ 0x0D) || (0x1C ≤ n && n ≤ 0x1E) || n == 0x85 || n == 0x2028 || n == 0x2029

/-- The lines that hold more than blanks. -/
def lines (cs : List Char) : List (List Char) :=
  (pieces isBreak cs).filter fun line => !line.all isBlank

/-- A text with a line feed for every carriage return, alone or before a line feed. -/
def withLineFeeds : List Char → List Char
  | [] => []
  | '\r' :: '\n' :: rest => '\n' :: withLineFeeds rest
  | c :: rest => (if c == '\r' then '\n' else c) :: withLineFeeds rest

/-- A text is blank if trimming leaves nothing of it. -/
def isAllBlank (s : String) : Bool :=
  s.toList.all isBlank

end Spreadsheet.Text
