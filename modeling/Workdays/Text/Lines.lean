/-!
# Lines

A text is a sequence of lines. A line feed ends a line, and so does a carriage return with a line
feed right after it; a carriage return alone is a character like any other. What follows the last
line feed is a line of its own unless it is empty.
-/

namespace Workdays.Text

/-- Puts a character in front of the first line. -/
def consLine (c : Char) : List (List Char) → List (List Char)
  | [] => [[c]]
  | line :: lines => (c :: line) :: lines

/-- The lines of a text, without their ends. -/
def lines : List Char → List (List Char)
  | [] => []
  | '\n' :: cs => [] :: lines cs
  | '\r' :: '\n' :: cs => [] :: lines cs
  | c :: cs => consLine c (lines cs)

end Workdays.Text
