/-
Lines of a text.

A line ends at a line feed or at the end of the text; one carriage return right
before the line feed belongs to the ending. A text that ends in a line feed has
no empty line after it, and a carriage return elsewhere stays in its line.

* `Text.lines`: the lines in order.
-/
import Directives.Text.Basic

namespace Directives.Text

/-- Puts a character in front of the first line. -/
def onFirstLine (c : Char) : List Text → List Text
  | [] => [[c]]
  | line :: rest => (c :: line) :: rest

/-- The lines of a text, without their endings. -/
def lines : Text → List Text
  | [] => []
  | '\n' :: rest => [] :: lines rest
  | '\r' :: '\n' :: rest => [] :: lines rest
  | c :: rest => onFirstLine c (lines rest)

end Directives.Text
