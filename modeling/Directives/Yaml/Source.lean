/-
Characters of YAML text.

A text is prepared before it is read: every line break but the two Unicode
separators becomes a line feed, and a character outside the permitted set makes
the text malformed. Lengths are counted in bytes and columns in characters.

* `Yaml.isPrintable`: the permitted characters.
* `Yaml.prepare?`: a text made ready for reading.
* `Yaml.Position`, `Yaml.Cursor`: a place in the text, and the text from there.
* `Yaml.Cursor.advance`, `Yaml.Cursor.skipWhile`: moving on.
-/
import Directives.Text.Basic

namespace Directives.Yaml

/-- The character may occur in YAML text. -/
def isPrintable (c : Char) : Bool :=
  let n := c.toNat
  n == 0x09 || n == 0x0a || n == 0x0d || (0x20 ≤ n && n ≤ 0x7e) || n == 0x85
    || (0xa0 ≤ n && n ≤ 0xd7ff) || (0xe000 ≤ n && n ≤ 0xfffd) || 0x10000 ≤ n

/-- A line break, once the text is prepared. -/
def isBreak (c : Char) : Bool := c == '\n' || c == '\u2028' || c == '\u2029'

/-- A space or a tab. -/
def isSpace (c : Char) : Bool := c == ' ' || c == '\t'

/-- The text is at its end, at a line break, or at a space or a tab. -/
def atBlank : Text → Bool
  | [] => true
  | c :: _ => isSpace c || isBreak c

/-- The text is at its end or at a line break. -/
def atLineEnd : Text → Bool
  | [] => true
  | c :: _ => isBreak c

/-- Line feeds for all breaks that are spelled in another way. -/
def unifyBreaks : Text → Text
  | [] => []
  | '\r' :: '\n' :: rest => '\n' :: unifyBreaks rest
  | c :: rest => (if c = '\r' || c = '\u0085' then '\n' else c) :: unifyBreaks rest

/-- A byte order mark, which counts for nothing between tokens where it is the
first character of a line. It takes up a column all the same. -/
def isByteOrderMark (c : Char) : Bool := c == '\ufeff'

/-- The text made ready for reading, if its characters are permitted. -/
def prepare? (text : Text) : Option Text :=
  if text.all isPrintable then some (unifyBreaks text) else none

/-- A place in a text. -/
structure Position where
  line : Nat := 0
  column : Nat := 0
  /-- The number of bytes before it. -/
  offset : Nat := 0
  deriving Repr, DecidableEq

/-- The place after a character. -/
def Position.after (p : Position) (c : Char) : Position :=
  if isBreak c then ⟨p.line + 1, 0, p.offset + c.utf8Size⟩
  else ⟨p.line, p.column + 1, p.offset + c.utf8Size⟩

/-- A place in a text, with the text from there. -/
structure Cursor where
  position : Position
  rest : Text
  deriving Repr, DecidableEq

namespace Cursor

/-- The place `count` characters on. -/
def advance (c : Cursor) (count : Nat) : Cursor :=
  ⟨(c.rest.take count).foldl Position.after c.position, c.rest.drop count⟩

/-- The place after the characters from here that satisfy `p`. -/
def skipWhile (p : Char → Bool) (c : Cursor) : Cursor := c.advance (c.rest.takeWhile p).length

/-- The column of the place. -/
def column (c : Cursor) : Nat := c.position.column

end Cursor

/-- The text at the given column starts with the marker of a document's start or
end. -/
def atDocumentMark (column : Nat) (text : Text) : Bool :=
  column == 0 && atBlank (text.drop 3)
    && (Text.startsWith "---" text || Text.startsWith "..." text)

end Directives.Yaml
