/-
Blanks and trimming.

A blank is a character of the Unicode property White_Space: U+0009 to U+000D,
U+0020, U+0085, U+00A0, U+1680, U+2000 to U+200A, U+2028, U+2029, U+202F,
U+205F and U+3000. The zero-width space U+200B, the byte order mark U+FEFF and
the information separators U+001C to U+001F are not blanks.

* `isBlank`: the property.
* `Text.trimStart`, `Text.trimEnd`, `Text.trim`: a text without the blanks at
  its start, at its end, at both.
* `Text.isBlankText`: nothing is left after trimming.
-/
import Directives.Text.Basic

namespace Directives

/-- The character has the property White_Space. -/
def isBlank (c : Char) : Bool :=
  let n := c.toNat
  (0x09 ≤ n && n ≤ 0x0d) || n == 0x20 || n == 0x85 || n == 0xa0 || n == 0x1680
    || (0x2000 ≤ n && n ≤ 0x200a) || n == 0x2028 || n == 0x2029 || n == 0x202f
    || n == 0x205f || n == 0x3000

namespace Text

/-- The text from its first character that is no blank. -/
def trimStart (text : Text) : Text := text.dropWhile isBlank

/-- The text up to its last character that is no blank. -/
def trimEnd (text : Text) : Text := (text.reverse.dropWhile isBlank).reverse

/-- The text without the blanks at both ends. -/
def trim (text : Text) : Text := text.trimStart.trimEnd

/-- The text has blanks only. -/
def isBlankText (text : Text) : Bool := text.all isBlank

end Text

end Directives
