/-
Names of run-time state and the tokens that stand for them.

Source material spells one name in several ways: `NAME`, `$NAME`, `{NAME}`,
`{$NAME}`, `${NAME}`, with blanks at any joint. A name is what is left when
blanks, one dollar on either side of the braces and one pair of braces are
taken off, so all spellings meet in one binding.

* `Name.normalize`: the name a spelling stands for.
* `Name.token`: the one spelling written into documents, `{NAME}`.
* `Name.marker`: the spelling of a name nobody declared, `{NAME?unresolved}`.
-/
import Directives.Text.Blank

namespace Directives.Name

/-- The text without the blanks around it and without one dollar in front. -/
def stripDollar (raw : Text) : Text :=
  match raw.trim with
  | '$' :: rest => Text.trim rest
  | trimmed => Text.trim trimmed

/-- The text inside one pair of braces, or the text itself where no such pair
encloses it. -/
def stripBraces : Text → Text
  | '{' :: rest => if rest.getLast? = some '}' then rest.dropLast else '{' :: rest
  | text => text

/-- The name a spelling stands for. -/
def normalize (raw : Text) : Text := stripDollar (stripBraces (stripDollar raw))

/-- The mark inside the token of a name that was never declared. -/
def unresolvedMark : Text := "?unresolved"

/-- The token of a declared name. -/
def token (name : Text) : Text := '{' :: (name ++ ['}'])

/-- The token of a name that was never declared. -/
def marker (name : Text) : Text := '{' :: (name ++ unresolvedMark ++ ['}'])

end Directives.Name
