/-
Markers of unresolved names in finished text.

A marker is `{`, a run of characters that are neither braces nor blanks, the
mark `?unresolved`, and `}`. The run is not empty and reaches up to the closing
brace, so a name may itself hold the mark.

* `Marker.isInner`: the characters a marker may hold between its braces.
* `Marker.name?`: the name in a marker whose inside is given.
* `Marker.find`: the names of all markers of a text, from left to right.
-/
import Directives.Store.Name

namespace Directives.Marker

/-- The character may stand between the braces of a marker. -/
def isInner (c : Char) : Bool := c != '{' && c != '}' && !isBlank c

/-- The name in a marker with the given inside: what stands before the mark,
unless that is nothing. -/
def name? (inside : Text) : Option Text :=
  match Text.dropEnd? Name.unresolvedMark inside with
  | some (c :: name) => some (c :: name)
  | _ => none

/-- The name of the marker that the text after an opening brace completes. -/
def close? (text : Text) : Option Text :=
  if (text.dropWhile isInner).head? = some '}' then name? (text.takeWhile isInner) else none

/-- The names in the markers of a text. A brace that opens no marker is passed
over, and so is the inside of a marker, which holds no brace. -/
def find : Text → List Text
  | [] => []
  | c :: rest =>
      if c = '{' then
        match close? rest with
        | some name => name :: find rest
        | none => find rest
      else
        find rest

end Directives.Marker
