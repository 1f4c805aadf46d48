/-
References found by a search.

A text is resolved in three steps: a look for `{$`, a search for the pattern of references,
and a walk over the matches that copies what stands between them. A text without `{$` is
left as it is.

* `Occurrence.pattern`: the pattern of references; `Occurrence.matchedName` is the name in a
  match.
* `Store.writeMatches`: the walk over the matches.
* `Store.resolveBy`: the text with every match replaced by what a reference yields.
-/
import Directives.Store.Occurrence
import Directives.Text.Pattern

namespace Directives

/-- A reference: `{$`, blanks, a name, blanks and `}`. -/
def Occurrence.pattern : Pattern where
  first c := c == '{'
  items := [.once (· == '$'), .many isBlank, .once isNameStart, .many isNamePart, .many isBlank,
    .once (· == '}')]

/-- The name in a match: its first character, and those it goes on with. -/
def Occurrence.matchedName (m : Pattern.Match) : Text := ((m.parts.drop 3).take 2).flatten

namespace Store

variable {σ : Type} (reference : σ → Text → Text × σ)

/-- Writes what stands behind the first `last` characters of a text: each match as what the
reference to its name yields, all else as it is. -/
def writeMatches (text : Text) (last : Nat) (s : σ) : List Pattern.Match → Text × σ
  | [] => (text.drop last, s)
  | m :: rest =>
      let (token, s) := reference s (Occurrence.matchedName m)
      let (behind, s) := writeMatches text m.stop s rest
      ((text.take m.start).drop last ++ token ++ behind, s)

/-- The text with every match replaced by what the reference to its name yields. -/
def resolveBy (s : σ) (text : Text) : Text × σ :=
  if Text.contains ['{', '$'] text then
    writeMatches reference text 0 s (Occurrence.pattern.search text)
  else
    (text, s)

end Store

end Directives
