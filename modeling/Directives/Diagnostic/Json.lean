/-
Diagnostics as JSON.

* `Finding.members`: the kind of a finding with its one field.
* `Diagnostic.toJson`: a diagnostic as an object. Its fields stand in a fixed
  order, and the libraries are left out if there are none.
-/
import Directives.Diagnostic
import Directives.Json.Basic

namespace Directives

/-- The kind of a finding, and what it was found about. -/
def Finding.members (f : Finding) : List (Text × Json) :=
  let subject : Text × Json :=
    match f with
    | ruleCollision key => ("key".toList, .text key)
    | guidelineCollision key => ("key".toList, .text key)
    | unresolvedReference name => ("name".toList, .text name)
    | libraryCycle chain => ("chain".toList, .array (chain.map .text))
    | unknownLibrary name => ("name".toList, .text name)
  [("kind".toList, .text f.kind), subject]

/-- The diagnostic as an object. -/
def Diagnostic.toJson (d : Diagnostic) : Json :=
  let via : List (Text × Json) :=
    if d.via.isEmpty then [] else [("via".toList, .array (d.via.map .text))]
  .object (("level".toList, .text d.level.word) :: (d.finding.members ++ via))

end Directives
