/-
The layout of a document.

A document has one section for each severity that has rules, from critical to
low, and then one for each guideline; the guideline under the key
`error-handling` comes last. Sections are set apart by one empty line, and a
document that is not empty ends with one line feed.

* `Rule.block`, `Guideline.block`: the lines of one directive.
* `Layout.sections`: the sections in order.
* `Layout.document`: the text.
-/
import Directives.Document.Block
import Directives.Rule
import Directives.Guideline

namespace Directives

/-- The first line of a section. -/
def Block.header (title : Text) : Text := ("=== " : Text) ++ title ++ " ==="

/-- The lines of a rule after the first line of its body. -/
def Rule.details (rule : Rule) : Block :=
  (Block.ofText rule.body).drop 1
    ++ (rule.rationale.map fun text => Block.labelled "WHY: " (Block.ofText text)).getD []
    ++ (rule.violation.map fun text => Block.labelled "ON VIOLATION: " (Block.ofText text)).getD []

/-- What the first line of every rule starts with. -/
def Rule.head (rule : Rule) : Text := ("- [" : Text) ++ rule.key ++ [']']

/-- The lines of a rule: its key with the first line of its body, the rest of
the body, the rationale, and the text for violations. -/
def Rule.block (rule : Rule) : Block :=
  let first :=
    match Block.ofText rule.body with
    | [] => rule.head
    | line :: _ => rule.head ++ ' ' :: line
  first :: Block.indent 2 rule.details

namespace Guideline

/-- The first line of a guideline's section. -/
def header (guideline : Guideline) : Text := Block.header (("GUIDELINE: " : Text) ++ guideline.key)

/-- The blocks of the phases that have lines. -/
def phaseBlocks (guideline : Guideline) : List Block :=
  (guideline.phases.map Phase.block).filter (!·.isEmpty)

/-- Blocks behind numbers, from `number` on. -/
def numbered (number : Nat) : List Block → Block
  | [] => []
  | block :: rest => Block.labelled (Text.ofNat number ++ ". ") block ++ numbered (number + 1) rest

/-- The lines of a guideline: its header, the goal, the description, and the
phases, numbered in an example and under bullets elsewhere. -/
def block (guideline : Guideline) : Block :=
  guideline.header
    :: ((guideline.goal.map fun goal => Block.labelled "GOAL: " (Block.ofText goal)).getD []
      ++ guideline.description.flatMap Block.ofText
      ++ if guideline.isExample then numbered 1 guideline.phaseBlocks
         else guideline.phaseBlocks.flatMap (Block.labelled "- "))

/-- The key of the guideline that comes after all others. -/
def lastKey : Text := "error-handling"

end Guideline

namespace Layout

/-- The section of a severity, if it has rules. -/
def severitySection (rules : Registry Rule) (severity : Severity) : Option Block :=
  match rules.items.filter (·.severity == severity) with
  | [] => none
  | bucket => some (Block.header (("RULES: " : Text) ++ severity.label) :: bucket.flatMap Rule.block)

/-- The guidelines in the order of their sections. -/
def ordered (guidelines : Registry Guideline) : List Guideline :=
  guidelines.items.filter (·.key != Guideline.lastKey)
    ++ guidelines.items.filter (·.key == Guideline.lastKey)

/-- The sections of a document in order. -/
def sections (rules : Registry Rule) (guidelines : Registry Guideline) : List Block :=
  Severity.all.filterMap (severitySection rules) ++ (ordered guidelines).map Guideline.block

/-- The text of a document. -/
def document (rules : Registry Rule) (guidelines : Registry Guideline) : Text :=
  match sections rules guidelines with
  | [] => []
  | sections => Text.join "\n\n" (sections.map (Text.join "\n")) ++ ['\n']

end Layout

end Directives
