/-
Blocks: lists of lines with relative indentation.

A label is put in front of a block by `labelled`, which sets the further lines
under the text of the first; `indent` moves a block to the right. Both leave
empty lines empty. Phases become blocks here.

* `Block`: a list of lines.
* `Block.ofText`, `Block.labelled`, `Block.indent`: text, label, margin.
* `Block.concurrencyNote`: the line below the branches of a parallel phase.
* `Phase.block`: the lines of a phase, depth first.
-/
import Directives.Phase
import Directives.Text.Blank
import Directives.Text.Lines

namespace Directives

/-- Lines from top to bottom. -/
abbrev Block := List Text

namespace Block

/-- The lines of a text. The empty text has none. -/
def ofText (text : Text) : Block := text.lines

/-- A line moved to the right, unless it is empty. -/
def shift (width : Nat) (line : Text) : Text :=
  if line.isEmpty then line else List.replicate width ' ' ++ line

/-- A block moved to the right. -/
def indent (width : Nat) (block : Block) : Block := block.map (shift width)

/-- A block behind a label. The first line loses its blanks at the end, the
further ones stand under the text of the first, and of an empty block the label
alone is left. -/
def labelled (label : Text) : Block → Block
  | [] => [label.trimEnd]
  | first :: rest => (label ++ first).trimEnd :: indent label.length rest

/-- The line below the branches of every parallel phase. -/
def concurrencyNote : Text := "ALL BRANCHES RUN CONCURRENTLY — WAIT FOR ALL BEFORE CONTINUING."

/-- A title over an indented block. An empty block has no title. -/
def titled (title : Text) (block : Block) : Block :=
  if block.isEmpty then [] else title :: indent 2 block

/-- The block behind a bullet. An empty block has no bullet. -/
def bulleted (block : Block) : Block :=
  if block.isEmpty then [] else labelled "- " block

/-- The block behind the label of the branch with the given number. -/
def branch (number : Nat) (block : Block) : Block :=
  indent 2 (labelled (("[BRANCH " : Text) ++ Text.ofNat number ++ "] ") block)

end Block

namespace Phase

open Block

mutual

/-- The lines of a phase. -/
def block : Phase → Block
  | leaf text => ofText text
  | sequence items => stacked items
  | ifThen condition body =>
      labelled (("IF " : Text) ++ condition ++ " THEN ") body.block
  | ifElse condition body otherwise =>
      labelled (("IF " : Text) ++ condition ++ " THEN ") body.block
        ++ labelled "ELSE " otherwise.block
  | forEach source body => (("FOR EACH " : Text) ++ source ++ [':']) :: indent 2 body.block
  | parallel branches =>
      if branches.isEmpty then []
      else ("PARALLEL:" : Text) :: branchBlocks 1 branches ++ [concurrencyNote]
  | bullets items => bulletBlocks items
  | abort => ["ABORT"]
  | abortWith message => labelled "ABORT: " (ofText message)
  | output lines => titled "OUTPUT:" (lines.flatMap ofText)
  | verify lines => titled "VERIFY:" (lines.flatMap fun line => bulleted (ofText line))
  | skip label => labelled "SKIP: " (ofText label)
  | note text => labelled "NOTE: " (ofText text)
  | report text => labelled "REPORT: " (ofText text)

/-- The lines of phases one after another. -/
def stacked : List Phase → Block
  | [] => []
  | item :: rest => item.block ++ stacked rest

/-- The lines of the branches of a parallel phase, numbered from `number`. -/
def branchBlocks (number : Nat) : List Phase → Block
  | [] => []
  | item :: rest => branch number item.block ++ branchBlocks (number + 1) rest

/-- The lines of phases under bullets. -/
def bulletBlocks : List Phase → Block
  | [] => []
  | item :: rest => bulleted item.block ++ bulletBlocks rest

end

end Phase

end Directives
