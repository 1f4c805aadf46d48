/-
Definitions: commands and libraries as data.

A definition names libraries, which are reusable lists of steps, and commands,
which have declarations and steps of their own. A step includes a library,
declares a name, or registers a rule or a guideline.

* `Passage`: one text or a list of texts.
* `Entry`: a phase as it is defined; `Entry.phase` is the phase it stands for.
* `Step`, `Command`, `Definition`.
* `Definition.library?`, `Definition.command?`: look up by name.
-/
import Directives.Rule
import Directives.Guideline

namespace Directives

/-- One text, or a list of texts. -/
inductive Passage
  | one (text : Text)
  | many (texts : List Text)
  deriving Repr, DecidableEq

/-- The texts of a passage. -/
def Passage.texts : Passage → List Text
  | one text => [text]
  | many texts => texts

/-- A phase as it is defined. -/
inductive Entry
  | leaf (text : Text)
  | sequence (items : List Entry)
  | ifThen (condition : Text) (body : Entry)
  | ifElse (condition : Text) (body otherwise : Entry)
  | forEach (source : Text) (body : Entry)
  | parallel (branches : List Entry)
  | bullets (items : List Entry)
  | abort
  | abortWith (message : Text)
  | output (lines : Passage)
  | verify (lines : Passage)
  | skip (label : Text)
  | note (text : Text)
  | report (text : Text)
  | scenario (text : Text)
  deriving Repr

namespace Entry

mutual

/-- The phase an entry stands for. A scenario is a labelled leaf. -/
def phase : Entry → Phase
  | leaf text => .leaf text
  | sequence items => .sequence (phases items)
  | ifThen condition body => .ifThen condition body.phase
  | ifElse condition body otherwise => .ifElse condition body.phase otherwise.phase
  | forEach source body => .forEach source body.phase
  | parallel branches => .parallel (phases branches)
  | bullets items => .bullets (phases items)
  | abort => .abort
  | abortWith message => .abortWith message
  | output lines => .output lines.texts
  | verify lines => .verify lines.texts
  | skip label => .skip label
  | note text => .note text
  | report text => .report text
  | scenario text => Guideline.scenario text

/-- The phases entries stand for, in order. -/
def phases : List Entry → List Phase
  | [] => []
  | item :: rest => item.phase :: phases rest

end

end Entry

/-- A rule as it is defined. -/
structure RuleStep where
  key : Text
  severity : Option Severity := none
  text : Passage := .many []
  why : Option Text := none
  onViolation : Option Text := none
  deriving Repr, DecidableEq

/-- A guideline as it is defined. -/
structure GuidelineStep where
  key : Text
  goal : Option Text := none
  isExample : Bool := false
  text : Passage := .many []
  phases : List Entry := []
  deriving Repr

/-- One step of a command or a library. -/
inductive Step
  /-- Takes in a library. -/
  | include (library : Text)
  | declare (name description : Text)
  | rule (rule : RuleStep)
  | guideline (guideline : GuidelineStep)
  deriving Repr

/-- A declaration of a command. -/
structure Declaration where
  name : Text
  description : Text := []
  deriving Repr, DecidableEq

/-- A command: its declarations, made before its steps, and its steps. -/
structure Command where
  store : List Declaration := []
  steps : List Step := []
  deriving Repr

/-- Libraries and commands under their names, in the order of the names. -/
structure Definition where
  libraries : List (Text × List Step) := []
  commands : List (Text × Command) := []
  deriving Repr

namespace Definition

/-- The steps of a library. -/
def library? (d : Definition) (name : Text) : Option (List Step) := d.libraries.lookup name

/-- The command of a name. -/
def command? (d : Definition) (name : Text) : Option Command := d.commands.lookup name

/-- The names of the libraries in order. -/
def libraryNames (d : Definition) : List Text := d.libraries.map Prod.fst

/-- The names of the commands in order. -/
def commandNames (d : Definition) : List Text := d.commands.map Prod.fst

end Definition

end Directives
