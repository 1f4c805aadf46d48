/-
Diagnostics: what is wrong with a command.

* `Level`: an error stops a command from compiling, a warning does not.
* `Finding`: a key registered twice, a dangling reference, a library that
  includes itself, a library nobody defined.
* `Diagnostic`: a finding with its level and the libraries it was made under.
* `Diagnostic.message`, `Diagnostic.line`: its wording.
-/
import Directives.Text.Basic

namespace Directives

/-- How much a diagnostic weighs. -/
inductive Level
  | error
  | warning
  deriving Repr, DecidableEq

/-- The word for a level. -/
def Level.word : Level → Text
  | error => "error"
  | warning => "warning"

/-- What is wrong. -/
inductive Finding
  /-- A rule key was registered before. -/
  | ruleCollision (key : Text)
  /-- A guideline key was registered before. -/
  | guidelineCollision (key : Text)
  /-- A name was referred to and not declared. -/
  | unresolvedReference (name : Text)
  /-- A chain of includes comes back to a library it went through. -/
  | libraryCycle (chain : List Text)
  /-- An include names no library. -/
  | unknownLibrary (name : Text)
  deriving Repr, DecidableEq

namespace Finding

/-- A key was registered before. -/
def isCollision : Finding → Bool
  | ruleCollision _ => true
  | guidelineCollision _ => true
  | _ => false

/-- A name was referred to and not declared. -/
def isUnresolved : Finding → Bool
  | unresolvedReference _ => true
  | _ => false

/-- The word for a kind of finding in structured output. -/
def kind : Finding → Text
  | ruleCollision _ => "rule_collision"
  | guidelineCollision _ => "guideline_collision"
  | unresolvedReference _ => "unresolved_reference"
  | libraryCycle _ => "library_cycle"
  | unknownLibrary _ => "unknown_library"

/-- The sentence about a finding. -/
def message : Finding → Text
  | ruleCollision key => ("duplicate rule key '" : Text) ++ key ++ ['\'']
  | guidelineCollision key => ("duplicate guideline key '" : Text) ++ key ++ ['\'']
  | unresolvedReference name => ("unresolved store reference '" : Text) ++ name ++ ['\'']
  | libraryCycle chain => ("library include cycle: " : Text) ++ Text.join " -> " chain
  | unknownLibrary name => ("unknown library '" : Text) ++ name ++ ['\'']

end Finding

/-- The names of a trail as one path, outermost first. -/
def trailPath (trail : List Text) : Text := Text.join " > " trail

/-- A finding with its level and the libraries that were open, outermost first. -/
structure Diagnostic where
  level : Level
  finding : Finding
  via : List Text := []
  deriving Repr, DecidableEq

namespace Diagnostic

/-- The diagnostic stops a command from compiling. -/
def isError (d : Diagnostic) : Bool := d.level == .error

/-- The sentence about a diagnostic, without its level. -/
def message (d : Diagnostic) : Text := d.finding.message

/-- The level, the sentence, and the libraries if there are any. -/
def line (d : Diagnostic) : Text :=
  let sentence := d.level.word ++ (": " : Text) ++ d.message
  if d.via.isEmpty then sentence
  else sentence ++ (" (via " : Text) ++ trailPath d.via ++ [')']

end Diagnostic

end Directives
