/-
Documents: what compiled commands come out as.

A draft compiles if no error was recorded on it; warnings go along with the
document.

* `Document`: a name, a text, warnings, and counts.
* `Draft.compile`: the document of a draft, or the failure that lists its errors.
* `Definition.compile`, `Definition.compileAll`: commands by name, all commands.
-/
import Directives.Definition.Program
import Directives.Failure

namespace Directives

/-- What a compiled command comes out as. -/
structure Document where
  name : Text
  text : Text
  /-- The warnings that were recorded, dangling references last. -/
  diagnostics : List Diagnostic
  ruleCount : Nat
  guidelineCount : Nat
  deriving Repr, DecidableEq

/-- The number of dangling references. -/
def Document.unresolvedCount (document : Document) : Nat :=
  document.diagnostics.countP (·.finding.isUnresolved)

/-- The document of a draft without errors. -/
def Draft.compile (d : Draft) : Except Failure Document :=
  if d.hasErrors then
    .error (.defective d.name d.errors)
  else
    .ok { name := d.name, text := d.document, diagnostics := d.diagnostics,
          ruleCount := d.rules.size, guidelineCount := d.guidelines.size }

namespace Definition

/-- The document of the command of a name. -/
def compile (d : Definition) (name : Text) (policy : CollisionPolicy) : Except Failure Document :=
  match d.command? name with
  | none => .error (.unknownCommand name d.commandNames)
  | some command => (d.draft name command policy).compile

/-- The documents of all commands in the order of their names. A command that
fails does not touch the others. -/
def compileAll (d : Definition) (policy : CollisionPolicy) :
    List (Text × Except Failure Document) :=
  d.commands.map fun (name, command) => (name, (d.draft name command policy).compile)

end Definition

end Directives
