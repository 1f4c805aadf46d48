/-
Definitions read from files.

* `Definition.load`: the definition in a file.
-/
import Directives.Definition.Decode
import Directives.Failure

namespace Directives

/-- The definition in a file. -/
def Definition.load (tree : FileTree) (file : Path) : Except Failure Definition :=
  match tree.readText file with
  | .error fault => .error (.unreadableDefinition file fault)
  | .ok content =>
      match ofYaml? content with
      | some definition => .ok definition
      | none => .error (.malformedDefinition (some file))

end Directives
