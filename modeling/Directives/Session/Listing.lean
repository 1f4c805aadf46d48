/-
Listing: what a definition file holds.

* `Definition.listing`: the commands and libraries of a definition, and the
  built-in libraries, as a text.
* `ListTask.run`: the whole task.
-/
import Directives.Definition.Load
import Directives.Library
import Directives.Session.Task
import Directives.Session.World

namespace Directives

/-- A line of a listing: a name, and how many steps are under it. -/
def Definition.listingLine (name : Text) (steps : List Step) : Text :=
  ("  " : Text) ++ name ++ " (" ++ Text.ofNat steps.length ++ " step(s))\n"

/-- The commands, the libraries and the built-in libraries. -/
def Definition.listing (d : Definition) : Text :=
  ("Commands:\n" : Text) ++ d.commands.flatMap (fun (name, command) => listingLine name command.steps)
    ++ "\nLibraries:\n" ++ d.libraries.flatMap (fun (name, steps) => listingLine name steps)
    ++ "\nBuilt-in libraries:\n"
    ++ Library.all.flatMap fun library => ("  " : Text) ++ Library.scheme ++ library.name ++ ['\n']

/-- Prints what a definition file holds. -/
def ListTask.run (task : ListTask) (setting : Setting) : Session Unit := do
  let d ← Session.ofExcept (Definition.load (← Session.tree) (setting.path task.file))
  Session.print d.listing

end Directives
