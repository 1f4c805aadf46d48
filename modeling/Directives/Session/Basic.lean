/-
Runs: an invocation, carried out on a world.

* `Task.run`: a task under its setting.
* `Invocation.run`: a task under the config that the files of its directory give.
* `Ending`: the world after a run, and the failure, if it failed.
-/
import Directives.Session.Lint
import Directives.Session.Listing
import Directives.Session.Log
import Directives.Session.Render
import Directives.Session.Scan

namespace Directives

/-- Carries out a task. -/
def Task.run (setting : Setting) : Task → Session Unit
  | render task => task.run setting
  | lint task => task.run setting
  | list task => task.run setting
  | scan task => task.run setting
  | log task => task.run setting

/-- What a run leaves. -/
structure Ending where
  world : World
  failure : Option Failure := none
  deriving Repr

/-- The exit code of a run: zero if it did not fail. -/
def Ending.exitCode (ending : Ending) : Nat := ending.failure.elim 0 Failure.exitCode

/-- What an action leaves of the files it starts on. -/
def Session.finish (session : Session Unit) (tree : FileTree) : Ending :=
  match ExceptT.run session |>.run { tree } with
  | (.ok _, world) => { world }
  | (.error failure, world) => { world, failure := some failure }

namespace Invocation

/-- Carries out the task of an invocation in a directory. -/
def session (invocation : Invocation) (directory : Path) (actor : Text) (clock : Clock) :
    Session Unit := do
  let asked := invocation.config.map (Path.join directory)
  let config ← Session.ofExcept (Config.resolve (← Session.tree) asked directory)
  invocation.task.run { config, directory, actor, clock }

/-- What an invocation leaves of the files it starts on. -/
def run (invocation : Invocation) (tree : FileTree) (directory : Path) (actor : Text)
    (clock : Clock) : Ending :=
  (invocation.session directory actor clock).finish tree

end Invocation

end Directives
