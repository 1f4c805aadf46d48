/-
What a run sees and changes.

A run works on a value: the files, and what was printed so far. What was done
before a failure stays done. The clock is read anew whenever a time is needed, so
the world counts the readings.

* `Clock`: the readings of a clock, one after another.
* `World`: the files, the texts printed, and how often the clock was read.
* `Setting`: what is fixed for a run: its config, its directory, who runs it and by
  which clock.
* `Session`: an action on the world that may fail.
* `Session.print`, `Session.warn`: print a text, to the user or as a warning.
* `Session.now`: reads the clock.
* `Session.logEvent`: adds an event to the log of the config, if it has one.
-/
import Directives.Config
import Directives.Event.Log

namespace Directives

/-- The readings of a clock, one after another. -/
structure Clock where
  reading : Nat → Timestamp

/-- A clock that stands still. -/
instance : Coe Timestamp Clock := ⟨fun moment => ⟨fun _ => moment⟩⟩

/-- The files, what was printed, and how often the clock was read. -/
structure World where
  tree : FileTree
  output : Text := []
  warnings : Text := []
  readings : Nat := 0
  deriving Repr

/-- What is fixed for a run. -/
structure Setting where
  config : Config
  /-- The directory that paths are taken from. -/
  directory : Path
  /-- Who runs it. -/
  actor : Text
  /-- The clock that it reads. -/
  clock : Clock

/-- The path as seen from the directory of the run. -/
def Setting.path (setting : Setting) (path : Path) : Path := Path.join setting.directory path

/-- The event about a command that a run logs at a moment. -/
def Setting.event (setting : Setting) (action : Action) (command : Text) (details : Json)
    (timestamp : Timestamp) : Event :=
  { timestamp, action, actor := setting.actor, command := some command, details }

/-- An action on the world that may fail. The world after a failure is what the
action had made of it. -/
abbrev Session := ExceptT Failure (StateM World)

namespace Session

/-- The action that does nothing but give a result that is there, or fail. -/
def ofExcept {α : Type} : Except Failure α → Session α
  | .ok value => return value
  | .error failure => throw failure

/-- The files as they are now. -/
def tree : Session FileTree := return (← get).tree

/-- Changes the files. What was changed before a failure stays. -/
def change (update : FileTree → FileTree × Option Failure) : Session Unit := do
  let world ← get
  let (tree, failure) := update world.tree
  set { world with tree }
  match failure with
  | none => return ()
  | some failure => throw failure

/-- Prints a text. -/
def print (text : Text) : Session Unit :=
  modify fun world => { world with output := world.output ++ text }

/-- Prints a text as a warning. -/
def warn (text : Text) : Session Unit :=
  modify fun world => { world with warnings := world.warnings ++ text }

/-- Reads the clock. -/
def now (setting : Setting) : Session Timestamp :=
  modifyGet fun world =>
    (setting.clock.reading world.readings, { world with readings := world.readings + 1 })

/-- Adds an event about a command to the log, if the config has one. -/
def logEvent (setting : Setting) (action : Action) (command : Text) (details : Json) :
    Session Unit := do
  let event := setting.event action command details (← now setting)
  match setting.config.eventsLog with
  | none => return ()
  | some log => change fun tree => EventLog.append tree (setting.path log) event

end Session

end Directives
