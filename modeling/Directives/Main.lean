/-
The program: the command line on the files of the machine.

* `Main.read`: reads what a run may look at.
* `main`: carries out the run that the arguments ask for.
-/
import Directives.CommandLine.Basic
import Directives.Disk
import Directives.Session.Basic
import Std.Time.DateTime.Timestamp

namespace Directives.Main

/-- The line about how the program is called. -/
def usage : Text :=
  "Usage: edict [--config FILE] render|lint|list|scan|log [ARGUMENTS]\n"

/-- The version of the program. -/
def version : Text := "edict 0.1.0\n"

/-- Reads what a task may look at under a config. -/
def readTask (config : Config) (path : Path → Path) (tree : FileTree) : Task → IO FileTree
  | .render task => do
      let tree ← Disk.readPath tree (path task.file)
      Disk.readMembers tree (path (task.directory.getD config.outputDirectory))
  | .lint task => (task.files.map path).foldlM Disk.readPath tree
  | .list task => Disk.readPath tree (path task.file)
  | .scan task => Disk.readBelow tree (path task.directory)
  | .log _ => return tree

/-- Reads what a run may look at: its config first, which names more files. -/
def read (invocation : Invocation) (directory : Path) : IO FileTree := do
  let path := Path.join directory
  let asked := invocation.config.map path
  let tree ← Disk.readPath {} (asked.getD (path Config.fileName))
  match Config.resolve tree asked directory with
  | .error _ => return tree
  | .ok config =>
      let logs := config.eventsLog.toList.map path
      let tree ← logs.foldlM Disk.readPath tree
      readTask config path tree invocation.task

/-- What the clock of the machine reads now. -/
def now : IO Timestamp := do
  let nanoseconds := (← Std.Time.Timestamp.now).toNanosecondsSinceUnixEpoch.val
  return ⟨nanoseconds / 1000000000, (nanoseconds % 1000000000).toNat⟩

/-- The name of the machine. -/
def hostName : IO Text := do
  try
    return Text.trim (← IO.FS.readFile "/proc/sys/kernel/hostname").toList
  catch _ => return "unknown"

/-- The name of the user. -/
def userName : IO Text := do
  let name := (← IO.getEnv "USER").or (← IO.getEnv "USERNAME")
  return (name.getD "unknown").toList

/-- The user and the machine. -/
def actor : IO Text := return (← userName) ++ '@' :: (← hostName)

/-- Reads the clock of the machine as often as a run needs it. -/
def readClock (count : Nat) : IO Clock := do
  let readings ← (List.range count).mapM fun _ => now
  let last ← now
  return ⟨fun n => readings.getD n last⟩

/-- Carries out an invocation, and gives its exit code. How often the run reads the
clock is found out by a clock that stands still. -/
def perform (invocation : Invocation) : IO Nat := do
  let directory := (← IO.currentDir).toString.toList
  let tree ← read invocation directory
  let actor ← actor
  let still := invocation.run tree directory actor (← now)
  let ending := invocation.run tree directory actor (← readClock still.world.readings)
  Disk.writeChanges tree ending.world.tree
  IO.print (String.ofList ending.world.output)
  IO.eprint (String.ofList ending.world.warnings)
  for failure in ending.failure do
    IO.eprintln (String.ofList (("Error: " : Text) ++ failure.message))
  return ending.exitCode

/-- Answers arguments that ask for no task. -/
def explain (reason : CommandLine.Usage) : IO Nat := do
  match reason with
  | .displayVersion => IO.print (String.ofList version)
  | .displayHelp => IO.print (String.ofList usage)
  | _ => IO.eprint (String.ofList usage)
  return reason.exitCode

end Directives.Main

/-- Carries out the run that the arguments ask for. -/
def main (arguments : List String) : IO UInt32 := do
  let code ←
    match Directives.CommandLine.parse (arguments.map String.toList) with
    | .error reason => Directives.Main.explain reason
    | .ok invocation => Directives.Main.perform invocation
  return code.toUInt32
