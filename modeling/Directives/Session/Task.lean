/-
Tasks: what a run may be asked to do.

* `RenderTask`: compile commands and write or print their documents.
* `LintTask`: compile commands for their diagnostics alone.
* `ListTask`: name what a definition holds.
* `ScanTask`: look for markers in finished documents.
* `LogTask`: show events of the log.
* `Task`: one of these.
* `Invocation`: a task with the config to use.
-/
import Directives.FileTree.Path

namespace Directives

/-- Compile the commands of a definition file. -/
structure RenderTask where
  file : Path
  /-- Compile this command alone. -/
  command : Option Text := none
  /-- Where documents are written, unless the config is to decide. -/
  directory : Option Path := none
  /-- Print documents, and write no files. -/
  print : Bool := false
  deriving Repr, DecidableEq

/-- Report the diagnostics of all commands of definition files. -/
structure LintTask where
  files : List Path
  /-- Report them as JSON. -/
  json : Bool := false
  deriving Repr, DecidableEq

/-- Name the commands and libraries of a definition file. -/
structure ListTask where
  file : Path
  deriving Repr, DecidableEq

/-- Look for markers in the documents of a directory. -/
structure ScanTask where
  directory : Path
  /-- Which documents to look at. If there are none, the config decides. -/
  globs : List Text := []
  deriving Repr, DecidableEq

/-- Show the events of the log. -/
structure LogTask where
  /-- Show the events of this command alone. -/
  command : Option Text := none
  /-- Show this many at most, the last ones. -/
  limit : Option Nat := none
  deriving Repr, DecidableEq

/-- What a run is asked to do. -/
inductive Task
  | render (task : RenderTask)
  | lint (task : LintTask)
  | list (task : ListTask)
  | scan (task : ScanTask)
  | log (task : LogTask)
  deriving Repr, DecidableEq

/-- A task, and the config to use for it. -/
structure Invocation where
  config : Option Path := none
  task : Task
  deriving Repr, DecidableEq

end Directives
