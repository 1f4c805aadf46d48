/-
Scanning as a task.

* `ScanTask.patterns`: which documents are scanned.
* `ScanTask.conclude`: what is printed about a report, and whether the run fails.
* `ScanTask.run`: the whole task.
-/
import Directives.Scan
import Directives.Session.Task
import Directives.Session.World

namespace Directives.ScanTask

/-- The patterns that are asked for, or else those of the config. -/
def patterns (task : ScanTask) (config : Config) : List Text :=
  if task.globs.isEmpty then config.scanGlobs else task.globs

/-- Prints a report. The run fails if it has hits. -/
def conclude (report : ScanReport) : Session Unit := do
  if report.isClean then
    Session.print
      (Text.ofNat report.documents ++ (" document(s) scanned, no unresolved tokens\n" : Text))
  else
    Session.warn report.message
    throw (.markersFound report.hits.length report.documents)

/-- Scans the documents of a directory. -/
def run (task : ScanTask) (setting : Setting) : Session Unit := do
  conclude (← Session.ofExcept
    (ScanReport.ofDirectory (← Session.tree) (setting.path task.directory)
      (task.patterns setting.config)))

end Directives.ScanTask
