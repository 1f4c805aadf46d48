/-
Linting: the diagnostics of all commands of files.

* `CommandReport`: the diagnostics of one command.
* `LintTask.lintCommands`, `LintTask.lintFiles`: the reports of commands and files.
* `LintTask.text`: what is printed about the reports.
* `LintTask.conclude`: success or failure of the run, by the reports.
* `LintTask.run`: the whole task.
-/
import Directives.Definition.Load
import Directives.Definition.Program
import Directives.Diagnostic.Json
import Directives.Session.Task
import Directives.Session.World

namespace Directives

/-- The diagnostics of one command. -/
structure CommandReport where
  /-- The file of the command, as it was named. -/
  file : Path
  command : Text
  diagnostics : List Diagnostic
  deriving Repr, DecidableEq

namespace CommandReport

/-- The report as an object. -/
def toJson (r : CommandReport) : Json :=
  .object
    [("file".toList, .text r.file), ("command".toList, .text r.command),
     ("diagnostics".toList, .array (r.diagnostics.map Diagnostic.toJson))]

/-- The report with one diagnostic a line. -/
def lines (r : CommandReport) : Text :=
  r.diagnostics.flatMap fun diagnostic =>
    r.file ++ ':' :: r.command ++ (": " : Text) ++ diagnostic.line ++ ['\n']

end CommandReport

namespace LintTask

/-- What is logged about the diagnostics of a command. -/
def details (file : Path) (diagnostics : List Diagnostic) : Json :=
  Json.fields
    [("file".toList, .text file), ("diagnostics".toList, .nat diagnostics.length)]

/-- The reports of commands of a file in order. -/
def lintCommands (setting : Setting) (file : Path) (d : Definition) :
    List (Text × Command) → Session (List CommandReport)
  | [] => return []
  | (name, command) :: rest => do
      let diagnostics := (d.draft name command setting.config.policy).diagnostics
      Session.logEvent setting .lint name (details file diagnostics)
      return ⟨file, name, diagnostics⟩ :: (← lintCommands setting file d rest)

/-- The reports of files in order. -/
def lintFiles (setting : Setting) : List Path → Session (List CommandReport)
  | [] => return []
  | file :: rest => do
      let d ← Session.ofExcept (Definition.load (← Session.tree) (setting.path file))
      let reports ← lintCommands setting file d d.commands
      return reports ++ (← lintFiles setting rest)

/-- The number of diagnostics of a kind in reports. -/
def count (kind : Diagnostic → Bool) (reports : List CommandReport) : Nat :=
  (reports.flatMap CommandReport.diagnostics).countP kind

/-- The number of errors. -/
def errorCount (reports : List CommandReport) : Nat := count Diagnostic.isError reports

/-- The number of dangling references. -/
def unresolvedCount (reports : List CommandReport) : Nat :=
  count (fun diagnostic => diagnostic.finding.isUnresolved) reports

/-- The line that sums reports up. -/
def summary (reports : List CommandReport) : Text :=
  Text.ofNat reports.length ++ (" command(s) checked: " : Text)
    ++ Text.ofNat (errorCount reports) ++ " error(s), "
    ++ Text.ofNat (unresolvedCount reports) ++ " unresolved reference(s)\n"

/-- What is printed about reports. -/
def text (task : LintTask) (reports : List CommandReport) : Text :=
  if task.json then (Json.array (reports.map CommandReport.toJson)).pretty ++ ['\n']
  else reports.flatMap CommandReport.lines ++ summary reports

/-- The run fails if there is an error. If the config forbids dangling references,
it fails if there is one. -/
def conclude (config : Config) (reports : List CommandReport) : Except Failure Unit :=
  let errors := errorCount reports
  let unresolved := unresolvedCount reports
  if 0 < errors then .error (.errorsFound errors)
  else if config.failOnUnresolved && 0 < unresolved then .error (.referencesFound unresolved)
  else .ok ()

/-- Reports the diagnostics of all commands of files. -/
def run (task : LintTask) (setting : Setting) : Session Unit := do
  let reports ← lintFiles setting task.files
  Session.print (task.text reports)
  Session.ofExcept (conclude setting.config reports)

end LintTask

end Directives
