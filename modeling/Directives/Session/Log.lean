/-
Showing the log.

* `LogTask.text`: what is printed about the events of a log.
* `LogTask.run`: the whole task.
-/
import Directives.Session.Task
import Directives.Session.World

namespace Directives.LogTask

/-- The last events that are asked for, one a line. -/
def text (task : LogTask) (events : List Event) : Text :=
  let chosen := EventLog.select task.command task.limit events
  if chosen.isEmpty then "No matching events.\n"
  else chosen.flatMap fun event => EventLog.report event ++ ['\n']

/-- Shows the events of the log, which the config must have. -/
def run (task : LogTask) (setting : Setting) : Session Unit := do
  match setting.config.eventsLog with
  | none => throw .noEventLog
  | some log =>
      let file := setting.path log
      let tree ← Session.tree
      if tree.exists? file then
        Session.print (task.text (← Session.ofExcept (EventLog.read tree file)))
      else
        Session.print "No events recorded.\n"

end Directives.LogTask
