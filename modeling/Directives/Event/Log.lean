/-
The event log: one event a line.

* `EventLog.read`: the events of a log. Blank lines do not count, neither as
  events nor in the numbers of lines.
* `EventLog.append`: a log with one more event, made with its directory if need be.
* `EventLog.select`: the last events of a command.
-/
import Directives.Event.Basic
import Directives.Failure
import Directives.Text.Lines

namespace Directives.EventLog

/-- The lines of a log that are not blank. -/
def records (content : Text) : List Text := content.lines.filter (!·.isBlankText)

/-- The events of lines that are numbered from `number` on. -/
def readLines (file : Path) (number : Nat) : List Text → Except Failure (List Event)
  | [] => .ok []
  | line :: rest =>
      match Event.parse? line with
      | none => .error (.malformedEvent number file)
      | some event => (readLines file (number + 1) rest).map (event :: ·)

/-- The events of a log with the given content. -/
def readText (file : Path) (content : Text) : Except Failure (List Event) :=
  readLines file 1 (records content)

/-- The events of the log in a file. -/
def read (tree : FileTree) (file : Path) : Except Failure (List Event) :=
  match tree.readText file with
  | .error fault => .error (.unreadableEvents file fault)
  | .ok content => readText file content

/-- What an event adds to a log. -/
def record (event : Event) : Text := event.line ++ ['\n']

/-- The tree with the directory of a log. What is made before a fault stays. -/
def makeDirectory (tree : FileTree) (file : Path) : FileTree × Option Failure :=
  match Path.parent? file with
  | none => (tree, none)
  | some directory =>
      if directory.isEmpty || tree.exists? directory then (tree, none)
      else
        let (tree, fault) := tree.createDirectories directory
        (tree, fault.map (.noEventDirectory directory))

/-- The tree with one more event in a log. What is made before a fault stays. -/
def append (tree : FileTree) (file : Path) (event : Event) : FileTree × Option Failure :=
  match makeDirectory tree file with
  | (tree, some failure) => (tree, some failure)
  | (tree, none) =>
      match tree.append file (record event) with
      | .error fault => (tree, some (.unopenedEvents file fault))
      | .ok tree => (tree, none)

/-- The events of a command, or all of them, and of these the last ones. -/
def select (command : Option Text) (limit : Option Nat) (events : List Event) : List Event :=
  let chosen := events.filter fun e => command.all fun name => e.command == some name
  match limit with
  | none => chosen
  | some limit => chosen.drop (chosen.length - limit)

/-- The line about an event for a user. -/
def report (e : Event) : Text :=
  e.timestamp.brief ++ "  " ++ Text.padRight 7 e.action.word ++ "  "
    ++ Text.padRight 20 (e.command.getD ['-']) ++ "  " ++ e.actor ++ "  " ++ e.details.compact

end Directives.EventLog
