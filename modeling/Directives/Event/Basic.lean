/-
Events: what runs leave in the log.

An event is one line of JSON. It is read from an object, of which fields that
events do not have are passed over, or from the list of its five fields in order.

* `Action`, `Event`: what was done, and when, by whom, to which command.
* `Event.line`: the line of an event.
* `Event.parse?`: the event of a line.
-/
import Directives.Json.Written
import Directives.Timestamp

namespace Directives

/-- What was done to a command. -/
inductive Action
  /-- It was compiled and its document written. -/
  | compile
  /-- It was compiled for its diagnostics. -/
  | lint
  deriving Repr, DecidableEq

namespace Action

/-- All actions. -/
def all : List Action := [compile, lint]

/-- The word for an action. -/
def word : Action → Text
  | compile => "compile"
  | lint => "lint"

/-- The action of a word. -/
def ofWord? (word : Text) : Option Action := all.find? (·.word == word)

end Action

/-- A record of the log. -/
structure Event where
  timestamp : Timestamp
  action : Action
  actor : Text
  command : Option Text := none
  /-- Anything that is known beyond that. -/
  details : Json := .object []
  deriving Repr

namespace Event

/-- The event as a JSON value. The command is left out if there is none. -/
def toJson (e : Event) : Json :=
  .object
    ([("ts".toList, .text e.timestamp.text), ("action".toList, .text e.action.word),
      ("actor".toList, .text e.actor)]
      ++ e.command.toList.map (fun command => ("command".toList, .text command))
      ++ [("details".toList, e.details)])

/-- The line of an event. -/
def line (e : Event) : Text := e.toJson.compact

/-! ### Reading -/

/-- The text of what is written, if it is one. -/
def textOf? : Written → Option Text
  | .text value => value
  | _ => none

/-- The text of what is written, or none for null. -/
def optionalTextOf? : Written → Option (Option Text)
  | .null => some none
  | w => (textOf? w).map some

/-- The action of what is written: its word, alone or as the key to null. -/
def actionOf? : Written → Option Action
  | .text (some word) => Action.ofWord? word
  | .object [(some word, .null)] => Action.ofWord? word
  | _ => none

/-- The value of what is written one level below an event. -/
def detailsOf? (w : Written) : Option Json := w.value? (Json.maxDepth - 1)

/-- The event of its five fields. -/
def ofFields? (timestamp action actor : Written) (command : Option Written) (details : Written) :
    Option Event := do
  return { timestamp := ← Timestamp.parse? (← textOf? timestamp), action := ← actionOf? action,
           actor := ← textOf? actor,
           command := ← command.elim (some none) optionalTextOf?,
           details := ← detailsOf? details }

/-- The field of a name, unless it is given more than once. -/
def single? (name : Text) (fields : List (Option Text × Written)) : Option (Option Written) :=
  match fields.filter (·.1 == some name) with
  | [] => some none
  | [(_, value)] => some (some value)
  | _ => none

/-- The event of what is written. -/
def ofWritten? : Written → Option Event
  | .array [timestamp, action, actor, command, details] =>
      ofFields? timestamp action actor (some command) details
  | .object fields => do
      if fields.all (·.1.isSome) then
        ofFields? (← ← single? "ts" fields) (← ← single? "action" fields)
          (← ← single? "actor" fields) (← single? "command" fields) (← ← single? "details" fields)
      else none
  | _ => none

/-- The event of a line. -/
def parse? (line : Text) : Option Event := do ofWritten? (← Written.parse? line)

end Event

end Directives
