/-
Programs: the calls that build a draft, as data.

* `Call`: one call on a draft; opening a library carries the calls made inside.
* `Draft.run`, `Draft.runAll`: a call, and calls in order.
-/
import Directives.Draft.Basic

namespace Directives

/-- One call on a draft. -/
inductive Call
  | declare (name description : Text)
  | reference (name : Text)
  | rule (key : Text) (setters : List Rule.Call)
  | guideline (key : Text) (setters : List Guideline.Call)
  | record (level : Level) (finding : Finding)
  /-- Opens a library, makes the calls of the body, and closes the library. -/
  | compose (library : Text) (body : List Call)
  deriving Repr

namespace Draft

mutual

/-- The draft after one call. -/
def run (d : Draft) : Call → Draft
  | .declare name description => (d.declare name description).2
  | .reference name => (d.reference name).2
  | .rule key setters => d.addRule key setters
  | .guideline key setters => d.addGuideline key setters
  | .record level finding => d.record level finding
  | .compose library body => (runAll (d.enter library) body).leave

/-- The draft after calls in order. -/
def runAll (d : Draft) : List Call → Draft
  | [] => d
  | call :: rest => runAll (run d call) rest

end

end Draft

end Directives
