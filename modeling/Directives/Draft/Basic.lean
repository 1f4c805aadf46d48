/-
Drafts: one command while it is being built.

A draft holds the registries, the store and the diagnostics of one command. It
is built by calls in order; nothing is shared between drafts.

* `CollisionPolicy`: what a key registered twice means.
* `Draft`: the state; at first there is nothing in it but the name of the command.
* `Draft.record`, `Draft.collide`: diagnostics under the open libraries.
* `Draft.addRule`, `Draft.addGuideline`: a registration with its setters.
* `Draft.enter`, `Draft.leave`: a library opens, and closes.
* `Draft.diagnostics`, `Draft.hasErrors`, `Draft.document`: what comes out.
-/
import Directives.Diagnostic
import Directives.Document.Layout

namespace Directives

/-- What it means that a key is registered twice. The later registration is
kept in every case. -/
inductive CollisionPolicy
  /-- An error. -/
  | error
  /-- A warning. -/
  | warn
  /-- Nothing. -/
  | overwrite
  deriving Repr, DecidableEq

namespace CollisionPolicy

/-- All policies. -/
def all : List CollisionPolicy := [error, warn, overwrite]

/-- The word for a policy. -/
def word : CollisionPolicy → Text
  | error => "error"
  | warn => "warn"
  | overwrite => "overwrite"

/-- The level a collision is recorded at, if it is recorded. -/
def level? : CollisionPolicy → Option Level
  | error => some .error
  | warn => some .warning
  | overwrite => none

end CollisionPolicy

/-- The registries, the store and the diagnostics of one command. -/
structure Draft where
  name : Text
  policy : CollisionPolicy := .error
  rules : Registry Rule := {}
  guidelines : Registry Guideline := {}
  store : Store := {}
  /-- The diagnostics recorded so far, dangling references apart. -/
  recorded : List Diagnostic := []
  /-- The libraries that are open now, outermost first. -/
  trail : List Text := []
  /-- Every library opened so far, as the path of the trail it opened. -/
  composed : List Text := []
  deriving Repr

namespace Draft

/-- Records a finding under the open libraries. -/
def record (d : Draft) (level : Level) (finding : Finding) : Draft :=
  { d with recorded := d.recorded ++ [⟨level, finding, d.trail⟩] }

/-- Records a collision at the level of the policy, if the key is taken. -/
def collide (d : Draft) (taken : Bool) (finding : Finding) : Draft :=
  match taken, d.policy.level? with
  | true, some level => d.record level finding
  | _, _ => d

/-- Declares a name. -/
def declare (d : Draft) (name description : Text) : Text × Draft :=
  let (token, store) := d.store.declare name description
  (token, { d with store })

/-- Refers to a name. -/
def reference (d : Draft) (name : Text) : Text × Draft :=
  let (token, store) := d.store.reference name
  (token, { d with store })

/-- Registers a rule and carries out its setters. -/
def addRule (d : Draft) (key : Text) (setters : List Rule.Call) : Draft :=
  let d := d.collide (d.rules.contains key) (.ruleCollision key)
  let (rule, store) := Rule.applyAll { key } d.store setters
  { d with rules := d.rules.insert rule, store }

/-- Registers a guideline and carries out its setters. -/
def addGuideline (d : Draft) (key : Text) (setters : List Guideline.Call) : Draft :=
  let d := d.collide (d.guidelines.contains key) (.guidelineCollision key)
  let (guideline, store) := Guideline.applyAll { key } d.store setters
  { d with guidelines := d.guidelines.insert guideline, store }

/-- Opens a library, and hands the trail to the store. -/
def enter (d : Draft) (library : Text) : Draft :=
  let trail := d.trail ++ [library]
  { d with trail, store := { d.store with trail }, composed := d.composed ++ [trailPath trail] }

/-- Closes the library opened last, and hands the trail to the store. -/
def leave (d : Draft) : Draft :=
  let trail := d.trail.dropLast
  { d with trail, store := { d.store with trail } }

/-- The warning about a dangling reference. -/
def lintWarning (lint : Lint) : Diagnostic := ⟨.warning, .unresolvedReference lint.name, lint.via⟩

/-- The recorded diagnostics, then one warning for each dangling reference. -/
def diagnostics (d : Draft) : List Diagnostic := d.recorded ++ d.store.lints.map lintWarning

/-- The recorded errors. -/
def errors (d : Draft) : List Diagnostic := d.recorded.filter Diagnostic.isError

/-- An error was recorded. -/
def hasErrors (d : Draft) : Bool := d.recorded.any Diagnostic.isError

/-- The text of the document as it stands. -/
def document (d : Draft) : Text := Layout.document d.rules d.guidelines

end Draft

end Directives
