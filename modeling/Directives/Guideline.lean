/-
Guidelines: named blocks of ordered phases.

* `Guideline`: a key, perhaps a goal, lines of description, and phases.
* `Guideline.scenario`: the labelled leaf that stands for an example.
* `Guideline.Call`: one setter; `Guideline.apply` carries it out. Every text is
  resolved in the store on its way in, those of a phase in visiting order.
-/
import Directives.Registry
import Directives.Phase
import Directives.Store.Basic

namespace Directives

/-- A named block of ordered phases. -/
structure Guideline where
  /-- The key, unique within one command. -/
  key : Text
  goal : Option Text := none
  /-- The phases of an example are numbered. -/
  isExample : Bool := false
  /-- Lines that stand before the phases. -/
  description : List Text := []
  phases : List Phase := []
  deriving Repr, BEq

instance : Keyed Guideline := ⟨Guideline.key⟩

/-- A payload, resolved where it has `{$` and left as it is where it has not. -/
def Store.resolvePayload (store : Store) (text : Text) : Text × Store :=
  if Text.contains ['{', '$'] text then store.resolve text else (text, store)

/-- The phase with the references of every payload resolved in turn. -/
def Store.resolvePhase (store : Store) (phase : Phase) : Phase × Store :=
  phase.thread (fun text store => store.resolvePayload text) store

namespace Guideline

/-- One setter of a guideline. -/
inductive Call
  | goal (goal : Text)
  | asExample
  | phase (content : Phase)
  | steps (items : List Phase)
  | scenario (text : Text)
  | text (line : Text)
  deriving Repr, BEq

/-- The leaf that shows an example. -/
def scenario (text : Text) : Phase := .leaf (("SCENARIO: " : Text) ++ text)

/-- Appends a phase, resolved. -/
def addPhase (guideline : Guideline) (store : Store) (content : Phase) : Guideline × Store :=
  let (content, store) := store.resolvePhase content
  ({ guideline with phases := guideline.phases ++ [content] }, store)

/-- Carries out one setter. -/
def apply (guideline : Guideline) (store : Store) : Call → Guideline × Store
  | .goal goal =>
      let (goal, store) := store.resolve goal
      ({ guideline with goal := some goal }, store)
  | .asExample => ({ guideline with isExample := true }, store)
  | .phase content => guideline.addPhase store content
  | .steps items => guideline.addPhase store (.sequence items)
  | .scenario text => guideline.addPhase store (scenario text)
  | .text line =>
      let (line, store) := store.resolve line
      ({ guideline with description := guideline.description ++ [line] }, store)

/-- Carries out setters in order. -/
def applyAll (guideline : Guideline) (store : Store) : List Call → Guideline × Store
  | [] => (guideline, store)
  | call :: rest =>
      let (guideline, store) := guideline.apply store call
      guideline.applyAll store rest

end Guideline

end Directives
