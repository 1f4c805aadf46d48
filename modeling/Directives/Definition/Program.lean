/-
The program of a command.

A definition's steps become calls on a draft. An include becomes the calls of the
library inside an opened library; one that comes back to an open library, or that
names none, becomes a recorded error. Which it is depends on the open libraries
and the definition alone, so the program of a command is known before it runs.

* `RuleStep.calls`, `GuidelineStep.calls`: the setters of a directive.
* `Definition.unopened`: the libraries that are not open; each include that goes
  on opens one of them, which makes `Definition.program` terminate.
* `Definition.program`: the calls of steps under the open libraries.
* `Definition.draft`: a command, built.
-/
import Directives.Definition.Basic
import Directives.Library

namespace Directives

/-- The setters of a rule in order. -/
def RuleStep.calls (r : RuleStep) : List Rule.Call :=
  r.severity.toList.map .severity ++ r.text.texts.map .text ++ r.why.toList.map .why
    ++ r.onViolation.toList.map .onViolation

/-- The setters of a guideline in order. -/
def GuidelineStep.calls (g : GuidelineStep) : List Guideline.Call :=
  g.goal.toList.map .goal ++ (if g.isExample then [.asExample] else [])
    ++ g.text.texts.map .text ++ g.phases.map fun entry => .phase entry.phase

namespace Definition

/-- The libraries that are not open. -/
def unopened (d : Definition) (opened : List Text) : List (Text × List Step) :=
  d.libraries.filter fun library => !opened.contains library.1

/-- Opening a library leaves fewer unopened ones. -/
theorem unopened_lt {d : Definition} {opened : List Text} {name : Text} {steps : List Step}
    (known : d.library? name = some steps) (closed : ¬ opened.contains name) :
    (d.unopened (opened ++ [name])).length < (d.unopened opened).length := by
  have hmem : (name, steps) ∈ d.libraries := by
    unfold library? at known
    rw [List.lookup_eq_some_iff] at known
    obtain ⟨l₁, l₂, heq, _⟩ := known
    simp [heq]
  unfold unopened
  have hsub : (d.libraries.filter fun library => !(opened ++ [name]).contains library.1)
      = (d.libraries.filter fun library => !opened.contains library.1).filter
          (fun library => library.1 ≠ name) := by
    rw [List.filter_filter]
    congr 1
    funext library
    simp [Bool.and_comm]
  rw [hsub]
  apply List.length_filter_lt_length_iff_exists.2
  exact ⟨(name, steps), List.mem_filter.2 ⟨hmem, by simpa using closed⟩, by simp⟩

/-- The calls of steps, where `opened` are the libraries that are open, outermost
first. -/
def program (d : Definition) (opened : List Text) (steps : List Step) : List Call :=
  match steps with
  | [] => []
  | .declare name description :: rest => .declare name description :: d.program opened rest
  | .rule r :: rest => .rule r.key r.calls :: d.program opened rest
  | .guideline g :: rest => .guideline g.key g.calls :: d.program opened rest
  | .include name :: rest =>
      if member : opened.contains name then
        .record .error (.libraryCycle (opened ++ [name])) :: d.program opened rest
      else
        match Text.dropStart? Library.scheme name with
        | some builtin =>
            match Library.ofName? builtin with
            | some library => .compose name library.program :: d.program opened rest
            | none => .record .error (.unknownLibrary name) :: d.program opened rest
        | none =>
            match known : d.library? name with
            | some inner =>
                have := unopened_lt known member
                .compose name (d.program (opened ++ [name]) inner) :: d.program opened rest
            | none => .record .error (.unknownLibrary name) :: d.program opened rest
termination_by ((d.unopened opened).length, steps.length)

end Definition

/-- The calls of a command: its declarations, then its steps. -/
def Command.program (command : Command) (d : Definition) : List Call :=
  command.store.map (fun declaration => .declare declaration.name declaration.description)
    ++ d.program [] command.steps

/-- A command, built in a fresh draft. -/
def Definition.draft (d : Definition) (name : Text) (command : Command)
    (policy : CollisionPolicy) : Draft :=
  Draft.runAll { name, policy } (command.program d)

end Directives
