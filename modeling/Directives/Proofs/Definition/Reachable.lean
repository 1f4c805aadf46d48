/-
What a command depends on.

The program of steps looks up the libraries that the steps reach, and no other. So a command
comes out the same in two definitions that have the same libraries in its reach, whatever
else they hold: other commands, libraries out of reach, and libraries that no include can
reach since their names start as those of built-in libraries do.

* `Definition.Agrees`: the same libraries in the reach of steps.
* `Definition.Agrees.program`: the same program.
* `Definition.Agrees.reaches_iff`: the same reach.
* `Definition.draft_of_reached`: the same draft.
-/
import Directives.Proofs.Definition.Include
import Directives.Document.Basic

namespace Directives.Definition

variable {d d' : Definition} {steps : List Step}

/-- Where the steps reach the name of a library, an include of it takes in the same steps. -/
def Agrees (d d' : Definition) (steps : List Step) : Prop :=
  ∀ library, d.Reaches steps library → d'.fileLibrary? library = d.fileLibrary? library

namespace Agrees

lemma rest {step : Step} (h : d.Agrees d' (step :: steps)) : d.Agrees d' steps :=
  fun library reached => h library (reached.cons step)

/-- The steps of a library in reach have less in their reach. -/
lemma library {name : Text} {inner : List Step} (h : d.Agrees d' steps)
    (reached : d.Reaches steps name) (known : d.fileLibrary? name = some inner) :
    d.Agrees d' inner :=
  fun library inside => h library (reached.trans known inside)

/-- **The steps have the same program**, under whatever libraries are open. -/
theorem program (h : d.Agrees d' steps) (opened : List Text) :
    d'.program opened steps = d.program opened steps := by
  induction opened, steps using d.induction with
  | nil opened => rw [program_nil, program_nil]
  | cons opened step rest onLibrary onRest =>
      rw [program_cons, program_cons, onRest h.rest]
      congr 1
      cases step with
      | «include» name =>
          have reached : d.Reaches (.include name :: rest) name := .here List.mem_cons_self
          have hincluded : d'.included name = d.included name := by
            rw [included, included, h name reached]
          rw [call, call, hincluded]
          split_ifs with member
          · rfl
          · cases hname : d.included name with
            | file inner =>
                have known := included_eq_file_iff.mp hname
                have hinner := onLibrary name inner rfl member known (h.library reached known)
                simp only [hinner]
            | builtIn library => rfl
            | nothing => rfl
      | _ => rfl

/-- The steps reach the same names. -/
theorem reaches_iff (h : d.Agrees d' steps) {name : Text} :
    d'.Reaches steps name ↔ d.Reaches steps name := by
  constructor
  · intro reached
    induction reached with
    | here hmem => exact .here hmem
    | through hmem known _ ih =>
        have hlibrary := Reaches.here (d := d) hmem
        rw [h _ hlibrary] at known
        exact .through hmem known (ih (h.library hlibrary known))
  · intro reached
    induction reached with
    | here hmem => exact .here hmem
    | through hmem known _ ih =>
        have hlibrary := Reaches.here (d := d) hmem
        exact .through hmem ((h _ hlibrary).trans known) (ih (h.library hlibrary known))

end Agrees

/-- **A command depends on the libraries in its reach**: where another definition has the same
libraries under the names that the command reaches, those apart that start as the names of
built-in libraries do, the command reaches the same names there, and it comes out the same
under every policy. -/
theorem draft_of_reached {command : Command}
    (agree : ∀ library, d.Reaches command.steps library →
      Text.startsWith Library.scheme library = false → d'.library? library = d.library? library)
    (name : Text) (policy : CollisionPolicy) :
    (∀ library, d'.Reaches command.steps library ↔ d.Reaches command.steps library)
      ∧ d'.draft name command policy = d.draft name command policy
      ∧ (d.command? name = some command → d'.command? name = some command →
          d'.compile name policy = d.compile name policy) := by
  have hagrees : d.Agrees d' command.steps := by
    intro library reached
    rw [fileLibrary?, fileLibrary?]
    cases hscheme : Text.startsWith Library.scheme library with
    | true => rfl
    | false => exact agree library reached hscheme
  have hdraft : d'.draft name command policy = d.draft name command policy := by
    rw [draft, draft, Command.program, Command.program, hagrees.program]
  refine ⟨fun _ => hagrees.reaches_iff, hdraft, fun found found' => ?_⟩
  rw [compile, compile, found, found']
  exact congrArg Draft.compile hdraft

/-- The definition with a library that no command includes, one that no include can reach, and
another command. -/
def layeredMore : Definition where
  libraries := List.append layered.libraries
    [("spare", [.include "quality"]), ("builtin:error-handling", [.rule layeredRule])]
  commands := ("task:report", { steps := [.include "spare"] }) :: layered.commands

/-- The command of the example comes out the same with more around it. -/
theorem layeredMore_draft :
    (∀ library, layered.Reaches layeredTask.steps library →
      Text.startsWith Library.scheme library = false →
        layeredMore.library? library = layered.library? library)
      ∧ layeredMore.draft "task:validate" layeredTask .error
        = layered.draft "task:validate" layeredTask .error
      ∧ layeredMore.compile "task:validate" .error = layered.compile "task:validate" .error := by
  have hagree : ∀ library, layered.Reaches layeredTask.steps library →
      Text.startsWith Library.scheme library = false →
        layeredMore.library? library = layered.library? library := by
    intro library reached hscheme
    rcases layered_knows library reached with hfile | ⟨builtIn, rfl⟩
    · obtain ⟨steps, hsteps⟩ := Option.isSome_iff_exists.mp hfile
      have hlookup := (fileLibrary?_eq_some_iff.mp hsteps).2
      have hmore : layeredMore.library? library = some steps :=
        List.lookup_append.trans (by rw [← library?, hlookup, Option.some_or])
      rw [hmore, hlookup]
    · have hstart : Text.startsWith Library.scheme (Library.scheme ++ builtIn.name) = true :=
        List.isPrefixOf_iff_prefix.mpr (List.prefix_append _ _)
      rw [hstart] at hscheme
      cases hscheme
  have found : layered.command? "task:validate" = some layeredTask := rfl
  have found' : layeredMore.command? "task:validate" = some layeredTask := rfl
  obtain ⟨-, hdraft, hcompile⟩ := draft_of_reached hagree "task:validate" .error
  exact ⟨hagree, hdraft, hcompile found found'⟩

end Directives.Definition
