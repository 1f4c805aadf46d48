/-
The program of steps, one step at a time.

Each step makes one call. What an include takes in depends on its name alone:
the steps of a library of the definition, a built-in library, or nothing.

* `Definition.fileLibrary?`: the libraries of a definition that an include can
  reach, those whose names do not start as the names of built-in libraries do.
* `Included`, `Definition.included`: what an include takes in.
* `Definition.call`: the call of one step; `program_eq_map` says that a program
  is the calls of its steps.
* `Definition.begin`: what a step comes to on a draft, without the program.
* `Definition.induction`: induction over the steps of a command and of the
  libraries it opens.
* `Definition.layered`: an example.
-/
import Directives.Proofs.Draft.Program
import Directives.Definition.Program

namespace Directives

/-! ### What an include takes in -/

/-- What an include takes in. -/
inductive Included
  | file (steps : List Step)
  | builtIn (library : Library)
  | nothing

/-- The built-in library an include names. -/
def Library.ofInclude? (name : Text) : Option Library :=
  (Text.dropStart? scheme name).bind ofName?

/-- The name of a built-in library leads to it. -/
lemma Library.ofName?_name (library : Library) : ofName? library.name = some library := by
  cases library <;> decide

lemma Library.ofInclude?_eq_some_iff {name : Text} {library : Library} :
    ofInclude? name = some library ↔ name = scheme ++ library.name := by
  constructor
  · intro h
    obtain ⟨rest, hrest, hname⟩ := Option.bind_eq_some_iff.mp h
    unfold Text.dropStart? at hrest
    split_ifs at hrest with hstart
    have hfound := List.find?_some hname
    have hdrop : name.drop scheme.length = library.name := by
      rw [Option.some.inj hrest]
      exact (eq_of_beq hfound).symm
    obtain ⟨tail, rfl⟩ := List.isPrefixOf_iff_prefix.mp hstart
    rw [List.drop_left] at hdrop
    rw [hdrop]
  · rintro rfl
    have hstart : Text.startsWith scheme (scheme ++ library.name) = true :=
      List.isPrefixOf_iff_prefix.mpr (List.prefix_append _ _)
    rw [ofInclude?, Text.dropStart?, if_pos hstart, List.drop_left]
    exact ofName?_name library

namespace Definition

variable (d : Definition)

/-- The steps of a library an include can reach. The names that start as those of
built-in libraries do are not looked up in the definition. -/
def fileLibrary? (name : Text) : Option (List Step) :=
  if Text.startsWith Library.scheme name then none else d.library? name

/-- What an include of the name takes in. -/
def included (name : Text) : Included :=
  match d.fileLibrary? name, Library.ofInclude? name with
  | some steps, _ => .file steps
  | none, some library => .builtIn library
  | none, none => .nothing

variable {d}

lemma fileLibrary?_eq_some_iff {name : Text} {steps : List Step} :
    d.fileLibrary? name = some steps
      ↔ Text.startsWith Library.scheme name = false ∧ d.library? name = some steps := by
  cases h : Text.startsWith Library.scheme name <;> simp [fileLibrary?, h]

lemma included_eq_file_iff {name : Text} {steps : List Step} :
    d.included name = .file steps ↔ d.fileLibrary? name = some steps := by
  unfold included
  split <;> simp_all

/-- The name of a built-in library is that of no library of the definition. -/
lemma fileLibrary?_scheme (library : Library) :
    d.fileLibrary? (Library.scheme ++ library.name) = none := by
  rw [fileLibrary?, if_pos]
  exact List.isPrefixOf_iff_prefix.mpr (List.prefix_append _ _)

lemma included_eq_builtIn_iff {name : Text} {library : Library} :
    d.included name = .builtIn library ↔ name = Library.scheme ++ library.name := by
  rw [← Library.ofInclude?_eq_some_iff]
  constructor
  · intro h
    unfold included at h
    split at h <;> simp_all
  · intro h
    have hfile : d.fileLibrary? name = none := by
      rw [Library.ofInclude?_eq_some_iff.mp h]
      exact fileLibrary?_scheme library
    simp [included, hfile, h]

/-! ### The call of a step -/

variable (d)

/-- The call of a step under the open libraries. -/
def call (opened : List Text) : Step → Call
  | .declare name description => .declare name description
  | .rule r => .rule r.key r.calls
  | .guideline g => .guideline g.key g.calls
  | .include name =>
      if name ∈ opened then .record .error (.libraryCycle (opened ++ [name]))
      else
        match d.included name with
        | .file inner => .compose name (d.program (opened ++ [name]) inner)
        | .builtIn library => .compose name library.program
        | .nothing => .record .error (.unknownLibrary name)

/-- The draft after a step, and the steps of the library the step has opened. -/
def begin (draft : Draft) : Step → Draft × Option (List Step)
  | .declare name description => (draft.run (.declare name description), none)
  | .rule r => (draft.run (.rule r.key r.calls), none)
  | .guideline g => (draft.run (.guideline g.key g.calls), none)
  | .include name =>
      if name ∈ draft.trail then
        (draft.record .error (.libraryCycle (draft.trail ++ [name])), none)
      else
        match d.included name with
        | .file inner => (draft.enter name, some inner)
        | .builtIn library => (draft.run (.compose name library.program), none)
        | .nothing => (draft.record .error (.unknownLibrary name), none)

lemma program_nil (opened : List Text) : d.program opened [] = [] := by
  rw [program]

/-- A step makes one call, and the rest of the steps make theirs. -/
lemma program_cons (opened : List Text) (step : Step) (rest : List Step) :
    d.program opened (step :: rest) = d.call opened step :: d.program opened rest := by
  cases step with
  | declare name description => rw [program, call]
  | rule r => rw [program, call]
  | guideline g => rw [program, call]
  | «include» name =>
      rw [program, call]
      by_cases member : name ∈ opened
      · simp [member]
      · rw [dif_neg (by simpa using member), if_neg member]
        unfold included fileLibrary? Library.ofInclude? Text.dropStart?
        by_cases hstart : Text.startsWith Library.scheme name
        · simp only [hstart, if_true, Option.bind_some]
          cases Library.ofName? (List.drop Library.scheme.length name) <;> rfl
        · simp only [hstart, Bool.false_eq_true, if_false, Option.bind_none]
          split
          · next inner known => simp [known]
          · next unknown => simp [unknown]

/-- A program is the calls of its steps. -/
theorem program_eq_map (opened : List Text) (steps : List Step) :
    d.program opened steps = steps.map (d.call opened) := by
  induction steps with
  | nil => exact d.program_nil opened
  | cons step rest ih => rw [program_cons, ih, List.map_cons]

/-! ### Induction over steps -/

/-- The induction principle of steps under open libraries: a property of the
steps of a library that is not open yet, once it is opened, is there for the
include that opens it. -/
@[elab_as_elim]
theorem induction {P : List Text → List Step → Prop} (nil : ∀ opened, P opened [])
    (cons : ∀ opened step rest,
      (∀ name inner, step = .include name → name ∉ opened → d.fileLibrary? name = some inner →
        P (opened ++ [name]) inner) →
      P opened rest → P opened (step :: rest))
    (opened : List Text) (steps : List Step) : P opened steps :=
  match steps with
  | [] => nil opened
  | step :: rest =>
      cons opened step rest
        (fun name inner _ closed known =>
          have := unopened_lt (fileLibrary?_eq_some_iff.mp known).2 (by simpa using closed)
          induction nil cons (opened ++ [name]) inner)
        (induction nil cons opened rest)
termination_by ((d.unopened opened).length, steps.length)

end Definition

/-- The built-in libraries record nothing by hand. -/
lemma Library.notes_program (library : Library) : Call.notes library.program = [] := by
  cases library <;> rfl

/-! ### An example -/

namespace Definition

/-- A rule of a library. -/
def layeredRule : RuleStep where
  key := "tests-pass"
  text := .one "All tests must pass."

/-- A guideline that refers to a declared name and to an undeclared one. -/
def layeredGuideline : GuidelineStep where
  key := "workflow"
  goal := some "Validate {$TASK}."
  isExample := true
  phases := [.leaf "Send the report to {$OWNER}."]

/-- A command that includes a library. -/
def layeredTask : Command where
  store := [{ name := "TASK" }]
  steps := [.include "base", .guideline layeredGuideline]

/-- The command with its library, which includes another one and a built-in one. -/
def layered : Definition where
  libraries := [("base", [.include "quality", .include "builtin:error-handling"]),
    ("quality", [.rule layeredRule])]
  commands := [("task:validate", layeredTask)]

lemma layered_program : layered.program [] layeredTask.steps
    = [.compose "base" [.compose "quality" [.rule layeredRule.key layeredRule.calls],
        .compose "builtin:error-handling" Library.errorHandlingProgram],
      .guideline layeredGuideline.key layeredGuideline.calls] := by
  have hbase : layered.included "base"
      = .file [.include "quality", .include "builtin:error-handling"] := rfl
  have hquality : layered.included "quality" = .file [.rule layeredRule] := rfl
  have hbuiltIn : layered.included "builtin:error-handling" = .builtIn .errorHandling := rfl
  simp only [program_eq_map, layeredTask, call, hbase, hquality, hbuiltIn, List.map_cons,
    List.map_nil]
  rfl

end Definition

end Directives
