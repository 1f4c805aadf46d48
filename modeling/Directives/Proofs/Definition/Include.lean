/-
The include graph of a definition.

Steps reach a name when they include it, or include a library of the definition
that reaches it. A program records an error about an include exactly when the
graph has a cycle the steps reach, or the steps reach a name that nobody knows.

* `Definition.Reaches`: the names that steps reach.
* `Definition.Acyclic`: no library the steps reach reaches itself.
* `Definition.Knows`: the names of libraries.
* `Definition.Reaches.of_notes_eq_nil`: the walk of a program that records
  nothing goes through every name the steps reach.
* `Definition.notes_program_eq_nil_iff`: when a program records nothing.
-/
import Directives.Proofs.Definition.Program

namespace Directives.Definition

variable {d : Definition}

/-! ### Reaching a name -/

/-- Steps reach the names they include, and whatever the libraries of the
definition they include reach. -/
inductive Reaches (d : Definition) : List Step → Text → Prop
  | here {steps : List Step} {name : Text} (h : .include name ∈ steps) : Reaches d steps name
  | through {steps : List Step} {library : Text} {inner : List Step} {name : Text}
      (h : .include library ∈ steps) (known : d.fileLibrary? library = some inner)
      (inside : Reaches d inner name) : Reaches d steps name

/-- No library of the definition that the steps reach reaches itself. -/
def Acyclic (d : Definition) (steps : List Step) : Prop :=
  ∀ name inner, d.Reaches steps name → d.fileLibrary? name = some inner → ¬ d.Reaches inner name

/-- The name is that of a library an include can take in: one of the definition,
or a built-in one behind the word for built-in libraries. -/
def Knows (d : Definition) (name : Text) : Prop :=
  (d.fileLibrary? name).isSome ∨ ∃ library : Library, name = Library.scheme ++ library.name

/-- More steps reach more names. -/
lemma Reaches.mono {steps more : List Step} {name : Text} (h : d.Reaches steps name)
    (hsub : steps ⊆ more) : d.Reaches more name := by
  cases h with
  | here hmem => exact .here (hsub hmem)
  | through hmem known inside => exact .through (hsub hmem) known inside

lemma Reaches.cons {rest : List Step} {name : Text} (h : d.Reaches rest name) (step : Step) :
    d.Reaches (step :: rest) name :=
  h.mono (List.subset_cons_self step rest)

/-- What a library reaches is reached by the steps that reach the library. -/
lemma Reaches.trans {steps inner : List Step} {library name : Text}
    (h : d.Reaches steps library) (known : d.fileLibrary? library = some inner)
    (inside : d.Reaches inner name) : d.Reaches steps name := by
  induction h with
  | here hmem => exact .through hmem known inside
  | through hmem known' _ ih => exact .through hmem known' (ih known)

lemma Acyclic.rest {step : Step} {rest : List Step} (h : d.Acyclic (step :: rest)) :
    d.Acyclic rest :=
  fun name inner hname => h name inner (hname.cons step)

/-- A library that acyclic steps reach is acyclic. -/
lemma Acyclic.library {steps inner : List Step} {library : Text} (h : d.Acyclic steps)
    (hlibrary : d.Reaches steps library) (known : d.fileLibrary? library = some inner) :
    d.Acyclic inner :=
  fun name _ hname => h name _ (hlibrary.trans known hname)

/-- The names that are open stay out of reach once a library is opened whose
steps do not reach its own name. -/
lemma Acyclic.opened {steps inner : List Step} {library : Text} {opened : List Text}
    (h : d.Acyclic steps) (hlibrary : d.Reaches steps library)
    (known : d.fileLibrary? library = some inner)
    (hopened : ∀ name ∈ opened, ¬ d.Reaches steps name) :
    ∀ name ∈ opened ++ [library], ¬ d.Reaches inner name := by
  intro name hname hinside
  rcases List.mem_append.mp hname with hold | hnew
  · exact hopened name hold (hlibrary.trans known hinside)
  · rw [List.mem_singleton.mp hnew] at hinside
    exact h library inner hlibrary known hinside

lemma included_eq_nothing_iff {name : Text} : d.included name = .nothing ↔ ¬ d.Knows name := by
  unfold Knows
  cases h : d.included name with
  | file inner => simp [included_eq_file_iff.mp h]
  | builtIn library =>
      have hknown : ∃ library : Library, name = Library.scheme ++ library.name :=
        ⟨library, included_eq_builtIn_iff.mp h⟩
      simp [hknown]
  | nothing =>
      have hfile : d.fileLibrary? name = none := by
        cases hname : d.fileLibrary? name with
        | none => rfl
        | some inner => simp [included_eq_file_iff.mpr hname] at h
      have hbuiltIn : ¬ ∃ library : Library, name = Library.scheme ++ library.name := by
        rintro ⟨library, hname⟩
        simp [included_eq_builtIn_iff.mpr hname] at h
      simp only [hfile, hbuiltIn]
      simp

/-! ### What a program records about its includes -/

/-- The call of an include records nothing when the name is known and not open,
and the library of the definition it names, if any, records nothing. -/
lemma notes_call_include_eq_nil_iff {opened : List Text} {name : Text} :
    Call.notes [d.call opened (.include name)] = []
      ↔ name ∉ opened ∧ d.Knows name ∧ ∀ inner, d.fileLibrary? name = some inner →
          Call.notes (d.program (opened ++ [name]) inner) = [] := by
  by_cases member : name ∈ opened
  · simp [call, member]
  · rw [call, if_neg member]
    cases h : d.included name with
    | file inner =>
        have hfile := included_eq_file_iff.mp h
        simp [member, Knows, hfile]
    | builtIn library =>
        have hname := included_eq_builtIn_iff.mp h
        have hfile : d.fileLibrary? name = none := hname ▸ fileLibrary?_scheme library
        have hknows : d.Knows name := Or.inr ⟨library, hname⟩
        simp [member, hknows, hfile, library.notes_program]
    | nothing =>
        have hknows := included_eq_nothing_iff.mp h
        simp [hknows]

/-- A program records nothing when its first step and the rest of its steps
record nothing. -/
lemma notes_program_cons_eq_nil_iff {opened : List Text} {step : Step} {rest : List Step} :
    Call.notes (d.program opened (step :: rest)) = []
      ↔ Call.notes [d.call opened step] = [] ∧ Call.notes (d.program opened rest) = [] := by
  rw [program_cons, Call.notes_cons, List.append_eq_nil_iff]

lemma notes_call_of_mem {opened : List Text} {steps : List Step}
    (h : Call.notes (d.program opened steps) = []) :
    ∀ step ∈ steps, Call.notes [d.call opened step] = [] := by
  induction steps with
  | nil => simp
  | cons step rest ih =>
      obtain ⟨hstep, hrest⟩ := notes_program_cons_eq_nil_iff.mp h
      exact List.forall_mem_cons.mpr ⟨hstep, ih hrest⟩

/-- The program of steps that records nothing meets every name the steps reach:
the name is known and not open, and a library of the definition is opened under
it, whose program records nothing either. -/
lemma Reaches.of_notes_eq_nil {steps : List Step} {name : Text} (h : d.Reaches steps name) :
    ∀ opened, Call.notes (d.program opened steps) = [] →
      name ∉ opened ∧ d.Knows name ∧ ∀ inner, d.fileLibrary? name = some inner →
        ∃ opened', name ∈ opened' ∧ Call.notes (d.program opened' inner) = [] := by
  induction h with
  | @here steps name hmem =>
      intro opened hnotes
      obtain ⟨closed, hknows, hinner⟩ :=
        notes_call_include_eq_nil_iff.mp (notes_call_of_mem hnotes _ hmem)
      refine ⟨closed, hknows, fun inner known => ?_⟩
      exact ⟨opened ++ [name], by simp, hinner inner known⟩
  | @through steps library inner name hmem known inside ih =>
      intro opened hnotes
      obtain ⟨_, _, hinner⟩ :=
        notes_call_include_eq_nil_iff.mp (notes_call_of_mem hnotes _ hmem)
      obtain ⟨closed, hrest⟩ := ih (opened ++ [library]) (hinner inner known)
      exact ⟨fun hname => closed (List.mem_append_left _ hname), hrest⟩

/-- Acyclic steps that reach known names only record nothing, under open libraries
they do not reach. -/
lemma notes_program_of_acyclic (opened : List Text) (steps : List Step)
    (acyclic : d.Acyclic steps) (known : ∀ name, d.Reaches steps name → d.Knows name)
    (hopened : ∀ name ∈ opened, ¬ d.Reaches steps name) :
    Call.notes (d.program opened steps) = [] := by
  induction opened, steps using d.induction with
  | nil opened => simp [program_nil]
  | cons opened step rest onLibrary onRest =>
      refine notes_program_cons_eq_nil_iff.mpr ⟨?_, onRest acyclic.rest
        (fun name hname => known name (hname.cons step))
        (fun name hname hrest => hopened name hname (hrest.cons step))⟩
      cases step with
      | declare name description => rfl
      | rule r => rfl
      | guideline g => rfl
      | «include» name =>
          have hname : d.Reaches (.include name :: rest) name := .here (by simp)
          have closed : name ∉ opened := fun member => hopened name member hname
          refine notes_call_include_eq_nil_iff.mpr ⟨closed, known name hname, ?_⟩
          intro inner hinner
          exact onLibrary name inner rfl closed hinner (acyclic.library hname hinner)
            (fun other hother => known other (hname.trans hinner hother))
            (acyclic.opened hname hinner hopened)

/-- **When a program records nothing**: the steps reach no library that reaches
itself, and every name they reach is known. -/
theorem notes_program_eq_nil_iff {steps : List Step} :
    Call.notes (d.program [] steps) = []
      ↔ d.Acyclic steps ∧ ∀ name, d.Reaches steps name → d.Knows name := by
  constructor
  · intro hnotes
    refine ⟨fun name inner hname hinner hcycle => ?_, fun name hname => ?_⟩
    · obtain ⟨_, _, hlibrary⟩ := hname.of_notes_eq_nil [] hnotes
      -- the library is open while its own steps are replayed
      obtain ⟨opened, member, hinside⟩ := hlibrary inner hinner
      exact (hcycle.of_notes_eq_nil opened hinside).1 member
    · exact (hname.of_notes_eq_nil [] hnotes).2.1
  · rintro ⟨acyclic, known⟩
    exact notes_program_of_acyclic [] steps acyclic known (by simp)

/-! ### The example -/

lemma layered_notes : Call.notes (layered.program [] layeredTask.steps) = [] := by
  rw [layered_program]
  rfl

lemma layered_acyclic : layered.Acyclic layeredTask.steps :=
  (notes_program_eq_nil_iff.mp layered_notes).1

lemma layered_knows : ∀ name, layered.Reaches layeredTask.steps name → layered.Knows name :=
  (notes_program_eq_nil_iff.mp layered_notes).2

end Directives.Definition
