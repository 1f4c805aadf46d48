/-
The steps a command replays.

Steps replay themselves and the steps of the libraries they reach. Each call of
their program is made by one of those steps, by a step of a built-in library, or
records an error about an include.

* `Definition.Replays`: the steps that are replayed.
* `Step.texts`: the key and the texts of a step.
* `Call.Scripted`: the calls steps can make.
* `Definition.program_scripted`, `Command.program_scripted`: a program makes no
  other calls.
-/
import Directives.Proofs.Definition.Directive
import Directives.Proofs.Definition.Include

namespace Directives

/-! ### Replayed steps -/

namespace Definition

variable {d : Definition} {steps : List Step} {step : Step}

/-- The steps themselves are replayed, and those of the libraries they reach. -/
inductive Replays (d : Definition) (steps : List Step) (step : Step) : Prop
  | here (h : step ∈ steps) : Replays d steps step
  | inside {library : Text} {inner : List Step} (reached : d.Reaches steps library)
      (known : d.fileLibrary? library = some inner) (h : step ∈ inner) : Replays d steps step

lemma Replays.cons {rest : List Step} (h : d.Replays rest step) (first : Step) :
    d.Replays (first :: rest) step := by
  cases h with
  | here hmem => exact .here (List.mem_cons_of_mem first hmem)
  | inside reached known hmem => exact .inside (reached.cons first) known hmem

/-- What an included library replays is replayed. -/
lemma Replays.library {name : Text} {inner : List Step} (h : d.Replays inner step)
    (hname : .include name ∈ steps) (known : d.fileLibrary? name = some inner) :
    d.Replays steps step := by
  cases h with
  | here hmem => exact .inside (.here hname) known hmem
  | inside reached inside hmem => exact .inside (.through hname known reached) inside hmem

/-- No steps are replayed but those given and those of the libraries. -/
lemma Replays.mem (h : d.Replays steps step) :
    step ∈ steps ++ d.libraries.flatMap Prod.snd := by
  cases h with
  | here hmem => exact List.mem_append_left _ hmem
  | @inside library inner _ known hmem =>
      obtain ⟨before, after, hlibraries, _⟩ :=
        List.lookup_eq_some_iff.mp (fileLibrary?_eq_some_iff.mp known).2
      refine List.mem_append_right _ (List.mem_flatMap.mpr ⟨(library, inner), ?_, hmem⟩)
      simp [hlibraries]

end Definition

/-- The key and the texts of a step. -/
def Step.texts : Step → List Text
  | rule r => r.key :: r.texts
  | guideline g => g.key :: g.texts
  | _ => []

/-- The texts of the step have no question mark. -/
def Step.Plain (step : Step) : Prop := ∀ text ∈ step.texts, '?' ∉ text

instance (step : Step) : Decidable step.Plain :=
  inferInstanceAs (Decidable (∀ text ∈ step.texts, '?' ∉ text))

/-! ### Scripted calls -/

/-- The calls that steps with a property can make: what is recorded by hand is an
error about an include, and the setters of a directive stand in the order of its
step. -/
inductive Call.Scripted (P : Step → Prop) : Call → Prop
  | declare (name description : Text) : Scripted P (.declare name description)
  | rule {r : RuleStep} (h : P (.rule r)) : Scripted P (.rule r.key r.calls)
  | guideline {g : GuidelineStep} (h : P (.guideline g)) : Scripted P (.guideline g.key g.calls)
  | cycle (chain : List Text) : Scripted P (.record .error (.libraryCycle chain))
  | unknown (name : Text) : Scripted P (.record .error (.unknownLibrary name))
  | compose (library : Text) {body : List Call} (scripted : ∀ call ∈ body, Scripted P call) :
      Scripted P (.compose library body)

namespace Call

variable {P Q : Step → Prop}

lemma Scripted.mono (h : ∀ step, P step → Q step) {call : Call} (scripted : call.Scripted P) :
    call.Scripted Q := by
  induction scripted with
  | declare name description => exact .declare name description
  | rule hr => exact .rule (h _ hr)
  | guideline hg => exact .guideline (h _ hg)
  | cycle chain => exact .cycle chain
  | unknown name => exact .unknown name
  | compose library _ ih => exact .compose library ih

/-- What scripted calls record by hand is an error, and neither a collision nor
a dangling reference. -/
lemma notes_scripted {calls : List Call} (scripted : ∀ call ∈ calls, call.Scripted P) :
    ∀ note ∈ notes calls,
      note.1 = .error ∧ note.2.isCollision = false ∧ note.2.isUnresolved = false := by
  induction calls using Call.induction with
  | nil => simp
  | declare name description rest ih => exact ih (List.forall_mem_cons.mp scripted).2
  | reference name rest ih => exact ih (List.forall_mem_cons.mp scripted).2
  | rule key setters rest ih => exact ih (List.forall_mem_cons.mp scripted).2
  | guideline key setters rest ih => exact ih (List.forall_mem_cons.mp scripted).2
  | record level finding rest ih =>
      obtain ⟨hhead, hrest⟩ := List.forall_mem_cons.mp scripted
      rw [notes_cons, notes_record, List.forall_mem_append]
      refine ⟨?_, ih hrest⟩
      cases hhead <;> simp [Finding.isCollision, Finding.isUnresolved]
  | compose library body rest ihBody ih =>
      obtain ⟨hhead, hrest⟩ := List.forall_mem_cons.mp scripted
      rw [notes_cons, notes_compose, List.forall_mem_append]
      cases hhead with
      | compose _ hbody => exact ⟨ihBody hbody, ih hrest⟩

end Call

/-! ### The built-in libraries -/

namespace Library

lemma qualityGates_scripted : ∀ call ∈ qualityGatesProgram, call.Scripted Step.Plain := by
  simp only [qualityGatesProgram, List.forall_mem_cons, List.not_mem_nil, false_imp_iff,
    implies_true, and_true]
  exact ⟨.rule (r := ⟨_, some _, .many [_, _], some _, some _⟩) (by decide +kernel),
    .rule (r := ⟨_, some _, .many [_], some _, none⟩) (by decide +kernel),
    .rule (r := ⟨_, some _, .many [_], none, some _⟩) (by decide +kernel)⟩

lemma errorHandling_scripted : ∀ call ∈ errorHandlingProgram, call.Scripted Step.Plain := by
  simp only [errorHandlingProgram, List.forall_mem_cons, List.not_mem_nil, false_imp_iff,
    implies_true, and_true]
  exact .guideline (g := ⟨_, some _, false, .many [],
    [.ifElse _ (.leaf _) (.note _), .ifThen _ (.sequence [.report _, .abortWith _])]⟩)
    (by decide +kernel)

lemma parallelDispatch_scripted :
    ∀ call ∈ parallelDispatchProgram, call.Scripted Step.Plain := by
  simp only [parallelDispatchProgram, List.forall_mem_cons, List.not_mem_nil, false_imp_iff,
    implies_true, and_true]
  exact ⟨.rule (r := ⟨_, some _, .many [_], some _, none⟩) (by decide +kernel),
    .guideline (g := ⟨_, some _, true, .many [],
      [.parallel [.leaf _, .leaf _, .leaf _], .verify (.many [_])]⟩) (by decide +kernel)⟩

/-- The built-in libraries make no other calls than steps can make, and their texts
have no question mark. -/
lemma program_scripted (library : Library) :
    ∀ call ∈ library.program, call.Scripted Step.Plain := by
  cases library with
  | qualityGates => exact qualityGates_scripted
  | errorHandling => exact errorHandling_scripted
  | parallelDispatch => exact parallelDispatch_scripted
  | baseline =>
      simp only [program, List.forall_mem_cons, List.not_mem_nil, false_imp_iff,
        implies_true, and_true]
      exact ⟨.compose _ qualityGates_scripted, .compose _ errorHandling_scripted⟩

end Library

/-! ### Programs -/

variable {P : Step → Prop}

/-- **The program of steps has scripted calls only**, made by the steps that are
replayed and by plain steps. -/
theorem Definition.program_scripted {d : Definition} (plain : ∀ step : Step, step.Plain → P step)
    (opened : List Text) {steps : List Step} (replayed : ∀ step, d.Replays steps step → P step) :
    ∀ call ∈ d.program opened steps, call.Scripted P := by
  induction opened, steps using d.induction with
  | nil opened => simp [program_nil]
  | cons opened step rest onLibrary onRest =>
      have hstep : P step := replayed step (.here (by simp))
      rw [program_cons, List.forall_mem_cons]
      refine ⟨?_, onRest fun other hother => replayed other (hother.cons step)⟩
      cases step with
      | declare name description => exact .declare name description
      | rule r => exact .rule hstep
      | guideline g => exact .guideline hstep
      | «include» name =>
          by_cases member : name ∈ opened
          · simp only [call, if_pos member]
            exact .cycle _
          · simp only [call, if_neg member]
            cases hname : d.included name with
            | file inner =>
                have known := included_eq_file_iff.mp hname
                exact .compose name (onLibrary name inner rfl member known fun other hother =>
                  replayed other (hother.library (by simp) known))
            | builtIn library =>
                exact .compose name fun call hcall =>
                  (library.program_scripted call hcall).mono plain
            | nothing => exact .unknown name

/-- The program of a command has scripted calls only, made by the steps that are
replayed and by plain steps. -/
theorem Command.program_scripted {d : Definition} {command : Command}
    (plain : ∀ step : Step, step.Plain → P step)
    (replayed : ∀ step, d.Replays command.steps step → P step) :
    ∀ call ∈ command.program d, call.Scripted P := by
  intro call hcall
  rcases List.mem_append.mp hcall with hstore | hsteps
  · obtain ⟨declaration, _, rfl⟩ := List.mem_map.mp hstore
    exact .declare _ _
  · exact Definition.program_scripted plain [] replayed call hsteps

/-- What the program of a command records by hand is an error, and neither a
collision nor a dangling reference. -/
theorem Command.notes_program_spec (command : Command) (d : Definition) :
    ∀ note ∈ Call.notes (command.program d),
      note.1 = .error ∧ note.2.isCollision = false ∧ note.2.isUnresolved = false :=
  Call.notes_scripted (P := fun _ => True)
    (command.program_scripted (fun _ _ => trivial) fun _ _ => trivial)

end Directives
