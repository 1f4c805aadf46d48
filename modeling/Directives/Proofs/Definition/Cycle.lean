/-
The cycles that a program records.

An include walk goes from the steps of a command to a library they include, on to a
library that one includes, and so forth. A program follows every walk through
libraries that differ from one another, and records it, with the name that closes
it, where the next name is one of those it went through.

* `Definition.Walk`: the walks of a definition.
* `Definition.Returns`: a walk through distinct libraries that comes back to one.
* `Definition.cycle_mem_notices_iff`: what a program records about cycles.
* `libraryCycle_recorded_iff`: the cycles among the diagnostics of a command.
-/
import Directives.Proofs.Definition.Include
import Directives.Proofs.Definition.Replay
import Directives.Proofs.Draft.Notice

namespace Directives

namespace Definition

variable {d : Definition}

/-! ### Walks -/

/-- From the steps an include walk goes through the libraries `names` of the
definition, each of them included by the steps of the one before it, to the name
`back`, which the last of them includes. -/
inductive Walk (d : Definition) : List Step → List Text → Text → Prop
  | last {steps : List Step} {back : Text} (h : .include back ∈ steps) : Walk d steps [] back
  | through {steps inner : List Step} {library back : Text} {names : List Text}
      (h : .include library ∈ steps) (known : d.fileLibrary? library = some inner)
      (inside : Walk d inner names back) : Walk d steps (library :: names) back

/-- A walk starts at one of the steps. -/
lemma walk_cons_iff {step : Step} {rest : List Step} {names : List Text} {back : Text} :
    d.Walk (step :: rest) names back ↔ d.Walk [step] names back ∨ d.Walk rest names back := by
  constructor
  · intro h
    cases h with
    | last hmem =>
        rcases List.mem_cons.mp hmem with rfl | hrest
        · exact .inl (.last (by simp))
        · exact .inr (.last hrest)
    | through hmem known inside =>
        rcases List.mem_cons.mp hmem with rfl | hrest
        · exact .inl (.through (by simp) known inside)
        · exact .inr (.through hrest known inside)
  · rintro (h | h)
    · cases h with
      | last hmem => exact .last (List.mem_cons.mpr (.inl (List.mem_singleton.mp hmem)))
      | through hmem known inside =>
          exact .through (List.mem_cons.mpr (.inl (List.mem_singleton.mp hmem))) known inside
    · cases h with
      | last hmem => exact .last (List.mem_cons_of_mem _ hmem)
      | through hmem known inside => exact .through (List.mem_cons_of_mem _ hmem) known inside

/-- From an include a walk ends at its name, or goes through the library of that
name. -/
lemma walk_include_iff {name : Text} {names : List Text} {back : Text} :
    d.Walk [.include name] names back
      ↔ names = [] ∧ back = name
        ∨ ∃ inner tail, d.fileLibrary? name = some inner ∧ names = name :: tail
          ∧ d.Walk inner tail back := by
  constructor
  · intro h
    cases h with
    | last hmem => exact .inl ⟨rfl, Step.include.inj (List.mem_singleton.mp hmem)⟩
    | through hmem known inside =>
        obtain rfl := Step.include.inj (List.mem_singleton.mp hmem)
        exact .inr ⟨_, _, known, rfl, inside⟩
  · rintro (⟨rfl, rfl⟩ | ⟨inner, tail, known, rfl, inside⟩)
    · exact .last (by simp)
    · exact .through (by simp) known inside

/-- A walk goes through libraries of the definition. -/
lemma Walk.known {steps : List Step} {names : List Text} {back : Text}
    (h : d.Walk steps names back) : ∀ library ∈ names, (d.fileLibrary? library).isSome := by
  induction h with
  | last _ => simp
  | through _ known _ ih => exact List.forall_mem_cons.mpr ⟨by simp [known], ih⟩

/-- No walk starts at a step that includes nothing. -/
lemma not_walk_of_ne_include {step : Step} (h : ∀ name, step ≠ .include name)
    {names : List Text} {back : Text} : ¬ d.Walk [step] names back := by
  intro hwalk
  cases hwalk with
  | last hmem => exact h back (List.mem_singleton.mp hmem).symm
  | through hmem known inside => exact h _ (List.mem_singleton.mp hmem).symm

/-! ### Walks that come back -/

/-- Under the open libraries, a walk goes through libraries that differ from them and
from one another, and comes back to one of all these. -/
structure Returns (d : Definition) (opened : List Text) (steps : List Step)
    (names : List Text) (back : Text) : Prop where
  walk : d.Walk steps names back
  distinct : (opened ++ names).Nodup
  back : back ∈ opened ++ names

variable {opened : List Text} {names : List Text} {back : Text}

lemma returns_cons_iff {step : Step} {rest : List Step} :
    d.Returns opened (step :: rest) names back
      ↔ d.Returns opened [step] names back ∨ d.Returns opened rest names back := by
  constructor
  · rintro ⟨hwalk, distinct, hback⟩
    exact (walk_cons_iff.mp hwalk).imp (⟨·, distinct, hback⟩) (⟨·, distinct, hback⟩)
  · rintro (⟨hwalk, distinct, hback⟩ | ⟨hwalk, distinct, hback⟩)
    · exact ⟨walk_cons_iff.mpr (.inl hwalk), distinct, hback⟩
    · exact ⟨walk_cons_iff.mpr (.inr hwalk), distinct, hback⟩

/-- An include of an open library comes back at once. -/
lemma returns_include_of_mem {name : Text} (distinct : opened.Nodup) (member : name ∈ opened) :
    d.Returns opened [.include name] names back ↔ names = [] ∧ back = name := by
  constructor
  · rintro ⟨hwalk, hdistinct, -⟩
    rcases walk_include_iff.mp hwalk with hlast | ⟨inner, tail, -, rfl, -⟩
    · exact hlast
    · exact absurd member fun h => (List.disjoint_of_nodup_append hdistinct) h (by simp)
  · rintro ⟨rfl, rfl⟩
    exact ⟨walk_include_iff.mpr (.inl ⟨rfl, rfl⟩), by simpa using distinct, by simpa using member⟩

/-- An include of a library that is not open comes back inside it, if at all. -/
lemma returns_include_of_not_mem {name : Text} (closed : name ∉ opened) :
    d.Returns opened [.include name] names back
      ↔ ∃ inner tail, d.fileLibrary? name = some inner ∧ names = name :: tail
        ∧ d.Returns (opened ++ [name]) inner tail back := by
  constructor
  · rintro ⟨hwalk, hdistinct, hback⟩
    rcases walk_include_iff.mp hwalk with ⟨rfl, rfl⟩ | ⟨inner, tail, known, rfl, inside⟩
    · exact absurd (by simpa using hback) closed
    · exact ⟨inner, tail, known, rfl, inside, by simpa using hdistinct, by simpa using hback⟩
  · rintro ⟨inner, tail, known, rfl, inside, hdistinct, hback⟩
    exact ⟨walk_include_iff.mpr (.inr ⟨inner, tail, known, rfl, inside⟩),
      by simpa using hdistinct, by simpa using hback⟩

/-! ### What a program records about cycles -/

/-- A built-in library records nothing by hand. -/
lemma notices_library (opened : List Text) (library : Library) :
    Call.notices opened library.program = [] := by
  have hnotes := Call.map_notices library.program opened
  rw [library.notes_program] at hnotes
  exact List.map_eq_nil_iff.mp hnotes

/-- The error about a walk that came back to `back` under a trail. -/
def cycleError (trail : List Text) (back : Text) : Diagnostic :=
  ⟨.error, .libraryCycle (trail ++ [back]), trail⟩

/-- What a step records about cycles, if the library it opens records what it
should. -/
lemma cycle_mem_notice_iff (distinct : opened.Nodup) {step : Step} {g : Diagnostic}
    {chain : List Text} (cycle : g.finding = .libraryCycle chain)
    (onLibrary : ∀ name inner, step = .include name → name ∉ opened →
      d.fileLibrary? name = some inner →
      (g ∈ Call.notices (opened ++ [name]) (d.program (opened ++ [name]) inner)
        ↔ ∃ names back, d.Returns (opened ++ [name]) inner names back
          ∧ g = cycleError (opened ++ [name] ++ names) back)) :
    g ∈ Call.notice opened (d.call opened step)
      ↔ ∃ names back, d.Returns opened [step] names back
        ∧ g = cycleError (opened ++ names) back := by
  cases step with
  | «include» name =>
      by_cases member : name ∈ opened
      · rw [call, if_pos member, Call.notice_record, List.mem_singleton]
        simp only [returns_include_of_mem distinct member]
        constructor
        · rintro rfl
          exact ⟨[], name, ⟨rfl, rfl⟩, by simp [cycleError]⟩
        · rintro ⟨_, _, ⟨rfl, rfl⟩, rfl⟩
          simp [cycleError]
      · rw [call, if_neg member]
        simp only [returns_include_of_not_mem member]
        cases hincluded : d.included name with
        | file inner =>
            have known := included_eq_file_iff.mp hincluded
            rw [Call.notice_compose, onLibrary name inner rfl member known]
            constructor
            · rintro ⟨names, back, h, rfl⟩
              exact ⟨name :: names, back, ⟨inner, names, known, rfl, h⟩, by simp⟩
            · rintro ⟨_, back, ⟨inner', names, known', rfl, h⟩, rfl⟩
              obtain rfl := Option.some.inj (known.symm.trans known')
              exact ⟨names, back, h, by simp⟩
        | builtIn library =>
            have hfile : d.fileLibrary? name = none :=
              included_eq_builtIn_iff.mp hincluded ▸ fileLibrary?_scheme library
            simp [notices_library, hfile]
        | nothing =>
            have hfile : d.fileLibrary? name = none := by
              have hknown := included_eq_nothing_iff.mp hincluded
              by_contra hsome
              exact hknown (.inl (Option.isSome_iff_ne_none.mpr hsome))
            have hne : g ≠ ⟨.error, .unknownLibrary name, opened⟩ := by
              rintro rfl
              simp at cycle
            simp [hne, hfile]
  | _ =>
      constructor
      · intro h
        simp [call, Call.notice] at h
      · rintro ⟨names, back, ⟨hwalk, -, -⟩, -⟩
        exact absurd hwalk (not_walk_of_ne_include (by simp))

/-- **What a program records about cycles** are the walks that come back, as errors
under the libraries they went through. -/
theorem cycle_mem_notices_iff {steps : List Step} (distinct : opened.Nodup) {g : Diagnostic}
    {chain : List Text} (cycle : g.finding = .libraryCycle chain) :
    g ∈ Call.notices opened (d.program opened steps)
      ↔ ∃ names back, d.Returns opened steps names back
        ∧ g = cycleError (opened ++ names) back := by
  -- As the program is made: the library of an include under the longer trail, then the rest.
  induction opened, steps using d.induction with
  | nil opened =>
      rw [program_nil]
      constructor
      · intro h
        simp at h
      · rintro ⟨names, back, ⟨hwalk, -, -⟩, -⟩
        cases hwalk with
        | last hmem => simp at hmem
        | through hmem known inside => simp at hmem
  | cons opened step rest onLibrary onRest =>
      have hstep := cycle_mem_notice_iff distinct cycle fun name inner hname closed known =>
        onLibrary name inner hname closed known
          (List.nodup_append_comm.mp (by simpa using ⟨closed, distinct⟩))
      rw [program_cons, Call.notices_cons, List.mem_append, hstep, onRest distinct]
      constructor
      · rintro (⟨names, back, h, heq⟩ | ⟨names, back, h, heq⟩)
        · exact ⟨names, back, returns_cons_iff.mpr (.inl h), heq⟩
        · exact ⟨names, back, returns_cons_iff.mpr (.inr h), heq⟩
      · rintro ⟨names, back, h, heq⟩
        exact (returns_cons_iff.mp h).imp (⟨names, back, ·, heq⟩) (⟨names, back, ·, heq⟩)

end Definition

/-! ### The program of a command -/

/-- Declarations record nothing by hand. -/
lemma Command.notices_program (command : Command) (d : Definition) :
    Call.notices [] (command.program d) = Call.notices [] (d.program [] command.steps) := by
  rw [Command.program]
  induction command.store with
  | nil => rfl
  | cons declaration rest ih => exact ih

/-- The cycles on the draft of a command are the errors about the walks from its steps
that come back. -/
lemma Command.cycle_mem_recorded_iff (command : Command) (d : Definition) (name : Text)
    (policy : CollisionPolicy) {g : Diagnostic} {chain : List Text}
    (cycle : g.finding = .libraryCycle chain) :
    g ∈ (d.draft name command policy).recorded
      ↔ ∃ names back, d.Returns [] command.steps names back
        ∧ g = Definition.cycleError names back := by
  have hclean := fun note hnote => (command.notes_program_spec d note hnote).2.1
  have hnoticed : (d.draft name command policy).noticed
      = Call.notices [] (d.program [] command.steps) := by
    rw [Definition.draft, Draft.noticed_runAll hclean, ← command.notices_program]
    rfl
  have hmem : g ∈ (d.draft name command policy).recorded
      ↔ g ∈ (d.draft name command policy).noticed := by
    simp [Draft.noticed, cycle, Finding.isCollision]
  rw [hmem, hnoticed]
  exact Definition.cycle_mem_notices_iff List.nodup_nil cycle

/-- **The cycles of a command.** The chains of the cycles recorded on the draft of a
command are the include walks that start at its steps, go through libraries of the
definition that differ from one another, and come back to one of them. Each cycle is
recorded as an error, under the libraries of its chain but the last name. -/
theorem libraryCycle_recorded_iff (d : Definition) (name : Text) (command : Command)
    (policy : CollisionPolicy) :
    (∀ chain, (∃ g ∈ (d.draft name command policy).recorded, g.finding = .libraryCycle chain)
        ↔ ∃ names back, chain = names ++ [back] ∧ d.Walk command.steps names back
          ∧ (∀ library ∈ names, (d.fileLibrary? library).isSome) ∧ names.Nodup
          ∧ back ∈ names)
      ∧ ∀ g ∈ (d.draft name command policy).recorded, ∀ chain, g.finding = .libraryCycle chain →
          g.level = .error ∧ g.via = chain.dropLast := by
  have hmem := fun (g : Diagnostic) (chain : List Text) (cycle : g.finding = .libraryCycle chain) =>
    command.cycle_mem_recorded_iff d name policy cycle
  refine ⟨fun chain => ⟨?_, ?_⟩, ?_⟩
  · rintro ⟨g, hg, cycle⟩
    obtain ⟨names, back, h, rfl⟩ := (hmem g chain cycle).mp hg
    exact ⟨names, back, (Finding.libraryCycle.inj cycle).symm, h.walk, h.walk.known,
      by simpa using h.distinct, by simpa using h.back⟩
  · rintro ⟨names, back, rfl, walk, -, distinct, hback⟩
    exact ⟨Definition.cycleError names back, (hmem _ _ rfl).mpr
      ⟨names, back, ⟨walk, by simpa using distinct, by simpa using hback⟩, rfl⟩, rfl⟩
  · intro g hg chain cycle
    obtain ⟨names, back, h, rfl⟩ := (hmem g chain cycle).mp hg
    obtain rfl := Finding.libraryCycle.inj cycle
    exact ⟨rfl, List.dropLast_concat.symm⟩

end Directives
