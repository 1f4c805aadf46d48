/-
The replay of a command, step by step.

The program of a command is known before it runs. A replay knows less: it has a draft
and, for the command and for each library it has opened, the steps that are left. What
an include comes to it sees on the draft, whose trail says which libraries are open.
Nothing it looks at gets smaller from step to step, so that it ends has to be proved.

* `Definition.Progress`, `Definition.advance`: how far a replay is, and its next step.
* `Definition.Frames`: the open libraries differ from one another, are libraries of the
  definition, and each has steps of its own left.
* `Definition.Frames.advance`: every step keeps the frames.
* `Definition.advances_program`: a replay makes the calls of the program.
* `Definition.replay_ends`: the replay of a command ends, and how deep it gets.
-/
import Mathlib.Logic.Relation
import Directives.Proofs.Definition.Program
import Directives.Proofs.Draft.Moment
import Directives.Proofs.Draft.Notice

namespace Directives

namespace Definition

/-! ### The steps of a replay -/

/-- How far a replay is. -/
structure Progress where
  draft : Draft
  /-- The steps that are left: of the library opened last, of the one around it, and so
  forth, and of the command. -/
  frames : List (List Step)

variable (d : Definition)

/-- The next step of a replay. A library with no steps left is closed; a command with no
steps left is over. -/
def advance : Progress → Option Progress
  | ⟨draft, (step :: rest) :: outer⟩ =>
      let (draft, inside) := d.begin draft step
      some ⟨draft, inside.toList ++ rest :: outer⟩
  | ⟨draft, [] :: rest :: outer⟩ => some ⟨draft.leave, rest :: outer⟩
  | _ => none

/-- One step leads from one progress to another. -/
def Advances (p q : Progress) : Prop := d.advance p = some q

variable {d}

/-- A step makes its call of the program, or it opens a library of the definition that is
not open. -/
lemma begin_cases (draft : Draft) (step : Step) :
    d.begin draft step = (draft.run (d.call draft.trail step), none)
      ∨ ∃ name inner, step = .include name ∧ name ∉ draft.trail
        ∧ d.fileLibrary? name = some inner ∧ d.begin draft step = (draft.enter name, some inner)
        ∧ d.call draft.trail step
          = .compose name (d.program (draft.trail ++ [name]) inner) := by
  cases step with
  | «include» name =>
      by_cases member : name ∈ draft.trail
      · exact .inl (by simp [begin, call, member, Draft.run])
      · cases hincluded : d.included name with
        | file inner =>
            exact .inr ⟨name, inner, rfl, member, included_eq_file_iff.mp hincluded,
              by simp [begin, member, hincluded], by simp [call, member, hincluded]⟩
        | builtIn library => exact .inl (by simp [begin, call, member, hincluded])
        | nothing => exact .inl (by simp [begin, call, member, hincluded, Draft.run])
  | _ => exact .inl rfl

lemma advances_step (draft : Draft) (step : Step) (rest : List Step)
    (outer : List (List Step)) :
    d.Advances ⟨draft, (step :: rest) :: outer⟩
      ⟨(d.begin draft step).1, (d.begin draft step).2.toList ++ rest :: outer⟩ := rfl

lemma advances_leave (draft : Draft) (rest : List Step) (outer : List (List Step)) :
    d.Advances ⟨draft, [] :: rest :: outer⟩ ⟨draft.leave, rest :: outer⟩ := rfl

/-- A replay has one way to go on. -/
lemma advances_rightUnique : Relator.RightUnique d.Advances := by
  intro p q r hq hr
  exact Option.some.inj (hq.symm.trans hr)

/-- What the next step of a replay can be: a call of the program, a library that is
opened, and a library that is closed. -/
lemma advances_cases {p q : Progress} (h : d.Advances p q) :
    (∃ draft step rest outer, p = ⟨draft, (step :: rest) :: outer⟩
        ∧ q = ⟨draft.run (d.call draft.trail step), rest :: outer⟩)
      ∨ (∃ draft name inner rest outer, name ∉ draft.trail ∧ d.fileLibrary? name = some inner
        ∧ p = ⟨draft, (.include name :: rest) :: outer⟩
        ∧ q = ⟨draft.enter name, inner :: rest :: outer⟩)
      ∨ ∃ draft rest outer, p = ⟨draft, [] :: rest :: outer⟩
        ∧ q = ⟨draft.leave, rest :: outer⟩ := by
  obtain ⟨draft, frames⟩ := p
  match frames with
  | (step :: rest) :: outer =>
      obtain rfl := advances_rightUnique h (advances_step draft step rest outer)
      rcases begin_cases (d := d) draft step with
        hbegin | ⟨name, inner, rfl, closed, known, hbegin, -⟩
      · exact .inl ⟨draft, step, rest, outer, rfl, by rw [hbegin]; rfl⟩
      · exact .inr (.inl ⟨draft, name, inner, rest, outer, closed, known, rfl,
          by rw [hbegin]; rfl⟩)
  | [] :: next :: outer =>
      obtain rfl := advances_rightUnique h (advances_leave draft next outer)
      exact .inr (.inr ⟨draft, next, outer, rfl, rfl⟩)
  | [[]] => simp [Advances, advance] at h
  | [] => simp [Advances, advance] at h

/-! ### Frames -/

lemma mem_libraryNames {name : Text} {inner : List Step}
    (known : d.fileLibrary? name = some inner) :
    name ∈ d.libraryNames := by
  obtain ⟨before, after, hlibraries, -⟩ :=
    List.lookup_eq_some_iff.mp (fileLibrary?_eq_some_iff.mp known).2
  simp [libraryNames, hlibraries]

/-- What is left of a replay under the open libraries: some of the steps of the command,
and some of those of each open library, which was not open before. -/
inductive Frames (d : Definition) (steps : List Step) : List Text → List (List Step) → Prop
  | command {rest : List Step} (left : rest <:+ steps) : Frames d steps [] [rest]
  | library {trail : List Text} {outer : List (List Step)} {name : Text}
      {inner rest : List Step} (around : Frames d steps trail outer) (closed : name ∉ trail)
      (known : d.fileLibrary? name = some inner) (left : rest <:+ inner) :
      Frames d steps (trail ++ [name]) (rest :: outer)

namespace Frames

variable {steps : List Step} {trail : List Text} {frames : List (List Step)}

/-- The open libraries differ from one another. -/
lemma nodup (h : d.Frames steps trail frames) : trail.Nodup := by
  induction h with
  | command left => exact List.nodup_nil
  | library around closed known left ih =>
      exact List.nodup_append_comm.mp (by simpa using ⟨closed, ih⟩)

/-- The open libraries are libraries of the definition. -/
lemma known (h : d.Frames steps trail frames) : ∀ name ∈ trail, name ∈ d.libraryNames := by
  induction h with
  | command left => simp
  | library around closed known left ih =>
      rw [List.forall_mem_append, List.forall_mem_singleton]
      exact ⟨ih, mem_libraryNames known⟩

/-- There are no more open libraries than libraries. -/
lemma length_trail_le (h : d.Frames steps trail frames) :
    trail.length ≤ d.libraryNames.length :=
  (h.nodup.subperm h.known).length_le

/-- With fewer steps left in the last frame. -/
lemma drop {rest more : List Step} {outer : List (List Step)}
    (h : d.Frames steps trail (rest :: outer)) (hmore : more <:+ rest) :
    d.Frames steps trail (more :: outer) := by
  cases h with
  | command left => exact .command (hmore.trans left)
  | library around closed known left => exact .library around closed known (hmore.trans left)

/-- Without the library opened last. -/
lemma close {rest next : List Step} {outer : List (List Step)}
    (h : d.Frames steps trail (rest :: next :: outer)) :
    d.Frames steps trail.dropLast (next :: outer) := by
  cases h with
  | library around closed known left =>
      rw [List.dropLast_concat]
      exact around

/-- **Every step of a replay keeps the frames.** -/
theorem advance {p q : Progress} (h : d.Frames steps p.draft.trail p.frames)
    (hstep : d.Advances p q) : d.Frames steps q.draft.trail q.frames := by
  rcases advances_cases hstep with
    ⟨draft, step, rest, outer, rfl, rfl⟩
    | ⟨draft, name, inner, rest, outer, closed, known, rfl, rfl⟩
    | ⟨draft, rest, outer, rfl, rfl⟩
  · have htrail : (draft.run (d.call draft.trail step)).trail = draft.trail :=
      draft.runAll_trail [_]
    rw [htrail]
    exact h.drop (List.suffix_cons _ _)
  · exact .library (h.drop (List.suffix_cons _ _)) closed known List.suffix_rfl
  · exact h.close

/-- Every run of a replay keeps the frames. -/
theorem advances {p q : Progress} (h : d.Frames steps p.draft.trail p.frames)
    (hrun : Relation.ReflTransGen d.Advances p q) : d.Frames steps q.draft.trail q.frames := by
  induction hrun with
  | refl => exact h
  | tail _ hstep ih => exact ih.advance hstep

end Frames

/-! ### The run of a replay -/

/-- **A replay makes the calls of the program**: from some steps under the open libraries
it gets to the end of these steps, with the draft that the program makes of its own. -/
theorem advances_program (opened : List Text) (steps : List Step) {draft : Draft}
    (trail : draft.trail = opened) (outer : List (List Step)) :
    Relation.ReflTransGen d.Advances ⟨draft, steps :: outer⟩
      ⟨draft.runAll (d.program opened steps), [] :: outer⟩ := by
  induction opened, steps using d.induction generalizing draft outer with
  | nil opened =>
      rw [program_nil]
      exact .refl
  | cons opened step rest onLibrary onRest =>
      obtain rfl := trail
      have hcall : (draft.run (d.call draft.trail step)).trail = draft.trail :=
        draft.runAll_trail [_]
      have hstep := advances_step (d := d) draft step rest outer
      rw [program_cons, Draft.runAll_cons]
      rcases begin_cases (d := d) draft step with
        hbegin | ⟨name, inner, rfl, closed, known, hbegin, hcompose⟩
      · rw [hbegin] at hstep
        exact .head hstep (onRest hcall outer)
      · rw [hbegin] at hstep
        -- The library is opened, its steps are replayed, and it is closed again.
        have hinside : Relation.ReflTransGen d.Advances
            ⟨draft.enter name, inner :: rest :: outer⟩
            ⟨(draft.enter name).runAll (d.program (draft.trail ++ [name]) inner),
              [] :: rest :: outer⟩ :=
          onLibrary name inner rfl closed known rfl (rest :: outer)
        have hleave : d.Advances
            ⟨(draft.enter name).runAll (d.program (draft.trail ++ [name]) inner),
              [] :: rest :: outer⟩
            ⟨draft.run (d.call draft.trail (.include name)), rest :: outer⟩ := by
          rw [hcompose]
          exact advances_leave _ rest outer
        exact .head hstep (hinside.trans (.head hleave (onRest hcall outer)))

/-! ### The depth of a program -/

/-- The path is one of distinct libraries of the definition, with at most two built-in
libraries inside. -/
def Nested (d : Definition) (path : List Text) : Prop :=
  ∃ files builtIns, path = files ++ builtIns ∧ files.Nodup
    ∧ (∀ name ∈ files, name ∈ d.libraryNames) ∧ builtIns.length ≤ 2

/-- A library that a built-in library opens opens none. -/
lemma exists_of_mem_paths_program {around : List Text} {library : Library} :
    ∀ path ∈ Call.paths around library.program, ∃ name, path = around ++ [name] := by
  cases library <;> simp [Library.program, Library.qualityGatesProgram,
    Library.errorHandlingProgram, Library.parallelDispatchProgram, Call.paths, Call.path]

/-- The libraries that a program opens are nested in one another. -/
lemma nested_of_mem_paths {opened : List Text} {steps : List Step} (distinct : opened.Nodup)
    (libraries : ∀ name ∈ opened, name ∈ d.libraryNames) :
    ∀ path ∈ Call.paths opened (d.program opened steps), d.Nested path := by
  induction opened, steps using d.induction with
  | nil opened => simp [program_nil, Call.paths]
  | cons opened step rest onLibrary onRest =>
      have hrest := onRest distinct libraries
      rw [program_cons]
      cases step with
      | «include» name =>
          by_cases member : name ∈ opened
          · rw [call, if_pos member, Call.paths_atom rfl]
            exact hrest
          · rw [call, if_neg member]
            cases hincluded : d.included name with
            | file inner =>
                have known := included_eq_file_iff.mp hincluded
                have hdistinct : (opened ++ [name]).Nodup :=
                  List.nodup_append_comm.mp (by simpa using ⟨member, distinct⟩)
                have hlibraries : ∀ library ∈ opened ++ [name], library ∈ d.libraryNames := by
                  rw [List.forall_mem_append, List.forall_mem_singleton]
                  exact ⟨libraries, mem_libraryNames known⟩
                rw [Call.paths_compose, List.cons_append, List.forall_mem_cons,
                  List.forall_mem_append]
                exact ⟨⟨_, [], by simp, hdistinct, hlibraries, by simp⟩,
                  onLibrary name inner rfl member known hdistinct hlibraries, hrest⟩
            | builtIn library =>
                rw [Call.paths_compose, List.cons_append, List.forall_mem_cons,
                  List.forall_mem_append]
                refine ⟨⟨opened, [name], rfl, distinct, libraries, by simp⟩, ?_, hrest⟩
                intro path hpath
                obtain ⟨inner, rfl⟩ := exists_of_mem_paths_program path hpath
                exact ⟨opened, [name, inner], by simp, distinct, libraries, le_rfl⟩
            | nothing =>
                rw [Call.paths_atom rfl]
                exact hrest
      | _ =>
          rw [call, Call.paths_atom rfl]
          exact hrest

end Definition

/-- The calls that make the declarations of a command. -/
def Command.declarations (command : Command) : List Call :=
  command.store.map fun declaration => .declare declaration.name declaration.description

/-- Declarations open no library. -/
lemma Command.paths_program (command : Command) (d : Definition) :
    Call.paths [] (command.program d) = Call.paths [] (d.program [] command.steps) := by
  rw [program]
  induction command.store with
  | nil => rfl
  | cons declaration rest ih => exact ih

namespace Definition

/-- **The replay of a command ends**, whatever the libraries of the definition include.
There is one way to go on until the draft of the command is built, and no library is
open then. All the while the open libraries are libraries of the definition that differ
from one another, each with steps of its own left, so that they are never more than
there are libraries. Built-in libraries, which are opened without a look at the trail,
add no more than two. -/
theorem replay_ends (d : Definition) (name : Text) (command : Command)
    (policy : CollisionPolicy) :
    let empty : Draft := { name, policy }
    let start : Progress := ⟨empty.runAll command.declarations, [command.steps]⟩
    let final : Progress := ⟨d.draft name command policy, [[]]⟩
    (Relation.ReflTransGen d.Advances start final ∧ d.advance final = none)
      ∧ (∀ p, Relation.ReflTransGen d.Advances start p →
          Relation.ReflTransGen d.Advances p final
            ∧ d.Frames command.steps p.draft.trail p.frames
            ∧ p.draft.trail.Nodup
            ∧ (∀ library ∈ p.draft.trail, library ∈ d.libraryNames)
            ∧ p.draft.trail.length ≤ d.libraryNames.length)
      ∧ (∀ m ∈ empty.moments [] (command.program d), d.Nested m.draft.trail)
      ∧ final.draft.trail = [] ∧ final.draft.store.trail = [] := by
  intro empty start final
  have hunder : empty.Under [] := ⟨rfl, rfl⟩
  have hdeclared : start.draft.trail = [] := empty.runAll_trail _
  have hfinal : final.draft = start.draft.runAll (d.program [] command.steps) :=
    empty.runAll_append _ _
  have hruns : Relation.ReflTransGen d.Advances start final := by
    have h := advances_program (d := d) [] command.steps hdeclared []
    rwa [← hfinal] at h
  have hover : d.advance final = none := rfl
  refine ⟨⟨hruns, hover⟩, fun p hp => ?_, fun m hm => ?_, ?_⟩
  · have hstart : d.Frames command.steps start.draft.trail start.frames := by
      rw [hdeclared]
      exact .command List.suffix_rfl
    have hframes := hstart.advances hp
    refine ⟨?_, hframes, hframes.nodup, hframes.known, hframes.length_trail_le⟩
    -- A replay that is over goes nowhere, so the other run has not gone further.
    rcases hp.total_of_right_unique advances_rightUnique hruns with h | h
    · exact h
    · rcases Relation.ReflTransGen.cases_head h with rfl | ⟨q, hq, -⟩
      · exact .refl
      · rw [Advances, hover] at hq
        cases hq
  · rw [(hunder.moments (command.program d) m hm).trail]
    rcases Draft.around_of_mem_moments m hm with heq | hpath
    · exact ⟨[], [], by simp [heq], by simp, by simp, by simp⟩
    · rw [command.paths_program] at hpath
      exact nested_of_mem_paths List.nodup_nil (by simp) m.around hpath
  · have h := hunder.runAll (command.program d)
    exact ⟨h.trail, h.store⟩

end Definition

end Directives
