/-
Includes written out by hand.

An include of a library of the definition stands for the steps of the library.
Writing them in its place, again and again until no such include is left, gives
a list of steps with the same effect: only trails and the list of opened
libraries tell the difference.

* `Definition.taken?`: the steps that a step takes in from the definition.
* `Definition.Inlines`: the steps with every such include written out;
  `Inlines.unique`, `Acyclic.inlines`: there is one such list, and acyclic steps
  have it.
* `Definition.Inlines.atoms`: writing out keeps the atoms of the program.
* `draft_inline`: the drafts agree.
-/
import Directives.Proofs.Definition.Include
import Directives.Proofs.Draft.Trail

namespace Directives

namespace Definition

/-- The steps that a step takes in from a library of the definition. -/
def taken? (d : Definition) : Step → Option (List Step)
  | .include name => d.fileLibrary? name
  | _ => none

/-- The second list is the first with every include of a library of the
definition written out. All other steps stay, includes of built-in libraries and of
unknown ones among them. -/
inductive Inlines (d : Definition) : List Step → List Step → Prop
  | nil : Inlines d [] []
  | library {step : Step} {rest inner flatInner flatRest : List Step}
      (taken : d.taken? step = some inner) (hinner : Inlines d inner flatInner)
      (hrest : Inlines d rest flatRest) : Inlines d (step :: rest) (flatInner ++ flatRest)
  | keep {step : Step} {rest flatRest : List Step} (kept : d.taken? step = none)
      (hrest : Inlines d rest flatRest) : Inlines d (step :: rest) (step :: flatRest)

variable {d : Definition}

/-! ### The steps written out -/

/-- There is one way to write the steps out. -/
lemma Inlines.unique {steps flat : List Step} (h : d.Inlines steps flat) :
    ∀ {other}, d.Inlines steps other → other = flat := by
  induction h with
  | nil =>
      intro other hother
      cases hother
      rfl
  | library taken _ _ ihInner ihRest =>
      intro other hother
      cases hother with
      | library taken' hinner' hrest' =>
          cases taken.symm.trans taken'
          rw [ihInner hinner', ihRest hrest']
      | keep kept' => simp [taken] at kept'
  | keep kept _ ihRest =>
      intro other hother
      cases hother with
      | library taken' => simp [kept] at taken'
      | keep _ hrest' => rw [ihRest hrest']

/-- No include of a library of the definition is left. -/
lemma Inlines.taken?_eq_none {steps flat : List Step} (h : d.Inlines steps flat) :
    ∀ step ∈ flat, d.taken? step = none := by
  induction h with
  | nil => simp
  | library _ _ _ ihInner ihRest => exact List.forall_mem_append.mpr ⟨ihInner, ihRest⟩
  | keep kept _ ihRest => exact List.forall_mem_cons.mpr ⟨kept, ihRest⟩

lemma exists_inlines (opened : List Text) (steps : List Step) (acyclic : d.Acyclic steps)
    (hopened : ∀ name ∈ opened, ¬ d.Reaches steps name) : ∃ flat, d.Inlines steps flat := by
  induction opened, steps using d.induction with
  | nil opened => exact ⟨[], .nil⟩
  | cons opened step rest onLibrary onRest =>
      obtain ⟨flatRest, hrest⟩ := onRest acyclic.rest
        (fun name hname hreach => hopened name hname (hreach.cons step))
      cases taken : d.taken? step with
      | none => exact ⟨step :: flatRest, .keep taken hrest⟩
      | some inner =>
          cases step with
          | «include» name =>
              have hname : d.Reaches (.include name :: rest) name := .here (by simp)
              obtain ⟨flatInner, hinner⟩ := onLibrary name inner rfl
                (fun member => hopened name member hname) taken (acyclic.library hname taken)
                (acyclic.opened hname taken hopened)
              exact ⟨flatInner ++ flatRest, .library taken hinner hrest⟩
          | _ => simp [taken?] at taken

/-- Acyclic steps can be written out. -/
theorem Acyclic.inlines {steps : List Step} (acyclic : d.Acyclic steps) :
    ∃ flat, d.Inlines steps flat :=
  exists_inlines [] steps acyclic (by simp)

/-! ### The same atoms -/

lemma program_append (opened : List Text) (before after : List Step) :
    d.program opened (before ++ after) = d.program opened before ++ d.program opened after := by
  simp [program_eq_map]

/-- The open libraries do not matter to a step that takes in none of the
definition and includes none that is open. -/
lemma call_of_kept {opened : List Text} {step : Step} (kept : d.taken? step = none)
    (closed : ∀ name, step = .include name → name ∉ opened) :
    d.call opened step = d.call [] step := by
  cases step with
  | «include» name =>
      have hname : name ∉ opened := closed name rfl
      rw [call, call, if_neg hname, if_neg List.not_mem_nil]
      cases h : d.included name with
      | file inner => simp [taken?, included_eq_file_iff.mp h] at kept
      | builtIn library => rfl
      | nothing => rfl
  | _ => rfl

/-- Writing out keeps the atoms of the program: the libraries that are opened on
the way hold the same calls as the steps in their place. -/
theorem Inlines.atoms {steps flat : List Step} (h : d.Inlines steps flat)
    (acyclic : d.Acyclic steps) {opened : List Text}
    (hopened : ∀ name ∈ opened, ¬ d.Reaches steps name) :
    Call.allAtoms (d.program opened steps) = Call.allAtoms (d.program [] flat) := by
  induction h generalizing opened with
  | nil => simp [program_nil]
  | @library step rest inner flatInner flatRest taken hinner hrest ihInner ihRest =>
      have hreach : ∀ name ∈ opened, ¬ d.Reaches rest name := fun name hname hreach =>
        hopened name hname (hreach.cons step)
      rw [program_cons, program_append, Call.allAtoms_cons, Call.allAtoms_append,
        ihRest acyclic.rest hreach]
      congr 1
      cases step with
      | «include» name =>
          have hname : d.Reaches (.include name :: rest) name := .here (by simp)
          have closed : name ∉ opened := fun member => hopened name member hname
          rw [call, if_neg closed, included_eq_file_iff.mpr taken, Call.atoms_compose]
          exact ihInner (acyclic.library hname taken) (acyclic.opened hname taken hopened)
      | _ => simp [taken?] at taken
  | @keep step rest flatRest kept hrest ihRest =>
      have hreach : ∀ name ∈ opened, ¬ d.Reaches rest name := fun name hname hreach =>
        hopened name hname (hreach.cons step)
      have closed : ∀ name, step = .include name → name ∉ opened := fun name hstep member =>
        hopened name member (.here (by simp [hstep]))
      rw [program_cons, program_cons, Call.allAtoms_cons, Call.allAtoms_cons,
        ihRest acyclic.rest hreach, call_of_kept kept closed]

end Definition

/-! ### The same draft -/

/-- What a draft without trails still tells. -/
lemma Draft.eq_of_untraced {d e : Draft} (h : d.untraced = e.untraced) :
    d.rules = e.rules ∧ d.guidelines = e.guidelines ∧ d.store.bindings = e.store.bindings
      ∧ d.store.lints.map (fun lint => (lint.name, lint.token))
          = e.store.lints.map (fun lint => (lint.name, lint.token))
      ∧ d.diagnostics.map (fun g => (g.level, g.finding))
          = e.diagnostics.map (fun g => (g.level, g.finding))
      ∧ d.document = e.document := by
  have hrules : d.untraced.rules = e.untraced.rules := congrArg Draft.rules h
  have hguidelines : d.untraced.guidelines = e.untraced.guidelines := congrArg Draft.guidelines h
  have hbindings : d.untraced.store.bindings = e.untraced.store.bindings :=
    congrArg (fun d => d.store.bindings) h
  have hlints : d.store.lints.map Lint.untraced = e.store.lints.map Lint.untraced :=
    congrArg (fun d => d.store.lints) h
  have hrecorded : d.recorded.map Diagnostic.untraced = e.recorded.map Diagnostic.untraced :=
    congrArg Draft.recorded h
  refine ⟨hrules, hguidelines, hbindings, ?_, ?_, ?_⟩
  · have hmap := congrArg (List.map fun lint : Lint => (lint.name, lint.token)) hlints
    rw [List.map_map, List.map_map] at hmap
    exact hmap
  · have hfindings := congrArg (List.map fun g : Diagnostic => (g.level, g.finding)) hrecorded
    have hwarnings := congrArg
      (List.map fun lint : Lint => (Level.warning, Finding.unresolvedReference lint.name)) hlints
    rw [List.map_map, List.map_map] at hfindings hwarnings
    simp only [diagnostics, List.map_append, List.map_map]
    exact congrArg₂ (· ++ ·) hfindings hwarnings
  · exact congrArg₂ Layout.document hrules hguidelines

/-- **Includes replay as if written by hand.** The steps of a command that reach no
cycle can be written out in one way, and the draft of the command with its steps
written out has the same registries, bindings, dangling references, findings and
document. -/
theorem draft_inline {d : Definition} {command : Command} (acyclic : d.Acyclic command.steps)
    (name : Text) (policy : CollisionPolicy) :
    ∃ flat, d.Inlines command.steps flat
      ∧ (∀ other, d.Inlines command.steps other → other = flat)
      ∧ let replayed := d.draft name command policy
        let written := d.draft name { command with steps := flat } policy
        written.rules = replayed.rules ∧ written.guidelines = replayed.guidelines
          ∧ written.store.bindings = replayed.store.bindings
          ∧ written.store.lints.map (fun lint => (lint.name, lint.token))
              = replayed.store.lints.map (fun lint => (lint.name, lint.token))
          ∧ written.diagnostics.map (fun g => (g.level, g.finding))
              = replayed.diagnostics.map (fun g => (g.level, g.finding))
          ∧ written.document = replayed.document := by
  obtain ⟨flat, hflat⟩ := acyclic.inlines
  refine ⟨flat, hflat, fun other hother => hflat.unique hother, ?_⟩
  have hatoms : Call.allAtoms (({ command with steps := flat } : Command).program d)
      = Call.allAtoms (command.program d) := by
    rw [Command.program, Command.program, Call.allAtoms_append, Call.allAtoms_append,
      hflat.atoms acyclic (by simp)]
  refine Draft.eq_of_untraced ?_
  rw [Definition.draft, Definition.draft, ← Draft.runAll_untraced, ← Draft.runAll_untraced, hatoms]

namespace Definition

/-- The steps of the example, written out. -/
def layeredFlat : List Step :=
  [.rule layeredRule, .include "builtin:error-handling", .guideline layeredGuideline]

lemma layered_inlines : layered.Inlines layeredTask.steps layeredFlat :=
  .library rfl (.library rfl (.keep rfl .nil) (.keep rfl .nil)) (.keep rfl .nil)

/-- The example reads the same with its steps written out. -/
theorem layered_document_inline :
    (layered.draft "task:validate" { layeredTask with steps := layeredFlat } .error).document
      = (layered.draft "task:validate" layeredTask .error).document := by
  obtain ⟨flat, _, unique, _, _, _, _, _, hdocument⟩ :=
    draft_inline layered_acyclic "task:validate" .error
  rw [unique layeredFlat layered_inlines]
  exact hdocument

end Definition

end Directives
