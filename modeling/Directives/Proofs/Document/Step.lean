/-
The steps of a guideline.

Below the opening of a guideline stand its phases, each behind a label: a number in an
example, a bullet elsewhere. A phase without lines has no label and takes no number.

* `Guideline.Step`, `Guideline.steps`: the phases that have lines, behind their labels.
* `Guideline.block_steps`: the lines of a guideline, step by step.
* `Guideline.flatMap_steps`: what phases without lines do not have is found in the steps.
-/
import Directives.Document.Layout
import Directives.Proofs.Document.Built

namespace Directives.Guideline

/-- A phase behind its label. -/
structure Step where
  label : Text
  phase : Phase

/-- The lines of a step. -/
def Step.block (step : Step) : Block := Block.labelled step.label step.phase.block

variable (guideline : Guideline)

/-- The lines above the phases: the header, the goal and the description. -/
def opening : Block :=
  guideline.header
    :: ((guideline.goal.map fun goal => Block.labelled "GOAL: " (Block.ofText goal)).getD []
      ++ guideline.description.flatMap Block.ofText)

/-- What stands in front of a phase: its number in an example, a bullet elsewhere. -/
def label (number : Nat) : Text :=
  if guideline.isExample then Text.ofNat number ++ ". " else "- "

/-- The phases that have lines, in order and numbered from one, behind their labels. -/
def steps : List Step :=
  ((guideline.phases.filter fun phase => phase.block ≠ []).zipIdx 1).map
    fun (phase, number) => ⟨guideline.label number, phase⟩

/-! ### The lines of a guideline -/

lemma numbered_eq (number : Nat) (blocks : List Block) :
    numbered number blocks
      = (blocks.zipIdx number).flatMap fun (block, number) =>
          Block.labelled (Text.ofNat number ++ ". ") block := by
  induction blocks generalizing number with
  | nil => rfl
  | cons block rest ih => rw [numbered, ih, List.zipIdx_cons, List.flatMap_cons]

/-- **The lines of a guideline** are its opening and then its steps, one after another. -/
theorem block_steps : guideline.block = guideline.opening ++ guideline.steps.flatMap Step.block := by
  have hphases : guideline.phaseBlocks
      = (guideline.phases.filter fun phase => phase.block ≠ []).map Phase.block := by
    rw [phaseBlocks, List.filter_map]
    congr 2
    funext phase
    cases h : phase.block <;> simp [h]
  have hsteps : (if guideline.isExample then numbered 1 guideline.phaseBlocks
      else guideline.phaseBlocks.flatMap (Block.labelled "- "))
      = guideline.steps.flatMap Step.block := by
    rw [steps, hphases, List.flatMap_map, List.flatMap_map]
    cases hexample : guideline.isExample
    · rw [if_neg (by decide), ← Block.flatMap_zipIdx _ 1]
      exact List.flatMap_congr fun step _ => by simp [Step.block, label, hexample]
    · rw [if_pos rfl, numbered_eq, List.zipIdx_map, List.flatMap_map]
      exact List.flatMap_congr fun step _ => by simp [Step.block, label, hexample]
  rw [block, opening, hsteps, List.cons_append]

/-! ### Labels and phases -/

lemma isLabel_label (number : Nat) : (guideline.label number).IsLabel := by
  have hstop : Text.IsLabel ". " := by decide
  rw [label]
  split_ifs
  · exact hstop.front (Text.unbroken_ofNat number)
  · decide

variable {guideline}

lemma of_mem_steps {step : Step} (h : step ∈ guideline.steps) :
    (∃ number, step.label = guideline.label number) ∧ step.phase ∈ guideline.phases
      ∧ step.phase.block ≠ [] := by
  obtain ⟨⟨phase, number⟩, hmem, rfl⟩ := List.mem_map.mp h
  obtain ⟨hphase, hshown⟩ := List.mem_filter.mp (List.fst_mem_of_mem_zipIdx hmem)
  exact ⟨⟨number, rfl⟩, hphase, of_decide_eq_true hshown⟩

lemma isLabel_of_mem_steps {step : Step} (h : step ∈ guideline.steps) : step.label.IsLabel := by
  obtain ⟨⟨number, hlabel⟩, -⟩ := of_mem_steps h
  exact hlabel ▸ guideline.isLabel_label number

/-- What only phases with lines have is found in the steps, in the order of the phases. -/
lemma flatMap_steps {β : Type} {f : Phase → List β} (h : ∀ phase, phase.block = [] → f phase = []) :
    (guideline.steps.flatMap fun step => f step.phase) = guideline.phases.flatMap f := by
  have hshown : ∀ phase ∈ guideline.phases, decide (phase.block ≠ []) = false → f phase = [] :=
    fun phase _ hempty => h phase (not_not.mp (of_decide_eq_false hempty))
  rw [← Block.flatMap_filter hshown, ← Block.flatMap_zipIdx f 1, steps, List.flatMap_map]

end Directives.Guideline
