/-
The directive of a step.

The setters of a step come to a directive that has the parts of the step, each
text written on its own, and they leave the dangling references of those texts in
the order of the setters.

* `RuleStep.texts`, `GuidelineStep.texts`: the texts of a step in the order they
  are resolved.
* `RuleStep.rule`, `GuidelineStep.guideline`: the directive of a step.
* `RuleStep.written_calls`, `GuidelineStep.written_calls`: the setters of a step, written.
* `RuleStep.applyAll_calls`, `GuidelineStep.applyAll_calls`: what the setters of a
  step come to.
-/
import Directives.Definition.Program
import Directives.Proofs.Store.Setters

namespace Directives

/-! ### Setters one after another -/

section Setters

variable (write : Text → Text)

/-- Bodies add up in the order of their setters. -/
lemma Rule.foldl_set_text (bodies : List Text) (rule : Rule) :
    (bodies.map Rule.Call.text).foldl (set write) rule
      = { rule with body := (bodies.map write).foldl appendBody rule.body } := by
  induction bodies generalizing rule with
  | nil => rfl
  | cons body rest ih => exact ih (rule.set write (.text body))

/-- Lines of description add up in the order of their setters. -/
lemma Guideline.foldl_set_text (lines : List Text) (guideline : Guideline) :
    (lines.map Guideline.Call.text).foldl (set write) guideline
      = { guideline with description := guideline.description ++ lines.map write } := by
  induction lines generalizing guideline with
  | nil => simp
  | cons line rest ih =>
      rw [List.map_cons, List.foldl_cons, ih]
      simp [set]

/-- Phases add up in the order of their setters. -/
lemma Guideline.foldl_set_phase (phases : List Phase) (guideline : Guideline) :
    (phases.map Guideline.Call.phase).foldl (set write) guideline
      = { guideline with phases := guideline.phases ++ phases.map (·.map write) } := by
  induction phases generalizing guideline with
  | nil => simp
  | cons phase rest ih =>
      rw [List.map_cons, List.foldl_cons, ih]
      simp [set, withPhase]

end Setters

/-! ### The directive of a step -/

namespace RuleStep

/-- The texts of a rule in the order they are resolved. -/
def texts (r : RuleStep) : List Text := r.text.texts ++ r.why.toList ++ r.onViolation.toList

/-- The rule of a step, with each text written by `write`. -/
def rule (r : RuleStep) (write : Text → Text) : Rule where
  key := r.key
  severity := r.severity.getD .medium
  body := (r.text.texts.map write).foldl Rule.appendBody []
  rationale := r.why.map write
  violation := r.onViolation.map write

lemma written_calls (r : RuleStep) (write : Text → Text) :
    Rule.written write r.key r.calls = r.rule write := by
  obtain ⟨key, severity, text, why, onViolation⟩ := r
  simp only [Rule.written, calls, List.foldl_append, Rule.foldl_set_text]
  cases severity <;> cases why <;> cases onViolation <;> rfl

lemma flatMap_texts_calls (r : RuleStep) : r.calls.flatMap Rule.Call.texts = r.texts := by
  obtain ⟨key, severity, text, why, onViolation⟩ := r
  cases severity <;> cases why <;> cases onViolation <;>
    simp [calls, texts, Rule.Call.texts, List.flatMap_map]

/-- **The setters of a rule** come to the rule of the step, and leave the dangling
references of its texts in order. -/
theorem applyAll_calls (r : RuleStep) (s : Store) :
    Rule.applyAll { key := r.key } s r.calls
      = (r.rule s.resolved, s.addLints (r.texts.flatMap s.dangling)) := by
  rw [Rule.applyAll_eq, flatMap_texts_calls]
  exact congrArg (·, _) (r.written_calls s.resolved)

end RuleStep

namespace GuidelineStep

/-- The texts of a guideline in the order they are resolved. -/
def texts (g : GuidelineStep) : List Text :=
  g.goal.toList ++ g.text.texts ++ g.phases.flatMap (·.phase.payloads)

/-- The guideline of a step, with each text written by `write`. -/
def guideline (g : GuidelineStep) (write : Text → Text) : Guideline where
  key := g.key
  goal := g.goal.map write
  isExample := g.isExample
  description := g.text.texts.map write
  phases := g.phases.map fun entry => entry.phase.map write

lemma written_calls (g : GuidelineStep) (write : Text → Text) :
    Guideline.written write g.key g.calls = g.guideline write := by
  obtain ⟨key, goal, isExample, text, phases⟩ := g
  have hphases : phases.map (fun entry => Guideline.Call.phase entry.phase)
      = (phases.map Entry.phase).map .phase := List.map_map.symm
  simp only [Guideline.written, calls, List.foldl_append, hphases, Guideline.foldl_set_text,
    Guideline.foldl_set_phase]
  cases goal <;> cases isExample <;> simp [Guideline.set, guideline]

lemma flatMap_texts_calls (g : GuidelineStep) :
    g.calls.flatMap Guideline.Call.texts = g.texts := by
  obtain ⟨key, goal, isExample, text, phases⟩ := g
  cases goal <;> cases isExample <;>
    simp [calls, texts, Guideline.Call.texts, List.flatMap_map]

/-- **The setters of a guideline** come to the guideline of the step, and leave the
dangling references of its texts in order. -/
theorem applyAll_calls (g : GuidelineStep) (s : Store) :
    Guideline.applyAll { key := g.key } s g.calls
      = (g.guideline s.resolved, s.addLints (g.texts.flatMap s.dangling)) := by
  rw [Guideline.applyAll_eq, flatMap_texts_calls]
  exact congrArg (·, _) (g.written_calls s.resolved)

end GuidelineStep

end Directives
