/-
How runs over a whole definition end.

Rendering and linting come to their verdicts on different ways: one from what became
of each command, the other from all diagnostics at once. Both are the verdict of the
definition, which depends on the diagnostics of its commands alone.

* `Definition.reports`: some command has a diagnostic of a kind.
* `Definition.exitCode`: the verdict of a definition as an exit code.
* `RenderTask.exitCode_conclude`, `LintTask.exitCode_conclude`: the two verdicts.
* `exitCode_render_lint`: the exit codes of runs, and that no command is passed over.
-/
import Directives.Proofs.Definition.Compile
import Directives.Proofs.Session.Lint
import Directives.Proofs.Session.Render

namespace Directives

/-! ### The verdict of a definition -/

namespace Definition

/-- Some command has a diagnostic of a kind. -/
def reports (d : Definition) (policy : CollisionPolicy) (kind : Diagnostic → Bool) : Bool :=
  d.commands.any fun c => (d.draft c.1 c.2 policy).diagnostics.any kind

/-- The exit code of a run over all commands: two if there is an error, else three if
the config forbids dangling references and there is one, else zero. -/
def exitCode (d : Definition) (config : Config) : Nat :=
  if d.reports config.policy Diagnostic.isError then 2
  else if config.failOnUnresolved && d.reports config.policy (·.finding.isUnresolved) then 3
  else 0

end Definition

/-- The warnings about dangling references are no errors. -/
lemma Draft.any_isError_diagnostics (d : Draft) :
    d.diagnostics.any Diagnostic.isError = d.hasErrors := by
  have hlints : (d.store.lints.map lintWarning).any Diagnostic.isError = false := by
    simp [lintWarning, Diagnostic.isError]
  rw [diagnostics, List.any_append, hlints, Bool.or_false, hasErrors]

/-- What becomes of a command is decided by its diagnostics. -/
lemma Definition.outcome_eq (d : Definition) (policy : CollisionPolicy) (c : Text × Command) :
    d.outcome policy c
      = if (d.draft c.1 c.2 policy).diagnostics.any Diagnostic.isError then .failed
        else if (d.draft c.1 c.2 policy).diagnostics.any (·.finding.isUnresolved) then .unresolved
        else .clean := by
  have hcount : ∀ diagnostics : List Diagnostic,
      diagnostics.countP (·.finding.isUnresolved) = 0
        ↔ diagnostics.any (·.finding.isUnresolved) = false := by
    simp [List.countP_eq_zero]
  rw [Draft.any_isError_diagnostics, outcome]
  cases herrors : (d.draft c.1 c.2 policy).hasErrors with
  | true => simp only [Draft.compile, herrors, if_true]
  | false =>
      simp only [Draft.compile, herrors, Bool.false_eq_true, if_false, Document.unresolvedCount,
        hcount]
      cases (d.draft c.1 c.2 policy).diagnostics.any (·.finding.isUnresolved) <;> rfl

/-! ### The two verdicts -/

namespace RenderTask

variable {d : Definition} {policy : CollisionPolicy}

/-- Some command has an outcome when it is among those with the outcome. -/
lemma isEmpty_withOutcome (outcome : Outcome) (commands : List (Text × Command)) :
    (withOutcome outcome (commands.map fun c => (c.1, d.outcome policy c))).isEmpty
      = !commands.any fun c => d.outcome policy c == outcome := by
  induction commands with
  | nil => rfl
  | cons c rest ih =>
      cases h : d.outcome policy c == outcome with
      | true => simp [withOutcome, h]
      | false => simpa [withOutcome, h] using ih

lemma any_failed : (d.commands.any fun c => d.outcome policy c == .failed)
    = d.reports policy Diagnostic.isError := by
  unfold Definition.reports
  congr 1
  funext c
  rw [d.outcome_eq]
  cases (d.draft c.1 c.2 policy).diagnostics.any Diagnostic.isError with
  | true => rfl
  | false => cases (d.draft c.1 c.2 policy).diagnostics.any (·.finding.isUnresolved) <;> rfl

/-- Among commands without errors those with dangling references are unresolved. -/
lemma any_unresolved (clean : d.reports policy Diagnostic.isError = false) :
    (d.commands.any fun c => d.outcome policy c == .unresolved)
      = d.reports policy (·.finding.isUnresolved) := by
  -- Not as for errors: only a command without errors is unresolved by its references.
  rw [Bool.eq_iff_iff, Definition.reports, List.any_eq_true, List.any_eq_true]
  refine exists_congr fun c => and_congr_right fun hc => ?_
  have hclean := List.any_eq_false.mp clean c hc
  rw [d.outcome_eq, if_neg hclean]
  cases (d.draft c.1 c.2 policy).diagnostics.any (·.finding.isUnresolved) <;> simp

/-- The verdict of rendering is that of the definition. -/
theorem exitCode_conclude (d : Definition) (config : Config) (world : World) :
    (Session.ending (conclude config
      (d.commands.map fun c => (c.1, d.outcome config.policy c)), world)).exitCode
      = d.exitCode config := by
  simp only [conclude, isEmpty_withOutcome, any_failed, Bool.not_not, Definition.exitCode]
  cases herrors : d.reports config.policy Diagnostic.isError with
  | true => rfl
  | false =>
      rw [any_unresolved herrors]
      cases config.failOnUnresolved && d.reports config.policy (·.finding.isUnresolved) <;> rfl

end RenderTask

namespace LintTask

/-- There are diagnostics of a kind in the reports of all commands when the definition
reports some. -/
lemma count_report (d : Definition) (setting : Setting) (file : Path) (kind : Diagnostic → Bool) :
    0 < count kind (d.commands.map (report setting file d))
      ↔ d.reports setting.config.policy kind = true := by
  rw [count, List.countP_pos_iff, Definition.reports, List.any_eq_true, List.flatMap_map]
  constructor
  · rintro ⟨g, hg, hkind⟩
    obtain ⟨c, hc, hreport⟩ := List.mem_flatMap.mp hg
    exact ⟨c, hc, List.any_eq_true.mpr ⟨g, hreport, hkind⟩⟩
  · rintro ⟨c, hc, hany⟩
    obtain ⟨g, hreport, hkind⟩ := List.any_eq_true.mp hany
    exact ⟨g, List.mem_flatMap.mpr ⟨c, hc, hreport⟩, hkind⟩

/-- The verdict of linting is that of the definition. -/
theorem exitCode_conclude (d : Definition) (setting : Setting) (file : Path) (world : World) :
    (Session.ending
      (conclude setting.config (d.commands.map (report setting file d)), world)).exitCode
      = d.exitCode setting.config := by
  simp only [conclude, errorCount, unresolvedCount, count_report, Definition.exitCode,
    Bool.decide_eq_true]
  cases d.reports setting.config.policy Diagnostic.isError with
  | true => rfl
  | false =>
      cases setting.config.failOnUnresolved
        && d.reports setting.config.policy (·.finding.isUnresolved) <;> rfl

end LintTask

/-- **Rendering and linting agree.** A run that renders all commands of a file, and one
that lints the file, end with the same exit code unless the file system fails them: two
if some command has an error, else three if the config forbids dangling references and
some command has one, else zero. Both go through all commands, those after a command
with errors among them: rendering complains about each command and delivers each one
that compiles, and linting reports each. -/
theorem exitCode_render_lint {setting : Setting} {d : Definition} {render : RenderTask}
    {lint : LintTask} (whole : render.command = none) (alone : lint.files = [render.file])
    {tree tree' : FileTree} (loads : Definition.load tree (setting.path render.file) = .ok d)
    (loads' : Definition.load tree' (setting.path render.file) = .ok d)
    (undisturbed : ((render.run setting).finish tree).Undisturbed)
    (undisturbed' : ((lint.run setting).finish tree').Undisturbed) :
    let rendered := (render.run setting).finish tree
    let linted := (lint.run setting).finish tree'
    rendered.exitCode = d.exitCode setting.config ∧ linted.exitCode = d.exitCode setting.config
      ∧ rendered.world.warnings = d.commands.flatMap (RenderTask.complaint setting d)
      ∧ (d.commands ≠ [] →
          rendered.world.output = d.commands.flatMap (render.delivery setting d))
      ∧ linted.world.output
          = lint.text (d.commands.map (LintTask.report setting render.file d)) := by
  intro rendered linted
  have asked : render.commands d = .ok d.commands := by
    rw [RenderTask.commands, whole]
  obtain ⟨world, hrendered, hwarnings, houtput, -⟩ :=
    RenderTask.run_ensures loads asked undisturbed
  have hloaded : LintTask.Loads setting { tree := tree' } lint.files [(render.file, d)] := by
    rw [alone]
    exact LintTask.loads_singleton loads'
  obtain ⟨world', hlinted, houtput', -⟩ := LintTask.run_ensures hloaded undisturbed'
  rw [LintTask.reports_singleton] at hlinted houtput'
  have hworld : rendered.world = world := by
    rw [show rendered = _ from hrendered, Session.ending_world]
  have hworld' : linted.world = world' := by
    rw [show linted = _ from hlinted, Session.ending_world]
  refine ⟨?_, ?_, ?_, ?_, ?_⟩
  · rw [show rendered = _ from hrendered, RenderTask.exitCode_conclude]
  · rw [show linted = _ from hlinted, LintTask.exitCode_conclude]
  · rw [hworld, hwarnings]
  · rw [hworld]
    exact houtput
  · rw [hworld', houtput']

/-- In the example both runs end with exit code two, for a command with an error among
others without. -/
theorem exitCode_render_lint_alike :
    let rendered := (RenderTask.alike.run RenderTask.alikeSetting).finish alikeTree
    let linted := (LintTask.run { files := ["f"] } RenderTask.alikeSetting).finish alikeTree
    rendered.Undisturbed ∧ linted.Undisturbed ∧ rendered.exitCode = 2 ∧ linted.exitCode = 2 := by
  obtain ⟨-, -, -, undisturbed, -⟩ := RenderTask.finish_alike
  have loads : Definition.load alikeTree (RenderTask.alikeSetting.path "f") = .ok .alike :=
    Definition.load_alike
  have undisturbed' :
      ((LintTask.run { files := ["f"] } RenderTask.alikeSetting).finish alikeTree).Undisturbed := by
    have hlog : RenderTask.alikeSetting.config.eventsLog = none := rfl
    simp only [LintTask.run, LintTask.lintFiles, LintTask.lintCommands, Session.finish_eq,
      Session.exec_bind, Session.exec_tree, Session.exec_ofExcept, loads,
      Definition.alike_commands, Session.logEvent, Session.exec_now, hlog, Session.exec_pure,
      Session.exec_print]
    exact LintTask.undisturbed_conclude _ _ _
  have hcode : Definition.alike.exitCode RenderTask.alikeSetting.config = 2 := by cbv
  obtain ⟨hrender, hlint, -⟩ :=
    exitCode_render_lint rfl rfl loads loads undisturbed undisturbed'
  exact ⟨undisturbed, undisturbed', hrender.trans hcode, hlint.trans hcode⟩

end Directives
