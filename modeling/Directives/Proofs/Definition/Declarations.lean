/-
What the declarations of a command have an effect on.

References look up whether a name is declared, and nothing else of a declaration. So one more
declaration changes the references to its name alone: those that would dangle yield the token
and leave no lint. Descriptions, spellings, and the order and number of the declarations of a
command never reach its directives, its diagnostics or its document.

* `Step.Alike`: steps that differ in the description of a declaration at most.
* `Command.names`: the names that a command declares before its steps.
* `Definition.draft_widens`: commands that go alike but for some names.
* `Definition.draft_declared`: one more declaration.
* `Definition.draft_alike`: declarations of the same names.
-/
import Directives.Proofs.Definition.Unresolved
import Directives.Proofs.Draft.Widen

namespace Directives

/-! ### Declarations -/

/-- The declaration as a call. -/
def Declaration.call (declaration : Declaration) : Call :=
  .declare declaration.name declaration.description

/-- The names that a command declares before its steps. -/
def Command.names (command : Command) : List Text :=
  command.store.map fun declaration => Name.normalize declaration.name

namespace Draft

/-- Declarations make a draft wider by their names. -/
lemma widens_declarations (declarations : List Declaration) {d : Draft}
    (bare : d.store.lints = []) :
    d.Widens (declarations.map fun declaration => Name.normalize declaration.name)
      (d.runAll (declarations.map Declaration.call)) := by
  induction declarations generalizing d with
  | nil => exact .refl d
  | cons first rest ih =>
      exact (Widens.of_declare bare first.name first.description).trans (ih bare)

/-- One more declaration makes a draft wider by its name, wherever it stands. -/
lemma widens_declared (before after : List Declaration) (entry : Declaration) {d : Draft}
    (bare : d.store.lints = []) :
    (d.runAll ((before ++ after).map Declaration.call)).Widens [Name.normalize entry.name]
      (d.runAll ((before ++ entry :: after).map Declaration.call)) := by
  have hbefore : (d.runAll (before.map Declaration.call)).store.lints = [] := by
    rw [(widens_declarations before bare).store.lints, bare, List.filter_nil]
  have hentry := Widens.of_declare hbefore entry.name entry.description
  rw [List.map_append, List.map_append, runAll_append, runAll_append]
  exact hentry.runAll (Call.alike_refl (after.map Declaration.call))

/-- What is registered at the points of a run is registered behind its declarations. -/
lemma filterMap_moments_declarations {α : Type} {item? : Moment → Option α}
    (h : ∀ around d name description, item? ⟨around, d, some (.declare name description)⟩ = none)
    (declarations : List Declaration) (calls : List Call) (around : List Text) (d : Draft) :
    (d.moments around (declarations.map Declaration.call ++ calls)).filterMap item?
      = ((d.runAll (declarations.map Declaration.call)).moments around calls).filterMap item? := by
  induction declarations generalizing d with
  | nil => rfl
  | cons first rest ih =>
      rw [List.map_cons, List.cons_append, Declaration.call, moments_atom rfl,
        List.filterMap_cons_none (h around d first.name first.description), ih]
      rfl

end Draft

/-! ### Steps that are alike -/

/-- Steps that differ in the description of a declaration at most. -/
inductive Step.Alike : Step → Step → Prop
  | declare (name description other : Text) :
      Alike (.declare name description) (.declare name other)
  | same (step : Step) : Alike step step

namespace Definition

/-- Steps that are alike have programs that are alike. -/
lemma program_alike (d : Definition) {steps others : List Step}
    (alike : List.Forall₂ Step.Alike steps others) (opened : List Text) :
    List.Forall₂ Call.Alike (d.program opened steps) (d.program opened others) := by
  rw [program_eq_map, program_eq_map, List.forall₂_map_left_iff, List.forall₂_map_right_iff]
  refine alike.imp fun step other hstep => ?_
  cases hstep with
  | declare name description other => exact .declare name description other
  | same => exact .same _

/-- **Commands that go alike but for some names**: where the declarations of the one make a
draft wider than those of the other, so does the whole command, and its directives are written
with tokens for the markers of the extra names. -/
theorem draft_widens (d : Definition) (name : Text) (policy : CollisionPolicy)
    (command other : Command) {extra : List Text}
    (declared : Draft.Widens extra
      (Draft.runAll { name, policy } (command.store.map Declaration.call))
      (Draft.runAll { name, policy } (other.store.map Declaration.call)))
    (alike : List.Forall₂ Step.Alike command.steps other.steps) :
    let start : Draft := { name, policy }
    let points := start.moments [] (command.program d)
    let wide := d.draft name other policy
    (d.draft name command policy).Widens extra wide
      ∧ wide.rules.items
        = Registry.latest (points.filterMap (Draft.Moment.rule? (Store.freed extra)))
      ∧ wide.guidelines.items
        = Registry.latest (points.filterMap (Draft.Moment.guideline? (Store.freed extra))) := by
  intro start points wide
  have hcalls := d.program_alike alike []
  have hpoints := declared.moments hcalls []
  obtain ⟨hrules, hguidelines⟩ := Draft.registered_runAll name policy (other.program d)
  -- nothing is registered where the declarations are made
  have hbehind : ∀ {α : Type} {item? : Draft.Moment → Option α} (command : Command),
      (∀ around e n description, item? ⟨around, e, some (.declare n description)⟩ = none) →
      (start.moments [] (command.program d)).filterMap item?
        = ((start.runAll (command.store.map Declaration.call)).moments []
            (d.program [] command.steps)).filterMap item? :=
    fun command h => Draft.filterMap_moments_declarations h command.store _ [] start
  refine ⟨?_, hrules.trans (congrArg Registry.latest ?_),
    hguidelines.trans (congrArg Registry.latest ?_)⟩
  · have hwidens := declared.runAll hcalls
    rw [← Draft.runAll_append, ← Draft.runAll_append] at hwidens
    exact hwidens
  · rw [hbehind other fun _ _ _ _ => rfl, hbehind command fun _ _ _ _ => rfl]
    exact Draft.filterMap_moments hpoints Draft.Moment.Widens.rule?
  · rw [hbehind other fun _ _ _ _ => rfl, hbehind command fun _ _ _ _ => rfl]
    exact Draft.filterMap_moments hpoints Draft.Moment.Widens.guideline?

/-- **One more declaration.** Let a command declare one more name, anywhere among its
declarations. It registers the same directives in the same order, with the same severities and
with phases of the same outlines, and it opens the same libraries. It records the same
diagnostics, so there is no error that was not there before. Its dangling references are those
it had that are not to the name, and so are its warnings about them. A registration at a point
of the run writes its texts as before, but for the references to the name that dangled there:
these yield the token. -/
theorem draft_declared (d : Definition) (name : Text) (policy : CollisionPolicy)
    (before after : List Declaration) (entry : Declaration) (steps : List Step) :
    let n := Name.normalize entry.name
    let command : Command := { store := before ++ after, steps }
    let less := d.draft name command policy
    let more := d.draft name { store := before ++ entry :: after, steps } policy
    let points := Draft.moments [] { name, policy } (command.program d)
    (more.rules.items.map Rule.outline = less.rules.items.map Rule.outline
        ∧ more.guidelines.items.map Guideline.outline
          = less.guidelines.items.map Guideline.outline)
      ∧ more.composed = less.composed
      ∧ (more.recorded = less.recorded ∧ more.hasErrors = less.hasErrors)
      ∧ more.store.lints = less.store.lints.filter (·.name ≠ n)
      ∧ more.diagnostics = less.diagnostics.filter (·.finding ≠ .unresolvedReference n)
      ∧ (less.rules.items = Registry.latest (points.filterMap (Draft.Moment.rule? Store.resolved))
        ∧ more.rules.items
          = Registry.latest (points.filterMap (Draft.Moment.rule? (Store.freed [n]))))
      ∧ less.guidelines.items
          = Registry.latest (points.filterMap (Draft.Moment.guideline? Store.resolved))
        ∧ more.guidelines.items
          = Registry.latest (points.filterMap (Draft.Moment.guideline? (Store.freed [n]))) := by
  intro n command less more points
  obtain ⟨widens, hrules, hguidelines⟩ : less.Widens [n] more ∧ more.rules.items = _
      ∧ more.guidelines.items = _ :=
    d.draft_widens name policy command { store := before ++ entry :: after, steps }
      (Draft.widens_declared before after entry rfl)
      (List.forall₂_same.mpr fun step _ => .same step)
  obtain ⟨hrules', hguidelines'⟩ : less.rules.items = _ ∧ less.guidelines.items = _ :=
    Draft.registered_runAll name policy (command.program d)
  refine ⟨⟨?_, ?_⟩, widens.composed, ⟨widens.recorded, widens.hasErrors⟩,
    widens.lints_of_singleton, widens.diagnostics_of_singleton isUnresolved_recorded,
    ⟨hrules', hrules⟩, hguidelines', hguidelines⟩
  · rw [hrules', hrules]
    exact Draft.Moment.map_outline_latest_rule? _ _ points
  · rw [hguidelines', hguidelines]
    exact Draft.Moment.map_outline_latest_guideline? _ _ points

/-- **Declarations of the same names.** Let two commands have the same steps, the descriptions
of declarations apart, and let the names that they declare before their steps be the same,
however they are spelled, ordered, repeated and described. The directives of the two are equal,
and so are their dangling references, their diagnostics, the libraries they open and their
documents. -/
theorem draft_alike (d : Definition) (name : Text) (policy : CollisionPolicy)
    {command other : Command} (steps : List.Forall₂ Step.Alike command.steps other.steps)
    (names : ∀ n, n ∈ command.names ↔ n ∈ other.names) :
    let one := d.draft name command policy
    let two := d.draft name other policy
    (two.rules = one.rules ∧ two.guidelines = one.guidelines)
      ∧ two.store.lints = one.store.lints
      ∧ (two.recorded = one.recorded ∧ two.diagnostics = one.diagnostics)
      ∧ two.composed = one.composed
      ∧ two.document = one.document := by
  intro one two
  let start : Draft := { name, policy }
  have declared : Draft.Widens [] (start.runAll (command.store.map Declaration.call))
      (start.runAll (other.store.map Declaration.call)) :=
    (Draft.widens_declarations command.store (d := start) rfl).join
      (Draft.widens_declarations other.store (d := start) rfl) names
  obtain ⟨widens, hrules, hguidelines⟩ : one.Widens [] two ∧ two.rules.items = _
      ∧ two.guidelines.items = _ :=
    d.draft_widens name policy command other declared steps
  obtain ⟨hrules', hguidelines'⟩ : one.rules.items = _ ∧ one.guidelines.items = _ :=
    Draft.registered_runAll name policy (command.program d)
  -- nothing is freed of its mark where there are no extra names
  rw [funext Store.freed_nil] at hrules hguidelines
  have hrulesEq : two.rules = one.rules :=
    congrArg Registry.mk (hrules.trans hrules'.symm)
  have hguidelinesEq : two.guidelines = one.guidelines :=
    congrArg Registry.mk (hguidelines.trans hguidelines'.symm)
  have hlints : two.store.lints = one.store.lints := by
    rw [widens.store.lints]
    exact List.filter_eq_self.mpr fun lint _ => by simp
  refine ⟨⟨hrulesEq, hguidelinesEq⟩, hlints, ⟨widens.recorded, ?_⟩, widens.composed, ?_⟩
  · rw [Draft.diagnostics, Draft.diagnostics, widens.recorded, hlints]
  · rw [Draft.document, Draft.document, hrulesEq, hguidelinesEq]

/-- The command of the example with more declarations. -/
def declaringTask : Command where
  store := [{ name := "TASK", description := "What to check." }, { name := "OWNER" }]
  steps := .declare "STAGE" "Where it runs." :: layeredTask.steps

/-- The same names in another order and other spellings, one of them twice. -/
def respelledTask : Command where
  store := [{ name := "\x7b$OWNER\x7d", description := "Who asks." }, { name := "$TASK" },
    { name := "OWNER", description := "Who decides." }]
  steps := .declare "STAGE" "" :: layeredTask.steps

/-- The two spellings of the example come to one document. -/
theorem respelledTask_draft :
    List.Forall₂ Step.Alike declaringTask.steps respelledTask.steps
      ∧ (∀ n, n ∈ declaringTask.names ↔ n ∈ respelledTask.names)
      ∧ (layered.draft "task:validate" respelledTask .error).rules
        = (layered.draft "task:validate" declaringTask .error).rules
      ∧ (layered.draft "task:validate" respelledTask .error).document
        = (layered.draft "task:validate" declaringTask .error).document := by
  have hsteps : List.Forall₂ Step.Alike declaringTask.steps respelledTask.steps :=
    .cons (.declare _ _ _) (List.forall₂_same.mpr fun step _ => .same step)
  have hnames : ∀ n, n ∈ declaringTask.names ↔ n ∈ respelledTask.names := by
    have hfirst : declaringTask.names = [("TASK" : Text), "OWNER"] := by decide
    have hsecond : respelledTask.names = [("OWNER" : Text), "TASK", "OWNER"] := by decide
    intro n
    simp only [hfirst, hsecond, List.mem_cons, List.not_mem_nil]
    tauto
  obtain ⟨⟨hrules, -⟩, -, -, -, hdocument⟩ :=
    layered.draft_alike "task:validate" .error hsteps hnames
  exact ⟨hsteps, hnames, hrules, hdocument⟩

end Definition

end Directives
