/-
The directives that a run leaves.

Each registration writes its texts with the store as it is at that point of the run. The
registries hold the last directive of each key, so they can be read off the points. Which of
the directives are left, with which severities and with phases of which outlines, depends on
the calls and not on how the texts are written.

* `Rule.outline`, `Guideline.outline`: a directive without its texts.
* `Draft.Moment.rule?`, `Draft.Moment.guideline?`: the directive registered next, as it is
  written by some function.
* `Draft.Inserts`: a registry that directives are put into at the points of a run.
* `Draft.inserts_rules`, `Draft.inserts_guidelines`: the registries of a draft.
* `Draft.registered_runAll`: what a run leaves in the registries.
-/
import Directives.Proofs.Draft.Moment
import Directives.Proofs.Phase.Outline
import Directives.Proofs.Registry

namespace Directives

/-! ### Outlines -/

namespace Rule

/-- A rule without its texts. -/
def outline (rule : Rule) : Text × Severity := (rule.key, rule.severity)

/-- What setters come to has an outline that is the same however the texts are written. -/
lemma outline_foldl_set (write write' : Text → Text) (setters : List Call) {rule other : Rule}
    (h : rule.outline = other.outline) :
    (setters.foldl (set write) rule).outline = (setters.foldl (set write') other).outline := by
  induction setters generalizing rule other with
  | nil => exact h
  | cons call rest ih =>
      refine ih ?_
      cases call with
      | severity severity => exact congrArg (·.1, severity) h
      | text body => exact h
      | why rationale => exact h
      | onViolation text => exact h

lemma outline_written (write write' : Text → Text) (key : Text) (setters : List Call) :
    (written write key setters).outline = (written write' key setters).outline :=
  outline_foldl_set write write' setters rfl

end Rule

namespace Guideline

/-- A guideline without its texts: the key, whether it is an example, and the outlines of the
phases. -/
def outline (guideline : Guideline) : Text × Bool × List Outline :=
  (guideline.key, guideline.isExample, guideline.phases.map Phase.outline)

lemma outline_withPhase {guideline other : Guideline} (h : guideline.outline = other.outline)
    (write write' : Text → Text) (phase : Phase) :
    (guideline.withPhase (phase.map write)).outline
      = (other.withPhase (phase.map write')).outline := by
  obtain ⟨hkey, hexample, hphases⟩ : guideline.key = other.key
      ∧ guideline.isExample = other.isExample
      ∧ guideline.phases.map Phase.outline = other.phases.map Phase.outline := by
    simpa only [outline, Prod.mk.injEq] using h
  simp only [outline, withPhase, List.map_append, List.map_singleton, Phase.outline_map, hkey,
    hexample, hphases]

/-- What setters come to has an outline that is the same however the texts are written. -/
lemma outline_foldl_set (write write' : Text → Text) (setters : List Call)
    {guideline other : Guideline} (h : guideline.outline = other.outline) :
    (setters.foldl (set write) guideline).outline
      = (setters.foldl (set write') other).outline := by
  induction setters generalizing guideline other with
  | nil => exact h
  | cons call rest ih =>
      refine ih ?_
      cases call with
      | goal goal => exact h
      | asExample => exact congrArg (fun o => (o.1, true, o.2.2)) h
      | phase content => exact outline_withPhase h write write' content
      | steps items => exact outline_withPhase h write write' (.sequence items)
      | scenario text => exact outline_withPhase h write write' (scenario text)
      | text line => exact h

lemma outline_written (write write' : Text → Text) (key : Text) (setters : List Call) :
    (written write key setters).outline = (written write' key setters).outline :=
  outline_foldl_set write write' setters rfl

end Guideline

namespace Draft

/-! ### Registrations at the points of a run -/

namespace Moment

/-- The rule registered next, with each text written by `write` in the store as it is. -/
def rule? (write : Store → Text → Text) (m : Moment) : Option Rule :=
  match m.next with
  | some (.rule key setters) => some (Rule.written (write m.draft.store) key setters)
  | _ => none

/-- The guideline registered next, with each text written by `write` in the store as it
is. -/
def guideline? (write : Store → Text → Text) (m : Moment) : Option Guideline :=
  match m.next with
  | some (.guideline key setters) =>
      some (Guideline.written (write m.draft.store) key setters)
  | _ => none

lemma outline_rule? (write write' : Store → Text → Text) (m : Moment) :
    (m.rule? write).map Rule.outline = (m.rule? write').map Rule.outline := by
  obtain ⟨around, d, next⟩ := m
  match next with
  | some (.rule key setters) => exact congrArg some (Rule.outline_written _ _ key setters)
  | none | some (.declare _ _) | some (.reference _) | some (.guideline _ _)
  | some (.record _ _) | some (.compose _ _) => rfl

lemma outline_guideline? (write write' : Store → Text → Text) (m : Moment) :
    (m.guideline? write).map Guideline.outline = (m.guideline? write').map Guideline.outline := by
  obtain ⟨around, d, next⟩ := m
  match next with
  | some (.guideline key setters) =>
      exact congrArg some (Guideline.outline_written _ _ key setters)
  | none | some (.declare _ _) | some (.reference _) | some (.rule _ _)
  | some (.record _ _) | some (.compose _ _) => rfl

/-- The rules that are left have outlines that are the same however the texts are written. -/
theorem map_outline_latest_rule? (write write' : Store → Text → Text) (points : List Moment) :
    (Registry.latest (points.filterMap (rule? write))).map Rule.outline
      = (Registry.latest (points.filterMap (rule? write'))).map Rule.outline := by
  have hkey : ∀ rule : Rule, rule.outline.1 = Keyed.key rule := fun _ => rfl
  refine Registry.map_latest_congr hkey ?_
  rw [List.map_filterMap, List.map_filterMap]
  exact List.filterMap_congr fun m _ => outline_rule? write write' m

/-- The guidelines that are left have outlines that are the same however the texts are
written. -/
theorem map_outline_latest_guideline? (write write' : Store → Text → Text)
    (points : List Moment) :
    (Registry.latest (points.filterMap (guideline? write))).map Guideline.outline
      = (Registry.latest (points.filterMap (guideline? write'))).map Guideline.outline := by
  have hkey : ∀ guideline : Guideline, guideline.outline.1 = Keyed.key guideline := fun _ => rfl
  refine Registry.map_latest_congr hkey ?_
  rw [List.map_filterMap, List.map_filterMap]
  exact List.filterMap_congr fun m _ => outline_guideline? write write' m

end Moment

/-- At the next point the registry has the item of the point as well, and a closed library
leaves it as it is. -/
structure Inserts {α : Type} [Keyed α] (kept : Draft → Registry α)
    (item? : Moment → Option α) : Prop where
  after : ∀ m : Moment, kept m.after = (kept m.draft).insertAll (item? m).toList
  leave : ∀ d : Draft, kept d.leave = kept d

/-- **A registry after a run** is what the items of the points make of it, in order. -/
theorem Inserts.runAll {α : Type} [Keyed α] {kept : Draft → Registry α}
    {item? : Moment → Option α} (h : Inserts kept item?) (calls : List Call)
    (around : List Text) (d : Draft) :
    kept (d.runAll calls) = (kept d).insertAll ((d.moments around calls).filterMap item?) := by
  have hcons : ∀ (m : Moment) (points : List Moment),
      (m :: points).filterMap item? = (item? m).toList ++ points.filterMap item? := by
    intro m points
    rw [List.filterMap_cons]
    cases item? m <;> rfl
  induction calls using Call.compose_induction generalizing around d with
  | nil =>
      have hend := h.after ⟨around, d, none⟩
      rw [moments_nil, hcons, List.filterMap_nil, List.append_nil, ← hend]
      rfl
  | atom call rest hopens ih =>
      have hcall := h.after ⟨around, d, some call⟩
      rw [Moment.after_atom hopens] at hcall
      rw [moments_atom hopens, hcons, Registry.insertAll_append, ← hcall]
      exact ih around (d.run call)
  | compose library body rest ihBody ih =>
      have hcall := h.after ⟨around, d, some (.compose library body)⟩
      have hbody := ihBody (around ++ [library]) (d.enter library)
      have hrun : kept (d.run (.compose library body)) = kept ((d.enter library).runAll body) :=
        h.leave _
      rw [moments_compose, hcons, List.filterMap_append, Registry.insertAll_append,
        Registry.insertAll_append, ← hcall]
      show _ = ((kept (d.enter library)).insertAll _).insertAll _
      rw [← hbody, ← hrun]
      exact ih around (d.run (.compose library body))

lemma inserts_rules : Inserts Draft.rules (Moment.rule? Store.resolved) where
  after m := by
    obtain ⟨around, d, next⟩ := m
    cases next with
    | none => rfl
    | some call =>
        cases call with
        | rule key setters =>
            show (d.addRule key setters).rules = _
            rw [addRule_eq, Rule.applyAll_eq]
            rfl
        | guideline key setters =>
            show (d.addGuideline key setters).rules = _
            rw [addGuideline_eq, collide_eq]
            rfl
        | _ => rfl
  leave _ := rfl

lemma inserts_guidelines : Inserts Draft.guidelines (Moment.guideline? Store.resolved) where
  after m := by
    obtain ⟨around, d, next⟩ := m
    cases next with
    | none => rfl
    | some call =>
        cases call with
        | rule key setters =>
            show (d.addRule key setters).guidelines = _
            rw [addRule_eq, collide_eq]
            rfl
        | guideline key setters =>
            show (d.addGuideline key setters).guidelines = _
            rw [addGuideline_eq, Guideline.applyAll_eq]
            rfl
        | _ => rfl
  leave _ := rfl

/-- **The directives that a run leaves** are the last ones of their keys among those that are
registered at its points, each in its place. -/
theorem registered_runAll (name : Text) (policy : CollisionPolicy) (calls : List Call) :
    let start : Draft := { name, policy }
    let points := start.moments [] calls
    let final := start.runAll calls
    final.rules.items = Registry.latest (points.filterMap (Moment.rule? Store.resolved))
      ∧ final.guidelines.items
        = Registry.latest (points.filterMap (Moment.guideline? Store.resolved)) := by
  intro start points final
  have hrules := inserts_rules.runAll calls [] start
  have hguidelines := inserts_guidelines.runAll calls [] start
  constructor
  · rw [hrules]
    exact Registry.items_insertAll _
  · rw [hguidelines]
    exact Registry.items_insertAll _

end Draft

end Directives
