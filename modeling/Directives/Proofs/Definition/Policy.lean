/-
What the collision policy decides.

A policy is asked for nothing but the level of a collision. A draft built under
any policy is the one built under the policy of errors, with the diagnostics of
its collisions at the level of the policy, or without them.

* `Diagnostic.under`, `Draft.under`: a strict diagnostic, and a strict draft,
  under another policy.
* `Draft.runAll_under`: a program that records no collision by hand does the same
  under every policy.
* `Definition.draft_under`: the drafts of a command.
* `draft_policies`: what three drafts of a command share, and how their
  diagnostics differ.
-/
import Directives.Proofs.Definition.Replay
import Directives.Proofs.Draft.Collision
import Directives.Document.Basic

namespace Directives

/-! ### A strict draft under another policy -/

/-- The diagnostic under the policy, where it was recorded under the policy of
errors: a collision is recorded at the level of the policy, if at all. -/
def Diagnostic.under (policy : CollisionPolicy) (g : Diagnostic) : Option Diagnostic :=
  if g.finding.isCollision then policy.level?.map ({ g with level := · }) else some g

namespace Draft

/-- The draft under the policy, where it was built under the policy of errors. -/
def under (policy : CollisionPolicy) (d : Draft) : Draft :=
  { d with policy, recorded := d.recorded.filterMap (Diagnostic.under policy) }

variable {policy : CollisionPolicy} {d : Draft}

lemma under_record {finding : Finding} (h : finding.isCollision = false) (level : Level) :
    (d.under policy).record level finding = (d.record level finding).under policy := by
  simp [record, under, Diagnostic.under, h]

/-- A collision is recorded at the level of the policy, if at all. -/
lemma under_collide (strict : d.policy = .error) {finding : Finding}
    (h : finding.isCollision = true) (taken : Bool) :
    (d.under policy).collide taken finding = (d.collide taken finding).under policy := by
  cases taken with
  | false => rfl
  | true =>
      cases policy <;>
        simp [collide, under, record, strict, CollisionPolicy.level?, Diagnostic.under, h]

lemma under_addRule (strict : d.policy = .error) (key : Text) (setters : List Rule.Call) :
    (d.under policy).addRule key setters = (d.addRule key setters).under policy := by
  have hcollide : (d.under policy).collide (d.rules.contains key) (.ruleCollision key)
      = (d.collide (d.rules.contains key) (.ruleCollision key)).under policy :=
    under_collide strict rfl (d.rules.contains key)
  rw [addRule_eq, addRule_eq]
  show { (d.under policy).collide (d.rules.contains key) (.ruleCollision key) with
    rules := d.rules.insert (Rule.applyAll { key } d.store setters).1
    store := (Rule.applyAll { key } d.store setters).2 } = _
  rw [hcollide]
  rfl

lemma under_addGuideline (strict : d.policy = .error) (key : Text)
    (setters : List Guideline.Call) :
    (d.under policy).addGuideline key setters = (d.addGuideline key setters).under policy := by
  have hcollide : (d.under policy).collide (d.guidelines.contains key) (.guidelineCollision key)
      = (d.collide (d.guidelines.contains key) (.guidelineCollision key)).under policy :=
    under_collide strict rfl (d.guidelines.contains key)
  rw [addGuideline_eq, addGuideline_eq]
  show { (d.under policy).collide (d.guidelines.contains key) (.guidelineCollision key) with
    guidelines := d.guidelines.insert (Guideline.applyAll { key } d.store setters).1
    store := (Guideline.applyAll { key } d.store setters).2 } = _
  rw [hcollide]
  rfl

/-- A program that records no collision by hand does to a strict draft under
another policy what it does to the strict draft. -/
theorem runAll_under (policy : CollisionPolicy) {calls : List Call}
    (noted : ∀ note ∈ Call.notes calls, note.2.isCollision = false) {d : Draft}
    (strict : d.policy = .error) :
    (d.under policy).runAll calls = (d.runAll calls).under policy := by
  induction calls using Call.induction generalizing d with
  | nil => rfl
  | declare name description rest ih => exact ih noted (d := (d.declare name description).2) strict
  | reference name rest ih => exact ih noted (d := (d.reference name).2) strict
  | rule key setters rest ih =>
      rw [runAll_cons, run, under_addRule strict]
      exact ih noted ((run_policy (.rule key setters) d).trans strict)
  | guideline key setters rest ih =>
      rw [runAll_cons, run, under_addGuideline strict]
      exact ih noted ((run_policy (.guideline key setters) d).trans strict)
  | record level finding rest ih =>
      rw [Call.notes_cons, List.forall_mem_append] at noted
      have hhead : finding.isCollision = false := noted.1 (level, finding) (by simp)
      rw [runAll_cons, run, under_record hhead]
      exact ih noted.2 strict
  | compose library body rest ihBody ih =>
      rw [Call.notes_cons, Call.notes_compose, List.forall_mem_append] at noted
      have hinside := ihBody noted.1 (d := d.enter library) strict
      have hstrict : (runAll (d.enter library) body).leave.policy = .error :=
        (runAll_policy body (d.enter library)).trans strict
      calc (((d.under policy).enter library).runAll body).leave.runAll rest
          = (((d.enter library).runAll body).under policy).leave.runAll rest := by
            rw [← hinside]; rfl
        _ = (((d.enter library).runAll body).leave.runAll rest).under policy :=
            ih noted.2 hstrict

end Draft

/-! ### The drafts of a command -/

/-- The draft of a command under a policy is its strict draft under the policy. -/
lemma Definition.draft_under (d : Definition) (name : Text) (command : Command)
    (policy : CollisionPolicy) :
    d.draft name command policy = (d.draft name command .error).under policy := by
  have hnoted := command.notes_program_spec d
  exact Draft.runAll_under policy (fun note hnote => (hnoted note hnote).2.1)
    (d := { name, policy := .error }) rfl

/-- All diagnostics recorded on a strict draft are errors. -/
lemma Definition.isError_draft (d : Definition) (name : Text) (command : Command) :
    ∀ g ∈ (d.draft name command .error).recorded, g.isError = true := by
  have hnotes := command.notes_program_spec d
  exact Draft.isError_runAll (fun note hnote => (hnotes note hnote).1) rfl (by simp)

/-- The diagnostic as a warning, if it is about a collision. -/
def Diagnostic.lowered (g : Diagnostic) : Diagnostic :=
  if g.finding.isCollision then { g with level := .warning } else g

/-- Under the policy of warnings each collision of a strict draft is lowered. -/
lemma Diagnostic.filterMap_under_warn (recorded : List Diagnostic) :
    recorded.filterMap (Diagnostic.under .warn) = recorded.map Diagnostic.lowered := by
  rw [← List.filterMap_eq_map]
  congr 1
  funext g
  cases h : g.finding.isCollision <;>
    simp [Diagnostic.under, Diagnostic.lowered, CollisionPolicy.level?, h]

/-- Under the policy of overwriting the collisions of a strict draft are left
out. -/
lemma Diagnostic.filterMap_under_overwrite (recorded : List Diagnostic) :
    recorded.filterMap (Diagnostic.under .overwrite)
      = recorded.filter (!·.finding.isCollision) := by
  rw [← List.filterMap_eq_filter]
  congr 1
  funext g
  cases h : g.finding.isCollision <;>
    simp [Diagnostic.under, CollisionPolicy.level?, Option.guard, h]

/-- **The policy decides the level of collisions and nothing else.** The drafts of
a command share their registries, their store, the libraries opened and the text
of the document. Under the policy of errors all diagnostics recorded are errors;
under that of warnings the collisions among them are lowered to warnings, and
under that of overwriting they are left out. All other diagnostics stay as they
are, and all stay in order. -/
theorem draft_policies (d : Definition) (name : Text) (command : Command) :
    let strict := d.draft name command .error
    let lenient := d.draft name command .warn
    let silent := d.draft name command .overwrite
    (∀ draft ∈ [lenient, silent],
      draft.rules = strict.rules ∧ draft.guidelines = strict.guidelines
        ∧ draft.store = strict.store ∧ draft.composed = strict.composed
        ∧ draft.document = strict.document)
      ∧ lenient.recorded = strict.recorded.map Diagnostic.lowered
      ∧ silent.recorded = strict.recorded.filter (!·.finding.isCollision)
      ∧ ∀ g ∈ strict.recorded, g.level = .error := by
  intro strict lenient silent
  have hlenient : lenient = strict.under .warn := d.draft_under name command .warn
  have hsilent : silent = strict.under .overwrite := d.draft_under name command .overwrite
  refine ⟨?_, ?_, ?_, ?_⟩
  · intro draft hdraft
    rcases List.mem_pair.mp hdraft with rfl | rfl
    · rw [hlenient]
      exact ⟨rfl, rfl, rfl, rfl, rfl⟩
    · rw [hsilent]
      exact ⟨rfl, rfl, rfl, rfl, rfl⟩
  · rw [hlenient]
    exact Diagnostic.filterMap_under_warn strict.recorded
  · rw [hsilent]
    exact Diagnostic.filterMap_under_overwrite strict.recorded
  · exact fun g hg => eq_of_beq (d.isError_draft name command g hg)

end Directives
