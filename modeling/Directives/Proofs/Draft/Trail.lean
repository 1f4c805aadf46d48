/-
Drafts without trails.

The libraries that are open when a call is made end up in the diagnostics, the
lints and the list of opened libraries, and nowhere else. With these taken out,
a program does to a draft what its atoms do.

* `Lint.untraced`, `Diagnostic.untraced`, `Store.untraced`, `Draft.untraced`: the
  same without trails.
* `Draft.runAll_untraced`: the atoms of a program, run without trails.
-/
import Directives.Proofs.Draft.Program
import Directives.Proofs.Store.Setters

namespace Directives

/-- The lint without its trail. -/
def Lint.untraced (lint : Lint) : Lint := { lint with via := [] }

/-- The diagnostic without its trail. -/
def Diagnostic.untraced (d : Diagnostic) : Diagnostic := { d with via := [] }

/-- The store without trails. -/
def Store.untraced (s : Store) : Store :=
  { s with lints := s.lints.map Lint.untraced, trail := [] }

lemma Store.untraced_declare (s : Store) (name description : Text) :
    s.untraced.declare name description
      = ((s.declare name description).1, (s.declare name description).2.untraced) := rfl

lemma Store.untraced_addLints (s : Store) (names : List Text) :
    s.untraced.addLints names = (s.addLints names).untraced := by
  simp [addLints, untraced, lint, Lint.untraced]

/-- References do not look at trails. -/
lemma Store.untraced_reference (s : Store) (name : Text) :
    s.untraced.reference name = ((s.reference name).1, (s.reference name).2.untraced) := by
  refine Prod.ext ?_ ?_
  · rw [reference_fst, reference_fst]
    rfl
  · rw [reference_snd, reference_snd, ← untraced_addLints]
    rfl

lemma Rule.applyAll_untraced (setters : List Rule.Call) (rule : Rule) (s : Store) :
    rule.applyAll s.untraced setters
      = ((rule.applyAll s setters).1, (rule.applyAll s setters).2.untraced) := by
  rw [applyAll_eq, applyAll_eq, Store.resolved_congr (s := s) (t := s.untraced) rfl,
    Store.dangling_congr (s := s) (t := s.untraced) rfl, Store.untraced_addLints]

lemma Guideline.applyAll_untraced (setters : List Guideline.Call) (guideline : Guideline)
    (s : Store) :
    guideline.applyAll s.untraced setters
      = ((guideline.applyAll s setters).1, (guideline.applyAll s setters).2.untraced) := by
  rw [applyAll_eq, applyAll_eq, Store.resolved_congr (s := s) (t := s.untraced) rfl,
    Store.dangling_congr (s := s) (t := s.untraced) rfl, Store.untraced_addLints]

namespace Draft

/-- The draft without trails. -/
def untraced (d : Draft) : Draft :=
  { d with store := d.store.untraced, recorded := d.recorded.map Diagnostic.untraced,
           trail := [], composed := [] }

@[simp] lemma untraced_enter (d : Draft) (library : Text) :
    (d.enter library).untraced = d.untraced := rfl

@[simp] lemma untraced_leave (d : Draft) : d.leave.untraced = d.untraced := rfl

lemma untraced_declare (d : Draft) (name description : Text) :
    d.untraced.declare name description
      = ((d.declare name description).1, (d.declare name description).2.untraced) := rfl

lemma untraced_reference (d : Draft) (name : Text) :
    d.untraced.reference name = ((d.reference name).1, (d.reference name).2.untraced) := by
  simp only [reference, untraced, Store.untraced_reference]

lemma untraced_record (d : Draft) (level : Level) (finding : Finding) :
    d.untraced.record level finding = (d.record level finding).untraced := by
  simp [record, untraced, Diagnostic.untraced]

lemma untraced_collide (d : Draft) (taken : Bool) (finding : Finding) :
    d.untraced.collide taken finding = (d.collide taken finding).untraced := by
  cases taken with
  | false => rfl
  | true =>
      have hpolicy : d.untraced.policy = d.policy := rfl
      cases h : d.policy.level? with
      | none => simp [collide, hpolicy, h]
      | some level => simp [collide, hpolicy, h, untraced_record]

lemma untraced_addRule (d : Draft) (key : Text) (setters : List Rule.Call) :
    d.untraced.addRule key setters = (d.addRule key setters).untraced := by
  have hcollide := untraced_collide d (d.rules.contains key) (.ruleCollision key)
  have hsetters := Rule.applyAll_untraced setters { key } d.store
  rw [addRule_eq, addRule_eq]
  show { d.untraced.collide (d.rules.contains key) (.ruleCollision key) with
    rules := d.rules.insert (Rule.applyAll { key } d.store.untraced setters).1
    store := (Rule.applyAll { key } d.store.untraced setters).2 } = _
  rw [hcollide, hsetters]
  rfl

lemma untraced_addGuideline (d : Draft) (key : Text) (setters : List Guideline.Call) :
    d.untraced.addGuideline key setters = (d.addGuideline key setters).untraced := by
  have hcollide := untraced_collide d (d.guidelines.contains key) (.guidelineCollision key)
  have hsetters := Guideline.applyAll_untraced setters { key } d.store
  rw [addGuideline_eq, addGuideline_eq]
  show { d.untraced.collide (d.guidelines.contains key) (.guidelineCollision key) with
    guidelines := d.guidelines.insert (Guideline.applyAll { key } d.store.untraced setters).1
    store := (Guideline.applyAll { key } d.store.untraced setters).2 } = _
  rw [hcollide, hsetters]
  rfl

/-- **Trails decide nothing**: a program does to a draft what its atoms do to the
draft without trails. -/
theorem runAll_untraced (calls : List Call) (d : Draft) :
    d.untraced.runAll (Call.allAtoms calls) = (d.runAll calls).untraced := by
  induction calls using Call.induction generalizing d with
  | nil => rfl
  | declare name description rest ih => exact ih (d.declare name description).2
  | reference name rest ih =>
      have h : d.untraced.run (.reference name) = (d.run (.reference name)).untraced := by
        simp only [run, untraced_reference]
      simpa [h] using ih (d.run (.reference name))
  | rule key setters rest ih =>
      have h : d.untraced.run (.rule key setters) = (d.run (.rule key setters)).untraced := by
        simp only [run, untraced_addRule]
      simpa [h] using ih (d.run (.rule key setters))
  | guideline key setters rest ih =>
      have h : d.untraced.run (.guideline key setters)
          = (d.run (.guideline key setters)).untraced := by
        simp only [run, untraced_addGuideline]
      simpa [h] using ih (d.run (.guideline key setters))
  | record level finding rest ih =>
      have h : d.untraced.run (.record level finding)
          = (d.run (.record level finding)).untraced := by
        simp only [run, untraced_record]
      simpa [h] using ih (d.run (.record level finding))
  | compose library body rest ihBody ih =>
      rw [Call.allAtoms_cons, Call.atoms_compose, runAll_append, runAll_cons]
      have hbody := ihBody (d.enter library)
      rw [untraced_enter] at hbody
      rw [hbody, ← ih, run, untraced_leave]

end Draft

end Directives
