/-
The structure of programs.

A program is a list of calls, and a library opened by one of them carries a
program of its own. What a program registers and what it records by hand can be
read off its atoms, the calls that open no library.

* `Call.induction`: what holds of the empty program, and goes from the rest of a
  program to the program, holds of every program.
* `Call.atoms`, `Call.allAtoms`: the calls of a program that open no library, in
  the order they are made.
* `Registration`, `Call.registrations`: the directives a program registers.
* `Call.notes`: the diagnostics a program records by hand.
* `Draft.addRule_eq`, `Draft.addGuideline_eq`: what a registration changes.
* `Draft.runAll_append`, `Draft.runAll_policy`: programs one after another, and
  what no program touches.
-/
import Mathlib.Tactic
import Directives.Draft.Program

namespace Directives

/-! ### Induction over programs -/

/-- The induction principle of programs: the body of an opened library and the
calls after it are both shorter programs. -/
@[elab_as_elim]
theorem Call.induction {P : List Call → Prop} (nil : P [])
    (declare : ∀ name description rest, P rest → P (.declare name description :: rest))
    (reference : ∀ name rest, P rest → P (.reference name :: rest))
    (rule : ∀ key setters rest, P rest → P (.rule key setters :: rest))
    (guideline : ∀ key setters rest, P rest → P (.guideline key setters :: rest))
    (record : ∀ level finding rest, P rest → P (.record level finding :: rest))
    (compose : ∀ library body rest, P body → P rest → P (.compose library body :: rest))
    (calls : List Call) : P calls :=
  @Call.rec_1 (fun call => ∀ rest, P rest → P (call :: rest)) P
    declare reference rule guideline record
    (fun library body onBody rest => compose library body rest onBody)
    nil
    (fun _ rest onCall onRest => onCall rest onRest)
    calls

/-! ### The atoms of a program -/

namespace Call

mutual

/-- The calls a call amounts to when no library is opened: itself, or those of
the body. -/
def atoms : Call → List Call
  | compose _ body => allAtoms body
  | call => [call]

/-- The calls a program amounts to when no library is opened. -/
def allAtoms : List Call → List Call
  | [] => []
  | call :: rest => call.atoms ++ allAtoms rest

end

@[simp] lemma allAtoms_nil : allAtoms [] = [] := rfl

@[simp] lemma allAtoms_cons (call : Call) (rest : List Call) :
    allAtoms (call :: rest) = call.atoms ++ allAtoms rest := rfl

@[simp] lemma atoms_declare (name description : Text) :
    atoms (.declare name description) = [.declare name description] := rfl

@[simp] lemma atoms_reference (name : Text) : atoms (.reference name) = [.reference name] := rfl

@[simp] lemma atoms_rule (key : Text) (setters : List Rule.Call) :
    atoms (.rule key setters) = [.rule key setters] := rfl

@[simp] lemma atoms_guideline (key : Text) (setters : List Guideline.Call) :
    atoms (.guideline key setters) = [.guideline key setters] := rfl

@[simp] lemma atoms_record (level : Level) (finding : Finding) :
    atoms (.record level finding) = [.record level finding] := rfl

@[simp] lemma atoms_compose (library : Text) (body : List Call) :
    atoms (.compose library body) = allAtoms body := rfl

lemma allAtoms_append (before after : List Call) :
    allAtoms (before ++ after) = allAtoms before ++ allAtoms after := by
  induction before with
  | nil => rfl
  | cons call rest ih => simp [ih]

end Call

/-! ### Registrations and notes -/

/-- A directive that is registered: its kind and its key. -/
inductive Registration
  | rule (key : Text)
  | guideline (key : Text)
  deriving Repr, DecidableEq

namespace Call

/-- The directive a call registers. -/
def registration? : Call → Option Registration
  | rule key _ => some (.rule key)
  | guideline key _ => some (.guideline key)
  | _ => none

/-- The diagnostic a call records by hand. -/
def note? : Call → Option (Level × Finding)
  | record level finding => some (level, finding)
  | _ => none

/-- The directives a program registers, in order, those of its libraries among
them. -/
def registrations (calls : List Call) : List Registration :=
  (allAtoms calls).filterMap registration?

/-- The diagnostics a program records by hand, in order, those of its libraries
among them. -/
def notes (calls : List Call) : List (Level × Finding) := (allAtoms calls).filterMap note?

@[simp] lemma registrations_nil : registrations [] = [] := rfl

@[simp] lemma notes_nil : notes [] = [] := rfl

lemma registrations_cons (call : Call) (rest : List Call) :
    registrations (call :: rest) = registrations [call] ++ registrations rest := by
  simp [registrations]

lemma notes_cons (call : Call) (rest : List Call) :
    notes (call :: rest) = notes [call] ++ notes rest := by
  simp [notes]

@[simp] lemma registrations_compose (library : Text) (body : List Call) :
    registrations [.compose library body] = registrations body := by
  simp [registrations]

@[simp] lemma notes_compose (library : Text) (body : List Call) :
    notes [.compose library body] = notes body := by
  simp [notes]

@[simp] lemma notes_record (level : Level) (finding : Finding) :
    notes [.record level finding] = [(level, finding)] := rfl

end Call

/-! ### Programs one after another -/

namespace Draft

@[simp] lemma runAll_nil (d : Draft) : d.runAll [] = d := rfl

@[simp] lemma runAll_cons (d : Draft) (call : Call) (rest : List Call) :
    d.runAll (call :: rest) = (d.run call).runAll rest := rfl

lemma runAll_append (d : Draft) (before after : List Call) :
    d.runAll (before ++ after) = (d.runAll before).runAll after := by
  induction before generalizing d with
  | nil => rfl
  | cons call rest ih => exact ih (d.run call)

/-- A collision is recorded or not; nothing else changes. -/
lemma collide_eq (d : Draft) (taken : Bool) (finding : Finding) :
    d.collide taken finding
      = { d with recorded := d.recorded ++
            if taken then (d.policy.level?.map (⟨·, finding, d.trail⟩)).toList else [] } := by
  cases taken with
  | false => simp [collide]
  | true => cases h : d.policy.level? <;> simp [collide, h, record]

/-- A registration records its collision, and puts what its setters come to into the
registry. -/
lemma addRule_eq (d : Draft) (key : Text) (setters : List Rule.Call) :
    d.addRule key setters
      = { d.collide (d.rules.contains key) (.ruleCollision key) with
          rules := d.rules.insert (Rule.applyAll { key } d.store setters).1
          store := (Rule.applyAll { key } d.store setters).2 } := by
  simp [addRule, collide_eq]

lemma addGuideline_eq (d : Draft) (key : Text) (setters : List Guideline.Call) :
    d.addGuideline key setters
      = { d.collide (d.guidelines.contains key) (.guidelineCollision key) with
          guidelines := d.guidelines.insert (Guideline.applyAll { key } d.store setters).1
          store := (Guideline.applyAll { key } d.store setters).2 } := by
  simp [addGuideline, collide_eq]

/-- No program changes the policy. -/
lemma runAll_policy (calls : List Call) (d : Draft) : (d.runAll calls).policy = d.policy := by
  induction calls using Call.induction generalizing d with
  | nil => rfl
  | declare name description rest ih => exact ih _
  | reference name rest ih => exact ih _
  | rule key setters rest ih =>
      rw [runAll_cons, ih]
      simp [run, addRule_eq, collide_eq]
  | guideline key setters rest ih =>
      rw [runAll_cons, ih]
      simp [run, addGuideline_eq, collide_eq]
  | record level finding rest ih => exact ih _
  | compose library body rest ihBody ih =>
      rw [runAll_cons, ih]
      exact ihBody _

lemma run_policy (call : Call) (d : Draft) : (d.run call).policy = d.policy :=
  runAll_policy [call] d

end Draft

end Directives
