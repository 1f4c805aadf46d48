/-
What the setters of a directive come to, and what they leave in the store.

Setters refer to names and declare none. So each text is written on its own, and all that
setters leave are the dangling references of their texts, in order. Those left before have
no bearing on what setters come to.

* `Rule.written`, `Guideline.written`: what setters come to when each text is written by
  some function.
* `Rule.applyAll_eq`, `Guideline.applyAll_eq`: what setters come to in a store.
* `Rule.exists_addLints`, `Guideline.exists_addLints`: setters leave dangling
  references and nothing else.
* `Store.bare`: the store without dangling references.
* `Rule.applyAll_bare`, `Guideline.applyAll_bare`: setters come to the same on the
  bare store.
-/
import Directives.Proofs.Store.Payload
import Directives.Rule

namespace Directives

/-! ### Rules -/

namespace Rule

/-- The texts of a setter. -/
def Call.texts : Call → List Text
  | .severity _ => []
  | .text body => [body]
  | .why rationale => [rationale]
  | .onViolation violation => [violation]

/-- The rule after a setter whose text is written by `write`. -/
def set (write : Text → Text) (rule : Rule) : Call → Rule
  | .severity severity => { rule with severity }
  | .text body => { rule with body := appendBody rule.body (write body) }
  | .why rationale => { rule with rationale := some (write rationale) }
  | .onViolation text => { rule with violation := some (write text) }

/-- The rule that setters come to when each text is written by `write`. -/
def written (write : Text → Text) (key : Text) (setters : List Call) : Rule :=
  setters.foldl (set write) { key }

lemma apply_eq (call : Call) (rule : Rule) (s : Store) :
    rule.apply s call
      = (rule.set s.resolved call, s.addLints (call.texts.flatMap s.dangling)) := by
  cases call <;> simp [apply, set, Call.texts, Store.resolve_eq]

/-- **The setters of a rule** write each text on its own, and leave the dangling references of
the texts in order. -/
theorem applyAll_eq (setters : List Call) (rule : Rule) (s : Store) :
    rule.applyAll s setters
      = (setters.foldl (set s.resolved) rule,
          s.addLints ((setters.flatMap Call.texts).flatMap s.dangling)) := by
  induction setters generalizing rule s with
  | nil => rw [List.flatMap_nil, List.flatMap_nil, s.addLints_nil]; rfl
  | cons call rest ih =>
      rw [applyAll, apply_eq]
      simp only [ih, Store.resolved_addLints, Store.dangling_addLints, Store.addLints_addLints,
        List.foldl_cons, List.flatMap_cons, List.flatMap_append]

lemma exists_addLints (setters : List Call) (rule : Rule) (s : Store) :
    ∃ names, (rule.applyAll s setters).2 = s.addLints names :=
  ⟨_, congrArg Prod.snd (applyAll_eq setters rule s)⟩

end Rule

/-! ### Guidelines -/

namespace Guideline

/-- The texts of a setter, those of a phase in visiting order. -/
def Call.texts : Call → List Text
  | .goal line => [line]
  | .asExample => []
  | .phase content => content.payloads
  | .steps items => (Phase.sequence items).payloads
  | .scenario line => (Guideline.scenario line).payloads
  | .text line => [line]

/-- The guideline with one more phase. -/
def withPhase (guideline : Guideline) (phase : Phase) : Guideline :=
  { guideline with phases := guideline.phases ++ [phase] }

/-- The guideline after a setter whose texts are written by `write`. -/
def set (write : Text → Text) (guideline : Guideline) : Call → Guideline
  | .goal goal => { guideline with goal := some (write goal) }
  | .asExample => { guideline with isExample := true }
  | .phase content => guideline.withPhase (content.map write)
  | .steps items => guideline.withPhase ((Phase.sequence items).map write)
  | .scenario text => guideline.withPhase ((scenario text).map write)
  | .text line => { guideline with description := guideline.description ++ [write line] }

/-- The guideline that setters come to when each text is written by `write`. -/
def written (write : Text → Text) (key : Text) (setters : List Call) : Guideline :=
  setters.foldl (set write) { key }

lemma addPhase_eq (content : Phase) (guideline : Guideline) (s : Store) :
    guideline.addPhase s content
      = (guideline.withPhase (content.map s.resolved),
          s.addLints (content.payloads.flatMap s.dangling)) := by
  rw [addPhase, Store.resolvePhase_eq]
  rfl

lemma apply_eq (call : Call) (guideline : Guideline) (s : Store) :
    guideline.apply s call
      = (guideline.set s.resolved call, s.addLints (call.texts.flatMap s.dangling)) := by
  cases call <;> simp [apply, set, Call.texts, Store.resolve_eq, addPhase_eq]

/-- **The setters of a guideline** write each text on its own, and leave the dangling
references of the texts in order. -/
theorem applyAll_eq (setters : List Call) (guideline : Guideline) (s : Store) :
    guideline.applyAll s setters
      = (setters.foldl (set s.resolved) guideline,
          s.addLints ((setters.flatMap Call.texts).flatMap s.dangling)) := by
  induction setters generalizing guideline s with
  | nil => rw [List.flatMap_nil, List.flatMap_nil, s.addLints_nil]; rfl
  | cons call rest ih =>
      rw [applyAll, apply_eq]
      simp only [ih, Store.resolved_addLints, Store.dangling_addLints, Store.addLints_addLints,
        List.foldl_cons, List.flatMap_cons, List.flatMap_append]

lemma exists_addLints (setters : List Call) (guideline : Guideline) (s : Store) :
    ∃ names, (guideline.applyAll s setters).2 = s.addLints names :=
  ⟨_, congrArg Prod.snd (applyAll_eq setters guideline s)⟩

end Guideline

/-! ### Dangling references left before -/

namespace Store

/-- The store without its dangling references. -/
def bare (s : Store) : Store := { s with lints := [] }

@[simp] lemma bare_bare (s : Store) : s.bare.bare = s.bare := rfl

/-- A reference does to the bare store what it does to the store, dangling
references left before apart. -/
lemma bare_reference (s : Store) (name : Text) :
    (s.bare.reference name).2.bare = (s.reference name).2.bare := by
  rw [reference_snd, reference_snd]
  rfl

end Store

/-- The setters of a rule come to the same on the bare store. -/
lemma Rule.applyAll_bare (setters : List Rule.Call) (rule : Rule) (s : Store) :
    (rule.applyAll s.bare setters).1 = (rule.applyAll s setters).1
      ∧ (rule.applyAll s.bare setters).2.bare = (rule.applyAll s setters).2.bare := by
  rw [applyAll_eq, applyAll_eq, Store.resolved_congr (s := s) (t := s.bare) rfl]
  exact ⟨rfl, rfl⟩

/-- The setters of a guideline come to the same on the bare store. -/
lemma Guideline.applyAll_bare (setters : List Guideline.Call) (guideline : Guideline)
    (s : Store) :
    (guideline.applyAll s.bare setters).1 = (guideline.applyAll s setters).1
      ∧ (guideline.applyAll s.bare setters).2.bare = (guideline.applyAll s setters).2.bare := by
  rw [applyAll_eq, applyAll_eq, Store.resolved_congr (s := s) (t := s.bare) rfl]
  exact ⟨rfl, rfl⟩

end Directives
