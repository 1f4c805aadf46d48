/-
Drafts hold no references.

Every text gets into a directive by a setter, and every setter resolves its text first.
So the texts of all directives are settled, at every point of every run: the goal of a
guideline, its lines of description, all that its phases say, the rationale of a rule, its
text for violations, and each part of its body. The body as a whole is made of its parts,
with line feeds in between.

* `Rule.Settled`, `Guideline.Settled`: the texts of a directive are settled.
* `Rule.parts`, `Rule.body_applyAll`: what setters append to a body, part by part.
* `Draft.Holds`, `Draft.Holds.moments`: what setters see to holds of every directive at
  every point of a run.
* `Draft.moments_settled`: the texts of all directives are settled.
-/
import Directives.Proofs.Definition.Directive
import Directives.Proofs.Draft.Collision
import Directives.Proofs.Draft.Moment
import Directives.Proofs.Store.Settled

namespace Directives

/-! ### Rules -/

namespace Rule

/-- The texts of the rule beside its body are settled. -/
structure Settled (rule : Rule) : Prop where
  rationale : ∀ text ∈ rule.rationale, Directives.Settled text
  violation : ∀ text ∈ rule.violation, Directives.Settled text

/-- The parts that setters append to the body. -/
def parts (s : Store) (setters : List Call) : List Text :=
  setters.filterMap fun
    | .text body => some (s.resolved body)
    | _ => none

/-- Every part of a body is settled. -/
lemma settled_of_mem_parts {s : Store} {setters : List Call} :
    ∀ part ∈ parts s setters, Directives.Settled part := by
  intro part hpart
  obtain ⟨setter, -, hsetter⟩ := List.mem_filterMap.mp hpart
  cases setter with
  | text body =>
      obtain rfl := Option.some.inj hsetter
      exact s.settled_resolved body
  | _ => cases hsetter

lemma parts_addLints (s : Store) (names : List Text) (setters : List Call) :
    parts (s.addLints names) setters = parts s setters := by
  rw [parts, parts, Store.resolved_addLints]

/-- **The body, part by part**, in the order of the setters. -/
theorem body_applyAll (setters : List Call) (rule : Rule) (s : Store) :
    (rule.applyAll s setters).1.body = (parts s setters).foldl appendBody rule.body := by
  induction setters generalizing rule s with
  | nil => rfl
  | cons setter rest ih =>
      rw [applyAll, ih]
      cases setter with
      | severity severity => rfl
      | text body =>
          simp only [apply, Store.resolve_eq, parts_addLints]
          rfl
      | why rationale =>
          simp only [apply, Store.resolve_eq, parts_addLints]
          rfl
      | onViolation text =>
          simp only [apply, Store.resolve_eq, parts_addLints]
          rfl

namespace Settled

variable {rule : Rule}

lemma new (key : Text) : Rule.Settled { key } := ⟨by simp, by simp⟩

lemma apply (h : rule.Settled) (s : Store) (setter : Call) : (rule.apply s setter).1.Settled := by
  cases setter with
  | severity severity => exact ⟨h.rationale, h.violation⟩
  | text body => exact ⟨h.rationale, h.violation⟩
  | why rationale =>
      refine ⟨?_, h.violation⟩
      simpa [Rule.apply, Store.resolve_eq] using s.settled_resolved rationale
  | onViolation text =>
      refine ⟨h.rationale, ?_⟩
      simpa [Rule.apply, Store.resolve_eq] using s.settled_resolved text

lemma applyAll (h : rule.Settled) (s : Store) (setters : List Call) :
    (rule.applyAll s setters).1.Settled := by
  induction setters generalizing rule s with
  | nil => exact h
  | cons setter rest ih => exact ih (h.apply s setter) _

end Settled

end Rule

/-! ### Guidelines -/

namespace Guideline

/-- The texts of the guideline are settled, those of its phases at any depth. -/
structure Settled (guideline : Guideline) : Prop where
  goal : ∀ text ∈ guideline.goal, Directives.Settled text
  description : ∀ line ∈ guideline.description, Directives.Settled line
  phases : ∀ phase ∈ guideline.phases, ∀ text ∈ phase.payloads, Directives.Settled text

namespace Settled

variable {guideline : Guideline}

lemma new (key : Text) : Guideline.Settled { key } := ⟨by simp, by simp, by simp⟩

/-- Whatever a phase says is resolved, text by text. -/
lemma addPhase (h : guideline.Settled) (s : Store) (content : Phase) :
    (guideline.addPhase s content).1.Settled := by
  refine ⟨h.goal, h.description, ?_⟩
  simp only [Guideline.addPhase, Store.resolvePhase_eq, List.forall_mem_append,
    List.forall_mem_singleton, Phase.payloads_map, List.forall_mem_map]
  exact ⟨h.phases, fun text _ => s.settled_resolved text⟩

lemma apply (h : guideline.Settled) (s : Store) (setter : Call) :
    (guideline.apply s setter).1.Settled := by
  cases setter with
  | goal goal =>
      refine ⟨?_, h.description, h.phases⟩
      simpa [Guideline.apply, Store.resolve_eq] using s.settled_resolved goal
  | asExample => exact ⟨h.goal, h.description, h.phases⟩
  | phase content => exact h.addPhase s content
  | steps items => exact h.addPhase s (.sequence items)
  | scenario text => exact h.addPhase s (Guideline.scenario text)
  | text line =>
      refine ⟨h.goal, ?_, h.phases⟩
      simp only [Guideline.apply, Store.resolve_eq, List.forall_mem_append,
        List.forall_mem_singleton]
      exact ⟨h.description, s.settled_resolved line⟩

lemma applyAll (h : guideline.Settled) (s : Store) (setters : List Call) :
    (guideline.applyAll s setters).1.Settled := by
  induction setters generalizing guideline s with
  | nil => exact h
  | cons setter rest ih => exact ih (h.apply s setter) _

end Settled

end Guideline

namespace Draft

/-! ### What setters see to -/

/-- All rules of the draft have the one property, all guidelines the other. -/
structure Holds (P : Rule → Prop) (Q : Guideline → Prop) (d : Draft) : Prop where
  rules : ∀ rule ∈ d.rules.items, P rule
  guidelines : ∀ guideline ∈ d.guidelines.items, Q guideline

/-- The setters of the program see to it, in any store, that the rules they make have the
one property, and the guidelines the other. -/
structure Makes (P : Rule → Prop) (Q : Guideline → Prop) (calls : List Call) : Prop where
  rule : ∀ key setters, .rule key setters ∈ Call.allAtoms calls →
    ∀ s, P (Rule.applyAll { key } s setters).1
  guideline : ∀ key setters, .guideline key setters ∈ Call.allAtoms calls →
    ∀ s, Q (Guideline.applyAll { key } s setters).1

section Holds

variable {P : Rule → Prop} {Q : Guideline → Prop} {d : Draft}

lemma Makes.of_subset {calls more : List Call} (h : Makes P Q more)
    (hsub : Call.allAtoms calls ⊆ Call.allAtoms more) : Makes P Q calls :=
  ⟨fun key setters hmem => h.rule key setters (hsub hmem),
    fun key setters hmem => h.guideline key setters (hsub hmem)⟩

lemma Makes.rest {call : Call} {rest : List Call} (h : Makes P Q (call :: rest)) :
    Makes P Q rest := by
  refine h.of_subset ?_
  rw [Call.allAtoms_cons]
  exact List.subset_append_right _ _

lemma Makes.body {library : Text} {body rest : List Call}
    (h : Makes P Q (.compose library body :: rest)) : Makes P Q body := by
  refine h.of_subset ?_
  rw [Call.allAtoms_cons, Call.atoms_compose]
  exact List.subset_append_left _ _

/-- What is in a registry after a registration was in it before, or is what was
registered. -/
lemma forall_mem_insert {α : Type} [Keyed α] {p : α → Prop} {r : Registry α} {item : α}
    (h : ∀ x ∈ r.items, p x) (hitem : p item) : ∀ x ∈ (r.insert item).items, p x := by
  rw [Registry.insert, List.forall_mem_append, List.forall_mem_singleton]
  exact ⟨fun x hx => h x (List.mem_of_mem_filter hx), hitem⟩

namespace Holds

lemma run_atom (h : d.Holds P Q) {call : Call} {rest : List Call}
    (makes : Makes P Q (call :: rest)) (hopens : call.opens = false) :
    (d.run call).Holds P Q := by
  cases call with
  | rule key setters =>
      have hmade := makes.rule key setters (by simp) d.store
      rw [run, addRule_eq]
      refine ⟨forall_mem_insert h.rules hmade, ?_⟩
      rw [collide_eq]
      exact h.guidelines
  | guideline key setters =>
      have hmade := makes.guideline key setters (by simp) d.store
      rw [run, addGuideline_eq]
      refine ⟨?_, forall_mem_insert h.guidelines hmade⟩
      rw [collide_eq]
      exact h.rules
  | compose library body => simp [Call.opens] at hopens
  | _ => exact ⟨h.rules, h.guidelines⟩

lemma runAll (h : d.Holds P Q) {calls : List Call} (makes : Makes P Q calls) :
    (d.runAll calls).Holds P Q := by
  induction calls using Call.compose_induction generalizing d with
  | nil => exact h
  | atom call rest hopens ih => exact ih (h.run_atom makes hopens) makes.rest
  | compose library body rest ihBody ih =>
      have hinside : ((d.enter library).runAll body).Holds P Q :=
        ihBody ⟨h.rules, h.guidelines⟩ makes.body
      exact ih ⟨hinside.rules, hinside.guidelines⟩ makes.rest

/-- **What setters see to** holds of every directive at every point of a run. -/
theorem moments (h : d.Holds P Q) {calls : List Call} (makes : Makes P Q calls)
    (around : List Text) : ∀ m ∈ d.moments around calls, m.draft.Holds P Q := by
  induction calls using Call.compose_induction generalizing d around with
  | nil => simpa [moments_nil] using h
  | atom call rest hopens ih =>
      rw [moments_atom hopens, List.forall_mem_cons]
      exact ⟨h, ih (h.run_atom makes hopens) makes.rest around⟩
  | compose library body rest ihBody ih =>
      have hinside : (d.enter library).Holds P Q := ⟨h.rules, h.guidelines⟩
      have hafter : (d.run (.compose library body)).Holds P Q := by
        have hbody := hinside.runAll makes.body
        exact ⟨hbody.rules, hbody.guidelines⟩
      rw [moments_compose, List.forall_mem_cons, List.forall_mem_append]
      exact ⟨h, ihBody hinside makes.body _, ih hafter makes.rest around⟩

end Holds

end Holds

/-! ### Settled drafts -/

/-- The rule is what setters of the program come to, and its texts are settled, each part
of its body for itself. -/
def RuleSettled (calls : List Call) (rule : Rule) : Prop :=
  rule.Settled ∧ ∃ setters s, .rule rule.key setters ∈ Call.allAtoms calls
    ∧ rule = (Rule.applyAll { key := rule.key } s setters).1
    ∧ rule.body = (Rule.parts s setters).foldl Rule.appendBody []
    ∧ ∀ part ∈ Rule.parts s setters, Settled part

/-- The setters of any program settle what they make. -/
lemma makes_settled (calls : List Call) : Makes (RuleSettled calls) Guideline.Settled calls where
  rule key setters hmem s := by
    have hkey : (Rule.applyAll { key } s setters).1.key = key := Rule.applyAll_key setters _ s
    refine ⟨(Rule.Settled.new key).applyAll s setters, setters, s, ?_, ?_, ?_, ?_⟩
    · rwa [hkey]
    · rw [hkey]
    · exact Rule.body_applyAll setters { key } s
    · exact Rule.settled_of_mem_parts
  guideline key setters _ s := (Guideline.Settled.new key).applyAll s setters

/-- **Drafts hold no references**, at any point of any run: of a program on an empty
draft, and of a program on the draft of a command that was replayed. -/
theorem moments_settled (name : Text) (policy : CollisionPolicy) (calls : List Call) :
    (∀ m ∈ Draft.moments [] { name, policy } calls,
        m.draft.Holds (RuleSettled calls) Guideline.Settled)
      ∧ ∀ (d : Definition) (command : Command),
        ∀ m ∈ (d.draft name command policy).moments [] calls,
          m.draft.Holds (RuleSettled (command.program d ++ calls)) Guideline.Settled := by
  have hempty : ∀ calls, Holds (RuleSettled calls) Guideline.Settled { name, policy } :=
    fun calls => ⟨by simp, by simp⟩
  refine ⟨(hempty calls).moments (makes_settled calls) [], fun d command => ?_⟩
  have hall := makes_settled (command.program d ++ calls)
  have hcommand : (d.draft name command policy).Holds
      (RuleSettled (command.program d ++ calls)) Guideline.Settled := by
    refine (hempty _).runAll (hall.of_subset ?_)
    rw [Call.allAtoms_append]
    exact List.subset_append_left _ _
  refine hcommand.moments (hall.of_subset ?_) []
  rw [Call.allAtoms_append]
  exact List.subset_append_right _ _

end Draft

end Directives
