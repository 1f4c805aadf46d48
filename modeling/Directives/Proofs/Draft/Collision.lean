/-
Which diagnostics a program leaves.

A program registers directives and records diagnostics by hand. The collisions it
leaves are its registrations that were made before, in order; the rest is what it
records by hand.

* `Registration.repeated`: the members of a list of registrations that occurred
  before, and `repeated_eq_nil_iff`, when there are none.
* `Draft.registered`: the directives in the registries of a draft.
* `Draft.collided`, `Draft.collided_runAll`: the collisions that were recorded.
* `Draft.noted`: all other diagnostics.
* `Draft.isError_runAll`: under the policy of errors every collision is one.
-/
import Directives.Proofs.Draft.Program
import Directives.Proofs.Registry

namespace Directives

/-! ### Registrations made before -/

namespace Registration

/-- The members of a list that were seen before it or occur earlier in it. -/
def repeated (seen : List Registration) : List Registration → List Registration
  | [] => []
  | r :: rest => (if r ∈ seen then [r] else []) ++ repeated (seen ++ [r]) rest

lemma repeated_append (seen before after : List Registration) :
    repeated seen (before ++ after) = repeated seen before ++ repeated (seen ++ before) after := by
  induction before generalizing seen with
  | nil => simp [repeated]
  | cons r rest ih => simp [repeated, ih]

/-- Only what was seen counts, not in which order. -/
lemma repeated_congr {seen seen' : List Registration} (h : ∀ r, r ∈ seen ↔ r ∈ seen')
    (list : List Registration) : repeated seen list = repeated seen' list := by
  induction list generalizing seen seen' with
  | nil => rfl
  | cons r rest ih =>
      have hrest : ∀ x, x ∈ seen ++ [r] ↔ x ∈ seen' ++ [r] := by
        intro x
        simp [h x]
      rw [repeated, repeated, ih hrest]
      simp [h r]

/-- Nothing is repeated when all members are new and differ from one another. -/
lemma repeated_eq_nil_iff {seen list : List Registration} :
    repeated seen list = [] ↔ list.Nodup ∧ ∀ r ∈ list, r ∉ seen := by
  induction list generalizing seen with
  | nil => simp [repeated]
  | cons r rest ih =>
      rw [repeated, List.append_eq_nil_iff, ih, List.nodup_cons, List.forall_mem_cons]
      constructor
      · rintro ⟨hr, hnodup, hnew⟩
        refine ⟨⟨fun hmem => hnew r hmem (by simp), hnodup⟩, by simpa using hr, ?_⟩
        exact fun x hx hseen => hnew x hx (List.mem_append_left _ hseen)
      · rintro ⟨⟨hmem, hnodup⟩, hr, hnew⟩
        refine ⟨by simpa using hr, hnodup, fun x hx hseen => ?_⟩
        rcases List.mem_append.mp hseen with hold | hlast
        · exact hnew x hx hold
        · exact hmem (List.mem_singleton.mp hlast ▸ hx)

/-- What is recorded when a directive is registered again. -/
def finding : Registration → Finding
  | rule key => .ruleCollision key
  | guideline key => .guidelineCollision key

end Registration

/-- The registration a collision is about. -/
def Finding.registration? : Finding → Option Registration
  | ruleCollision key => some (.rule key)
  | guidelineCollision key => some (.guideline key)
  | _ => none

lemma Finding.registration?_eq_none_iff (finding : Finding) :
    finding.registration? = none ↔ finding.isCollision = false := by
  cases finding <;> simp [registration?, isCollision]

@[simp] lemma Registration.finding_registration? (r : Registration) :
    r.finding.registration? = some r := by
  cases r <;> rfl

@[simp] lemma Registration.finding_isCollision (r : Registration) :
    r.finding.isCollision = true := by
  cases r <;> rfl

/-! ### Setters keep the key -/

lemma Rule.applyAll_key (setters : List Rule.Call) (rule : Rule) (store : Store) :
    (rule.applyAll store setters).1.key = rule.key := by
  induction setters generalizing rule store with
  | nil => rfl
  | cons call rest ih =>
      rw [applyAll, ih]
      cases call <;> rfl

lemma Guideline.applyAll_key (setters : List Guideline.Call) (guideline : Guideline)
    (store : Store) : (guideline.applyAll store setters).1.key = guideline.key := by
  induction setters generalizing guideline store with
  | nil => rfl
  | cons call rest ih =>
      rw [applyAll, ih]
      cases call <;> rfl

namespace Draft

/-! ### One registration -/

/-- The directives in the registries. -/
def registered (d : Draft) : List Registration :=
  d.rules.keys.map .rule ++ d.guidelines.keys.map .guideline

lemma rule_mem_registered {d : Draft} {key : Text} :
    .rule key ∈ d.registered ↔ d.rules.contains key = true := by
  simp [registered, Registry.contains_iff]

lemma guideline_mem_registered {d : Draft} {key : Text} :
    .guideline key ∈ d.registered ↔ d.guidelines.contains key = true := by
  simp [registered, Registry.contains_iff]

/-- A call that registers a directive puts it into the registries, and drops
none. -/
lemma mem_registered_run {call : Call} {r : Registration} (h : call.registration? = some r)
    (d : Draft) (x : Registration) : x ∈ (d.run call).registered ↔ x = r ∨ x ∈ d.registered := by
  cases call with
  | rule key setters =>
      cases h
      have hkey : Keyed.key (Rule.applyAll { key } d.store setters).1 = key :=
        Rule.applyAll_key setters { key } d.store
      cases x <;>
        simp [run, addRule_eq, collide_eq, registered, Registry.mem_keys_insert, hkey]
  | guideline key setters =>
      cases h
      have hkey : Keyed.key (Guideline.applyAll { key } d.store setters).1 = key :=
        Guideline.applyAll_key setters { key } d.store
      cases x <;>
        simp [run, addGuideline_eq, collide_eq, registered, Registry.mem_keys_insert, hkey]
  | _ => simp [Call.registration?] at h

/-- Directives that are registered once and are new stay so behind the first of
them. -/
lemma fresh_run {call : Call} {r : Registration} (h : call.registration? = some r) {d : Draft}
    {rest : List Registration} (once : (r :: rest).Nodup)
    (fresh : ∀ x ∈ r :: rest, x ∉ d.registered) :
    r ∉ d.registered ∧ rest.Nodup ∧ ∀ x ∈ rest, x ∉ (d.run call).registered := by
  obtain ⟨hr, hrest⟩ := List.nodup_cons.mp once
  obtain ⟨hnew, hothers⟩ := List.forall_mem_cons.mp fresh
  refine ⟨hnew, hrest, fun x hx => ?_⟩
  rw [mem_registered_run h, not_or]
  exact ⟨fun heq => hr (heq ▸ hx), hothers x hx⟩

/-- A call that registers a directive records a collision, at the level of the
policy, if the directive is in the registries. -/
lemma recorded_run {call : Call} {r : Registration} (h : call.registration? = some r)
    (d : Draft) :
    (d.run call).recorded = d.recorded ++
      if r ∈ d.registered then (d.policy.level?.map (⟨·, r.finding, d.trail⟩)).toList else [] := by
  cases call with
  | rule key setters =>
      cases h
      simp [run, addRule_eq, collide_eq, rule_mem_registered, Registration.finding]
  | guideline key setters =>
      cases h
      simp [run, addGuideline_eq, collide_eq, guideline_mem_registered, Registration.finding]
  | _ => simp [Call.registration?] at h

/-! ### Whole programs -/

/-- The registries hold what was there and what the program registers. -/
lemma mem_registered_runAll (calls : List Call) (d : Draft) (x : Registration) :
    x ∈ (d.runAll calls).registered ↔ x ∈ d.registered ∨ x ∈ Call.registrations calls := by
  induction calls using Call.induction generalizing d with
  | nil => simp
  | declare name description rest ih => exact ih (d.declare name description).2
  | reference name rest ih => exact ih (d.reference name).2
  | rule key setters rest ih =>
      have hrun : x ∈ (d.run (.rule key setters)).registered ↔ x = .rule key ∨ x ∈ d.registered :=
        mem_registered_run rfl d x
      rw [runAll_cons, ih, hrun, Call.registrations_cons, List.mem_append]
      simp [Call.registrations, Call.registration?, or_assoc, or_left_comm]
  | guideline key setters rest ih =>
      have hrun : x ∈ (d.run (.guideline key setters)).registered
          ↔ x = .guideline key ∨ x ∈ d.registered := mem_registered_run rfl d x
      rw [runAll_cons, ih, hrun, Call.registrations_cons, List.mem_append]
      simp [Call.registrations, Call.registration?, or_assoc, or_left_comm]
  | record level finding rest ih => exact ih (d.record level finding)
  | compose library body rest ihBody ih =>
      have hbody := ihBody (d.enter library)
      rw [runAll_cons, ih, Call.registrations_cons, Call.registrations_compose, List.mem_append,
        ← or_assoc]
      exact or_congr_left hbody

/-- The registrations whose collisions were recorded, in order. -/
def collided (d : Draft) : List Registration := d.recorded.filterMap (·.finding.registration?)

/-- The diagnostics that are about no collision, in order. -/
def noted (d : Draft) : List (Level × Finding) :=
  (d.recorded.filter (!·.finding.isCollision)).map fun g => (g.level, g.finding)

lemma collided_eq_nil_iff {d : Draft} :
    d.collided = [] ↔ ∀ g ∈ d.recorded, g.finding.isCollision = false := by
  simp [collided, Finding.registration?_eq_none_iff]

lemma noted_eq_nil_iff {d : Draft} :
    d.noted = [] ↔ ∀ g ∈ d.recorded, g.finding.isCollision = true := by
  simp [noted]

lemma collided_run {call : Call} {r : Registration} (h : call.registration? = some r) {d : Draft}
    {level : Level} (recorded : d.policy.level? = some level) :
    (d.run call).collided = d.collided ++ if r ∈ d.registered then [r] else [] := by
  rw [collided, recorded_run h, recorded]
  by_cases hr : r ∈ d.registered <;> simp [collided, hr]

/-- After a registration it counts as seen. -/
lemma repeated_run {call : Call} {r : Registration} (h : call.registration? = some r) (d : Draft)
    (list : List Registration) :
    Registration.repeated (d.run call).registered list
      = Registration.repeated (d.registered ++ [r]) list := by
  refine Registration.repeated_congr (fun x => ?_) list
  rw [mem_registered_run h, List.mem_append, List.mem_singleton, or_comm]

/-- **The collisions of a program**: where the policy records them at all, they are
those of the registrations that were made before, in order. -/
theorem collided_runAll {calls : List Call}
    (noted : ∀ note ∈ Call.notes calls, note.2.isCollision = false) {d : Draft} {level : Level}
    (recorded : d.policy.level? = some level) :
    (d.runAll calls).collided
      = d.collided ++ Registration.repeated d.registered (Call.registrations calls) := by
  induction calls using Call.induction generalizing d with
  | nil => simp [Registration.repeated]
  | declare name description rest ih =>
      exact ih noted (d := (d.declare name description).2) recorded
  | reference name rest ih => exact ih noted (d := (d.reference name).2) recorded
  | rule key setters rest ih =>
      have hpolicy : (d.run (.rule key setters)).policy.level? = some level := by
        rw [run_policy, recorded]
      rw [runAll_cons, ih noted hpolicy, collided_run (r := .rule key) rfl recorded,
        repeated_run (r := .rule key) rfl, List.append_assoc]
      rfl
  | guideline key setters rest ih =>
      have hpolicy : (d.run (.guideline key setters)).policy.level? = some level := by
        rw [run_policy, recorded]
      rw [runAll_cons, ih noted hpolicy, collided_run (r := .guideline key) rfl recorded,
        repeated_run (r := .guideline key) rfl, List.append_assoc]
      rfl
  | record grade finding rest ih =>
      rw [Call.notes_cons, List.forall_mem_append] at noted
      have hfinding : finding.registration? = none :=
        (Finding.registration?_eq_none_iff finding).mpr (noted.1 (grade, finding) (by simp))
      have hcollided : (d.record grade finding).collided = d.collided := by
        simp [collided, record, hfinding]
      rw [runAll_cons, run, ih noted.2 (d := d.record grade finding) recorded, hcollided]
      rfl
  | compose library body rest ihBody ih =>
      rw [Call.notes_cons, Call.notes_compose, List.forall_mem_append] at noted
      have hbody := ihBody noted.1 (d := d.enter library) recorded
      have hpolicy := (congrArg CollisionPolicy.level?
        (runAll_policy body (d.enter library))).trans recorded
      have hseen : ∀ x, x ∈ ((d.enter library).runAll body).leave.registered
          ↔ x ∈ d.registered ++ Call.registrations body := fun x => by
        rw [List.mem_append]
        exact mem_registered_runAll body (d.enter library) x
      have hrest := ih noted.2 (d := ((d.enter library).runAll body).leave) hpolicy
      rw [Registration.repeated_congr hseen] at hrest
      rw [runAll_cons, Call.registrations_cons, Call.registrations_compose,
        Registration.repeated_append, ← List.append_assoc]
      exact hrest.trans (congrArg (· ++ _) hbody)

/-- Under the policy of errors a program that records errors only by hand leaves
errors only. -/
theorem isError_runAll {calls : List Call} (errors : ∀ note ∈ Call.notes calls, note.1 = .error)
    {d : Draft} (strict : d.policy = .error) (before : ∀ g ∈ d.recorded, g.isError = true) :
    ∀ g ∈ (d.runAll calls).recorded, g.isError = true := by
  have hrun : ∀ {call : Call} {r : Registration}, call.registration? = some r → ∀ {e : Draft},
      e.policy = .error → (∀ g ∈ e.recorded, g.isError = true) →
      ∀ g ∈ (e.run call).recorded, g.isError = true := by
    intro call r h e hstrict hbefore
    rw [recorded_run h, List.forall_mem_append]
    refine ⟨hbefore, ?_⟩
    by_cases hr : r ∈ e.registered <;>
      simp [hr, hstrict, CollisionPolicy.level?, Diagnostic.isError]
  induction calls using Call.induction generalizing d with
  | nil => exact before
  | declare name description rest ih =>
      exact ih errors (d := (d.declare name description).2) strict before
  | reference name rest ih => exact ih errors (d := (d.reference name).2) strict before
  | rule key setters rest ih =>
      exact ih errors ((run_policy (.rule key setters) d).trans strict)
        (hrun (r := .rule key) rfl strict before)
  | guideline key setters rest ih =>
      exact ih errors ((run_policy (.guideline key setters) d).trans strict)
        (hrun (r := .guideline key) rfl strict before)
  | record level finding rest ih =>
      rw [Call.notes_cons, List.forall_mem_append] at errors
      have hlevel : level = .error := errors.1 (level, finding) (by simp)
      refine ih errors.2 (d := d.record level finding) strict ?_
      simp only [record, List.forall_mem_append]
      exact ⟨before, by simp [Diagnostic.isError, hlevel]⟩
  | compose library body rest ihBody ih =>
      rw [Call.notes_cons, Call.notes_compose, List.forall_mem_append] at errors
      exact ih errors.2 (d := ((d.enter library).runAll body).leave)
        ((runAll_policy body (d.enter library)).trans strict)
        (ihBody errors.1 (d := d.enter library) strict before)

end Draft

end Directives
