/-
What becomes of registrations.

A registration puts an item into its registry. If the registry has an item under its key
already, that one is dropped, and a policy that records collisions records one. So at
every point of a run the items of a registry and the collisions about its kind make up
the registrations made so far, and the collisions are those of the registrations that
were made before.

* `Moment.registration?`: what is registered next.
* `Draft.Throughout`: a property of drafts and of the registrations before them, at all
  points of a run.
* `Draft.Tallied`: the items and the collisions make up the registrations.
* `Draft.moments_tallied`: they do at every point of a run.
-/
import Directives.Proofs.Draft.Collision
import Directives.Proofs.Draft.Moment

namespace Directives

/-- The registration of a rule. -/
def Registration.isRule : Registration → Bool
  | rule _ => true
  | guideline _ => false

/-- The registration of a guideline. -/
def Registration.isGuideline : Registration → Bool
  | rule _ => false
  | guideline _ => true

/-- A rule key was registered before. -/
def Finding.isRuleCollision : Finding → Bool
  | ruleCollision _ => true
  | _ => false

/-- A guideline key was registered before. -/
def Finding.isGuidelineCollision : Finding → Bool
  | guidelineCollision _ => true
  | _ => false

namespace Draft

/-! ### Registrations along a run -/

/-- The directive that is registered next. -/
def Moment.registration? (m : Moment) : Option Registration := m.next.bind Call.registration?

/-- At each of these points the draft has a property that has to do with the registrations
made before, `made` before the first of them. -/
def Throughout (P : Draft → List Registration → Prop) (made : List Registration)
    (points : List Moment) : Prop :=
  ∀ before m after, points = before ++ m :: after →
    P m.draft (made ++ before.filterMap Moment.registration?)

/-- The registrations at the points of a run are those of the program. -/
lemma filterMap_registration?_moments (calls : List Call) (around : List Text) (d : Draft) :
    (d.moments around calls).filterMap Moment.registration? = Call.registrations calls := by
  induction calls using Call.compose_induction generalizing around d with
  | nil => rfl
  | atom call rest h ih =>
      have hatoms : call.atoms = [call] := by
        cases call with
        | compose library body => simp [Call.opens] at h
        | _ => rfl
      rw [moments_atom h, List.filterMap_cons, ih, Call.registrations_cons, Call.registrations,
        Call.registrations, Call.allAtoms_cons, hatoms]
      cases hregistration : call.registration? <;>
        simp [Moment.registration?, hregistration]
  | compose library body rest ihBody ih =>
      rw [moments_compose, List.filterMap_cons_none rfl, List.filterMap_append, ihBody, ih,
        Call.registrations_cons, Call.registrations_compose]

/-- The registrations of a program are made before the end of its run. -/
lemma exists_moments_registrations (calls : List Call) (around : List Text) (d : Draft) :
    ∃ before, d.moments around calls = before ++ [⟨around, d.runAll calls, none⟩]
      ∧ before.filterMap Moment.registration? = Call.registrations calls := by
  obtain ⟨before, hbefore⟩ := exists_moments_eq_concat calls around d
  have hend : Moment.registration? ⟨around, d.runAll calls, none⟩ = none := rfl
  have hall := filterMap_registration?_moments calls around d
  rw [hbefore, List.filterMap_append, List.filterMap_cons_none hend, List.filterMap_nil,
    List.append_nil] at hall
  exact ⟨before, hbefore, hall⟩

section Throughout

variable {P : Draft → List Registration → Prop} {made : List Registration}

lemma Throughout.cons {m : Moment} {points : List Moment} (first : P m.draft made)
    (h : Throughout P (made ++ m.registration?.toList) points) :
    Throughout P made (m :: points) := by
  intro before n after heq
  cases before with
  | nil =>
      obtain ⟨rfl, -⟩ := List.cons.inj heq
      simpa using first
  | cons other before =>
      obtain ⟨rfl, hrest⟩ := List.cons.inj heq
      have hn := h before n after hrest
      cases hnext : m.registration? <;> simpa [hnext] using hn

lemma Throughout.append {points more : List Moment} (h : Throughout P made points)
    (hmore : Throughout P (made ++ points.filterMap Moment.registration?) more) :
    Throughout P made (points ++ more) := by
  intro before n after heq
  rcases List.append_eq_append_iff.mp heq with ⟨middle, rfl, hrest⟩ | ⟨middle, rfl, hrest⟩
  · rw [List.filterMap_append, ← List.append_assoc]
    exact hmore middle n after hrest
  · cases middle with
    | nil =>
        rw [List.nil_append] at hrest
        simpa using hmore [] n after hrest.symm
    | cons first middle =>
        obtain ⟨rfl, rfl⟩ := List.cons.inj hrest
        exact h before n _ rfl

/-- The end of a run comes after all registrations of the program. -/
lemma Throughout.runAll {calls : List Call} {around : List Text} {d : Draft}
    (h : Throughout P made (d.moments around calls)) :
    P (d.runAll calls) (made ++ Call.registrations calls) := by
  obtain ⟨before, hbefore, hall⟩ := exists_moments_registrations calls around d
  rw [← hall]
  exact h before _ [] hbefore

end Throughout

/-! ### Collisions among the diagnostics -/

/-- The diagnostics about collisions are about those that were recorded, in order. -/
lemma findings_collisions (d : Draft) :
    (d.diagnostics.filter (·.finding.isCollision)).map Diagnostic.finding
      = d.collided.map Registration.finding := by
  have hlints : (d.store.lints.map lintWarning).filter (·.finding.isCollision) = [] := by
    simp [lintWarning, Finding.isCollision]
  rw [diagnostics, List.filter_append, hlints, List.append_nil, collided]
  induction d.recorded with
  | nil => rfl
  | cons g rest ih =>
      rcases g with ⟨level, finding, via⟩
      cases finding <;>
        simpa [Finding.isCollision, Finding.registration?, Registration.finding] using ih

/-- Counting collisions is counting the registrations they are about. -/
lemma countP_collisions {p : Finding → Bool} {q : Registration → Bool}
    (h : ∀ finding, p finding = (finding.registration?.map q).getD false) (d : Draft) :
    d.diagnostics.countP (p ·.finding) = d.collided.countP q := by
  have hlints : (d.store.lints.map lintWarning).countP (p ·.finding) = 0 := by
    simp [lintWarning, h, Finding.registration?]
  rw [diagnostics, List.countP_append, hlints, collided, List.countP_filterMap]
  exact List.countP_congr fun g _ => by rw [h]

/-! ### One registration -/

section Registration

variable {call : Call} {r : Registration} {d : Draft}

/-- A rule is one more item, unless its key had one. -/
lemma rules_size_run (h : call.registration? = some r) (once : d.rules.keys.Nodup) :
    (d.run call).rules.keys.Nodup
      ∧ (d.run call).rules.size + (if r.isRule ∧ r ∈ d.registered then 1 else 0)
        = d.rules.size + [r].countP Registration.isRule := by
  cases call with
  | rule key setters =>
      cases h
      have hkey : Keyed.key (Rule.applyAll { key } d.store setters).1 = key :=
        Rule.applyAll_key setters { key } d.store
      have hsize := Registry.size_insert once (Rule.applyAll { key } d.store setters).1
      rw [hkey] at hsize
      rw [run, addRule_eq]
      refine ⟨Registry.nodup_keys_insert once, ?_⟩
      simpa [Registration.isRule, rule_mem_registered] using hsize
  | guideline key setters =>
      cases h
      rw [run, addGuideline_eq, collide_eq]
      exact ⟨once, rfl⟩
  | _ => simp [Call.registration?] at h

/-- A guideline is one more item, unless its key had one. -/
lemma guidelines_size_run (h : call.registration? = some r) (once : d.guidelines.keys.Nodup) :
    (d.run call).guidelines.keys.Nodup
      ∧ (d.run call).guidelines.size + (if r.isGuideline ∧ r ∈ d.registered then 1 else 0)
        = d.guidelines.size + [r].countP Registration.isGuideline := by
  cases call with
  | guideline key setters =>
      cases h
      have hkey : Keyed.key (Guideline.applyAll { key } d.store setters).1 = key :=
        Guideline.applyAll_key setters { key } d.store
      have hsize := Registry.size_insert once (Guideline.applyAll { key } d.store setters).1
      rw [hkey] at hsize
      rw [run, addGuideline_eq]
      refine ⟨Registry.nodup_keys_insert once, ?_⟩
      simpa [Registration.isGuideline, guideline_mem_registered] using hsize
  | rule key setters =>
      cases h
      rw [run, addRule_eq, collide_eq]
      exact ⟨once, rfl⟩
  | _ => simp [Call.registration?] at h

end Registration

/-! ### Tallied drafts -/

/-- The items of each registry and the collisions about its kind make up the
registrations, and the collisions are those of the registrations made before. -/
structure Tallied (d : Draft) (made : List Registration) : Prop where
  recording : ∃ level, d.policy.level? = some level
  ruleKeys : d.rules.keys.Nodup
  guidelineKeys : d.guidelines.keys.Nodup
  registered : ∀ r, r ∈ d.registered ↔ r ∈ made
  collided : d.collided = Registration.repeated [] made
  rules : d.rules.size + d.collided.countP Registration.isRule = made.countP Registration.isRule
  guidelines : d.guidelines.size + d.collided.countP Registration.isGuideline
    = made.countP Registration.isGuideline

namespace Tallied

variable {d : Draft} {made : List Registration}

/-- Nothing is registered in an empty draft. -/
lemma new (name : Text) {policy : CollisionPolicy} (h : ∃ level, policy.level? = some level) :
    Tallied { name, policy } [] :=
  ⟨h, List.nodup_nil, List.nodup_nil, fun _ => Iff.rfl, rfl, rfl, rfl⟩

/-- One registration more is one item more, or one collision. -/
lemma registration (h : d.Tallied made) {call : Call} {r : Registration}
    (registers : call.registration? = some r) : (d.run call).Tallied (made ++ [r]) := by
  obtain ⟨level, hlevel⟩ := h.recording
  have hcollided := collided_run registers (d := d) hlevel
  obtain ⟨hruleKeys, hrules⟩ := rules_size_run registers h.ruleKeys
  obtain ⟨hguidelineKeys, hguidelines⟩ := guidelines_size_run registers h.guidelineKeys
  have hcount : ∀ p : Registration → Bool, (if r ∈ d.registered then [r] else []).countP p
      = if p r ∧ r ∈ d.registered then 1 else 0 := by
    intro p
    by_cases hr : r ∈ d.registered <;> by_cases hp : p r <;> simp [hr, hp]
  refine ⟨⟨level, by rw [run_policy, hlevel]⟩, hruleKeys, hguidelineKeys, fun x => ?_, ?_, ?_, ?_⟩
  · rw [mem_registered_run registers, h.registered, List.mem_append, List.mem_singleton, or_comm]
  · rw [hcollided, Registration.repeated_append, h.collided]
    simp [Registration.repeated, h.registered]
  · rw [hcollided, List.countP_append, List.countP_append, hcount, ← h.rules]
    omega
  · rw [hcollided, List.countP_append, List.countP_append, hcount, ← h.guidelines]
    omega

/-- The tally has to do with the policy, the registries and the recorded diagnostics. -/
lemma congr (h : d.Tallied made) {e : Draft} (hpolicy : e.policy = d.policy)
    (hrules : e.rules = d.rules) (hguidelines : e.guidelines = d.guidelines)
    (hcollided : e.collided = d.collided) : e.Tallied made := by
  have hregistered : e.registered = d.registered := by
    rw [Draft.registered, hrules, hguidelines, Draft.registered]
  refine ⟨?_, ?_, ?_, ?_, ?_, ?_, ?_⟩
  · rw [hpolicy]; exact h.recording
  · rw [hrules]; exact h.ruleKeys
  · rw [hguidelines]; exact h.guidelineKeys
  · rw [hregistered]; exact h.registered
  · rw [hcollided]; exact h.collided
  · rw [hrules, hcollided]; exact h.rules
  · rw [hguidelines, hcollided]; exact h.guidelines

/-- A call that opens no library and records no collision by hand. -/
lemma run_atom (h : d.Tallied made) {call : Call} (hopens : call.opens = false)
    (unforged : ∀ note ∈ Call.notes [call], note.2.isCollision = false) :
    (d.run call).Tallied (made ++ call.registration?.toList) := by
  cases hregistration : call.registration? with
  | some r => exact h.registration hregistration
  | none =>
      rw [Option.toList_none, List.append_nil]
      cases call with
      | record level finding =>
          have hfinding : finding.registration? = none :=
            (Finding.registration?_eq_none_iff finding).mpr (unforged (level, finding) (by simp))
          have hcollided : (d.record level finding).collided = d.collided := by
            simp [Draft.collided, record, hfinding]
          exact h.congr rfl rfl rfl hcollided
      | compose library body => simp [Call.opens] at hopens
      | declare name description => exact h.congr rfl rfl rfl rfl
      | reference name => exact h.congr rfl rfl rfl rfl
      | rule key setters => simp [Call.registration?] at hregistration
      | guideline key setters => simp [Call.registration?] at hregistration

/-- **The tally is right at every point of a run**, if no collision is recorded by
hand. -/
theorem moments {calls : List Call} (h : d.Tallied made)
    (unforged : ∀ note ∈ Call.notes calls, note.2.isCollision = false) (around : List Text) :
    Throughout Tallied made (d.moments around calls) := by
  induction calls using Call.compose_induction generalizing d made around with
  | nil =>
      refine Throughout.cons (m := ⟨around, d, none⟩) h fun before n after heq => ?_
      simp at heq
  | atom call rest hopens ih =>
      rw [Call.notes_cons, List.forall_mem_append] at unforged
      rw [moments_atom hopens]
      exact Throughout.cons (m := ⟨around, d, some call⟩) h
        (ih (h.run_atom hopens unforged.1) unforged.2 around)
  | compose library body rest ihBody ih =>
      rw [Call.notes_cons, Call.notes_compose, List.forall_mem_append] at unforged
      have hbody := ihBody (d := d.enter library) (h.congr rfl rfl rfl rfl) unforged.1
        (around ++ [library])
      have hclosed : (d.run (.compose library body)).Tallied (made ++ Call.registrations body) :=
        hbody.runAll.congr rfl rfl rfl rfl
      rw [moments_compose]
      refine Throughout.cons (m := ⟨around, d, some (.compose library body)⟩) h ?_
      have hnothing : made ++ (Moment.registration?
          ⟨around, d, some (.compose library body)⟩).toList = made := List.append_nil made
      rw [hnothing]
      refine hbody.append ?_
      rw [filterMap_registration?_moments]
      exact ih hclosed unforged.2 around

end Tallied

/-- **Registrations are accounted for at every point** of the run of any program that
records no collision by hand, where the policy makes collisions errors or warnings: of
each kind, the items and the collisions are as many as the registrations made so far, and
the collisions are, in order, those registrations whose key was registered as the same
kind before. The end of the run is the last of the points, and the registrations made by
then are those of the program. -/
theorem moments_tallied (name : Text) {policy : CollisionPolicy}
    (recording : policy = .error ∨ policy = .warn) {calls : List Call}
    (unforged : ∀ note ∈ Call.notes calls, note.2.isCollision = false) :
    let points := Draft.moments [] { name, policy } calls
    (∀ before m after, points = before ++ m :: after →
        let made := before.filterMap Moment.registration?
        m.draft.rules.size + m.draft.diagnostics.countP (·.finding.isRuleCollision)
            = made.countP Registration.isRule
          ∧ m.draft.guidelines.size + m.draft.diagnostics.countP (·.finding.isGuidelineCollision)
            = made.countP Registration.isGuideline
          ∧ (m.draft.diagnostics.filter (·.finding.isCollision)).map Diagnostic.finding
            = (Registration.repeated [] made).map Registration.finding)
      ∧ ∃ before, points = before ++ [⟨[], Draft.runAll { name, policy } calls, none⟩]
        ∧ before.filterMap Moment.registration? = Call.registrations calls := by
  intro points
  have hlevel : ∃ level, policy.level? = some level := by
    rcases recording with rfl | rfl
    · exact ⟨.error, rfl⟩
    · exact ⟨.warning, rfl⟩
  refine ⟨fun before m after hsplit => ?_, exists_moments_registrations calls [] _⟩
  have htally := (Tallied.new name hlevel).moments unforged [] before m after hsplit
  have hrules := m.draft.countP_collisions (p := Finding.isRuleCollision)
    (q := Registration.isRule) fun finding => by cases finding <;> rfl
  have hguidelines := m.draft.countP_collisions (p := Finding.isGuidelineCollision)
    (q := Registration.isGuideline) fun finding => by cases finding <;> rfl
  refine ⟨?_, ?_, ?_⟩
  · rw [hrules]
    exact htally.rules
  · rw [hguidelines]
    exact htally.guidelines
  · rw [findings_collisions, htally.collided, List.nil_append]

/-- A library is opened twice, and another rule is registered in between: at the end three
registrations of rules have come to two rules and a collision, and two of a guideline to
a guideline and a collision. -/
theorem moments_tallied_library :
    let library : Call := .compose "house" [.rule "brief" [], .guideline "review" []]
    let calls : List Call := [library, .rule "tests" [], library]
    let final : Draft := Draft.runAll { name := "task", policy := .warn } calls
    (CollisionPolicy.warn = .error ∨ CollisionPolicy.warn = .warn)
      ∧ (∀ note ∈ Call.notes calls, note.2.isCollision = false)
      ∧ final.rules.size + final.diagnostics.countP (·.finding.isRuleCollision) = 3
      ∧ final.rules.size = 2
      ∧ final.guidelines.size + final.diagnostics.countP (·.finding.isGuidelineCollision) = 2
      ∧ final.guidelines.size = 1
      ∧ (final.diagnostics.filter (·.finding.isCollision)).map Diagnostic.finding
        = [.ruleCollision "brief", .guidelineCollision "review"] := by
  intro library calls final
  have unforged : ∀ note ∈ Call.notes calls, note.2.isCollision = false := by decide
  obtain ⟨hpoints, before, hlast, hmade⟩ := moments_tallied "task" (.inr rfl) unforged
  obtain ⟨hrules, hguidelines, hcollisions⟩ := hpoints before _ [] hlast
  rw [hmade] at hrules hguidelines hcollisions
  exact ⟨.inr rfl, unforged, hrules, by decide, hguidelines, by decide, hcollisions⟩

end Draft

end Directives
