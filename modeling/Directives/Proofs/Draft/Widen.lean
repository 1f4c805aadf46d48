/-
Runs of one program on drafts that declare more names.

A draft widens another by some names when its store does and all else goes alike: the keys
of the registries, the diagnostics that are recorded, the libraries. Calls that differ in
descriptions at most keep it so, at every point of the run. So the directives of the wide
draft are those of the narrow one, where the texts are written with tokens for the markers of
the extra names.

* `Call.Alike`: calls that differ in the description of a declaration at most.
* `Draft.Widens`: the wide draft declares the extra names as well.
* `Draft.Widens.runAll`, `Draft.Widens.moments`: runs on both.
* `Draft.Widens.diagnostics_of_singleton`: the diagnostics of both.
* `Draft.Moment.Widens.rule?`, `Draft.Moment.Widens.guideline?`: what is registered on both.
-/
import Directives.Proofs.Draft.Registered
import Directives.Proofs.Store.Widen

namespace Directives

/-- Calls that differ in the description of a declaration at most. -/
inductive Call.Alike : Call → Call → Prop
  | declare (name description other : Text) :
      Alike (.declare name description) (.declare name other)
  | same (call : Call) : Alike call call

lemma Call.Alike.opens {call other : Call} (h : call.Alike other) : other.opens = call.opens := by
  cases h <;> rfl

lemma Call.alike_refl (calls : List Call) : List.Forall₂ Call.Alike calls calls :=
  List.forall₂_same.mpr fun call _ => .same call

namespace Registry

variable {α : Type} [Keyed α] {r s : Registry α}

lemma contains_congr (h : s.keys = r.keys) (key : Text) : s.contains key = r.contains key := by
  rw [Bool.eq_iff_iff, contains_iff, contains_iff, h]

lemma keys_insert_congr (h : s.keys = r.keys) {item other : α}
    (hkey : Keyed.key other = Keyed.key item) : (s.insert other).keys = (r.insert item).keys := by
  rw [keys_insert, keys_insert, h, hkey]

end Registry

namespace Draft

/-- The other draft declares the extra names as well, and goes alike but for them. -/
structure Widens (extra : List Text) (d e : Draft) : Prop where
  policy : e.policy = d.policy
  rules : e.rules.keys = d.rules.keys
  guidelines : e.guidelines.keys = d.guidelines.keys
  store : d.store.Widens extra e.store
  recorded : e.recorded = d.recorded
  trail : e.trail = d.trail
  composed : e.composed = d.composed

namespace Widens

variable {extra : List Text} {d e : Draft}

lemma refl (d : Draft) : d.Widens [] d := ⟨rfl, rfl, rfl, .refl d.store, rfl, rfl, rfl⟩

lemma trans {more : List Text} {f : Draft} (h : d.Widens extra e) (hmore : e.Widens more f) :
    d.Widens (extra ++ more) f where
  policy := hmore.policy.trans h.policy
  rules := hmore.rules.trans h.rules
  guidelines := hmore.guidelines.trans h.guidelines
  store := h.store.trans hmore.store
  recorded := hmore.recorded.trans h.recorded
  trail := hmore.trail.trans h.trail
  composed := hmore.composed.trans h.composed

/-- Drafts that widen one draft by the same names go alike. -/
lemma join {same : List Text} {f : Draft} (h : d.Widens extra e) (hsame : d.Widens same f)
    (names : ∀ name, name ∈ extra ↔ name ∈ same) : e.Widens [] f where
  policy := hsame.policy.trans h.policy.symm
  rules := hsame.rules.trans h.rules.symm
  guidelines := hsame.guidelines.trans h.guidelines.symm
  store := h.store.join hsame.store names
  recorded := hsame.recorded.trans h.recorded.symm
  trail := hsame.trail.trans h.trail.symm
  composed := hsame.composed.trans h.composed.symm

/-- A declaration makes a draft wider that has no dangling references yet. -/
lemma of_declare (bare : d.store.lints = []) (name description : Text) :
    d.Widens [Name.normalize name] (d.run (.declare name description)) :=
  ⟨rfl, rfl, rfl, .of_declare bare name description, rfl, rfl, rfl⟩

/-! ### Calls on both -/

lemma record (h : d.Widens extra e) (level : Level) (finding : Finding) :
    (d.record level finding).Widens extra (e.record level finding) where
  policy := h.policy
  rules := h.rules
  guidelines := h.guidelines
  store := h.store
  recorded := by rw [Draft.record, Draft.record, h.recorded, h.trail]
  trail := h.trail
  composed := h.composed

lemma collide (h : d.Widens extra e) (taken : Bool) (finding : Finding) :
    (d.collide taken finding).Widens extra (e.collide taken finding) := by
  rw [collide_eq, collide_eq]
  exact ⟨h.policy, h.rules, h.guidelines, h.store, by rw [h.recorded, h.policy, h.trail], h.trail,
    h.composed⟩

/-- The rules that are registered on both have one key. -/
lemma addRule (h : d.Widens extra e) (key : Text) (setters : List Rule.Call) :
    (d.addRule key setters).Widens extra (e.addRule key setters) := by
  have hcollide := h.collide (d.rules.contains key) (.ruleCollision key)
  have houtline := Rule.outline_written e.store.resolved d.store.resolved key setters
  rw [addRule_eq, addRule_eq, Rule.applyAll_eq, Rule.applyAll_eq, Registry.contains_congr h.rules,
    h.store.flatMap_dangling]
  exact ⟨hcollide.policy, Registry.keys_insert_congr h.rules (congrArg Prod.fst houtline),
    hcollide.guidelines, h.store.addLints _, hcollide.recorded, hcollide.trail, hcollide.composed⟩

/-- The guidelines that are registered on both have one key. -/
lemma addGuideline (h : d.Widens extra e) (key : Text) (setters : List Guideline.Call) :
    (d.addGuideline key setters).Widens extra (e.addGuideline key setters) := by
  have hcollide := h.collide (d.guidelines.contains key) (.guidelineCollision key)
  have houtline := Guideline.outline_written e.store.resolved d.store.resolved key setters
  rw [addGuideline_eq, addGuideline_eq, Guideline.applyAll_eq, Guideline.applyAll_eq,
    Registry.contains_congr h.guidelines, h.store.flatMap_dangling]
  exact ⟨hcollide.policy, hcollide.rules,
    Registry.keys_insert_congr h.guidelines (congrArg Prod.fst houtline), h.store.addLints _,
    hcollide.recorded, hcollide.trail, hcollide.composed⟩

/-- **A call that opens no library** keeps the drafts alike. -/
theorem run_atom (h : d.Widens extra e) {call other : Call} (alike : call.Alike other)
    (hopens : call.opens = false) : (d.run call).Widens extra (e.run other) := by
  cases alike with
  | declare name description other =>
      exact ⟨h.policy, h.rules, h.guidelines, h.store.declare name description other, h.recorded,
        h.trail, h.composed⟩
  | same =>
      cases call with
      | declare name description =>
          exact ⟨h.policy, h.rules, h.guidelines, h.store.declare name description description,
            h.recorded, h.trail, h.composed⟩
      | reference name =>
          refine ⟨h.policy, h.rules, h.guidelines, ?_, h.recorded, h.trail, h.composed⟩
          show (d.store.reference name).2.Widens extra (e.store.reference name).2
          rw [Store.reference_snd, Store.reference_snd, h.store.missed]
          exact h.store.addLints _
      | rule key setters => exact h.addRule key setters
      | guideline key setters => exact h.addGuideline key setters
      | record level finding => exact h.record level finding
      | compose library body => cases hopens

lemma enter (h : d.Widens extra e) (library : Text) :
    (d.enter library).Widens extra (e.enter library) := by
  rw [Draft.enter, Draft.enter, h.trail, h.composed]
  exact ⟨h.policy, h.rules, h.guidelines, h.store.withTrail _, h.recorded, rfl, rfl⟩

lemma leave (h : d.Widens extra e) : d.leave.Widens extra e.leave := by
  rw [Draft.leave, Draft.leave, h.trail]
  exact ⟨h.policy, h.rules, h.guidelines, h.store.withTrail _, h.recorded, rfl, h.composed⟩

/-- **Programs that are alike** keep the drafts alike. -/
theorem runAll (h : d.Widens extra e) {calls others : List Call}
    (alike : List.Forall₂ Call.Alike calls others) :
    (d.runAll calls).Widens extra (e.runAll others) := by
  induction calls using Call.compose_induction generalizing d e others with
  | nil =>
      cases alike
      exact h
  | atom call rest hopens ih =>
      obtain ⟨other, others, hcall, hrest, rfl⟩ := List.forall₂_cons_left_iff.mp alike
      exact ih (h.run_atom hcall hopens) hrest
  | compose library body rest ihBody ih =>
      obtain ⟨_, others, ⟨⟩, hrest, rfl⟩ := List.forall₂_cons_left_iff.mp alike
      exact ih (ihBody (h.enter library) (Call.alike_refl body)).leave hrest

/-! ### What comes out of both -/

lemma hasErrors (h : d.Widens extra e) : e.hasErrors = d.hasErrors := by
  rw [Draft.hasErrors, Draft.hasErrors, h.recorded]

/-- The dangling references are those to other names than the extra one. -/
lemma lints_of_singleton {n : Text} (h : d.Widens [n] e) :
    e.store.lints = d.store.lints.filter (·.name ≠ n) := by
  rw [h.store.lints]
  exact List.filter_congr fun lint _ => by simp

/-- The diagnostics are those that do not warn about the extra name. -/
lemma diagnostics_of_singleton {n : Text} (h : d.Widens [n] e)
    (resolved : ∀ g ∈ d.recorded, g.finding.isUnresolved = false) :
    e.diagnostics = d.diagnostics.filter (·.finding ≠ .unresolvedReference n) := by
  have hrecorded : d.recorded.filter (·.finding ≠ .unresolvedReference n) = d.recorded := by
    refine List.filter_eq_self.mpr fun g hg => decide_eq_true fun hfinding => ?_
    have hresolved := resolved g hg
    rw [hfinding] at hresolved
    cases hresolved
  have hwarning : ∀ lint ∈ d.store.lints, decide (lint.name ≠ n)
      = decide ((lintWarning lint).finding ≠ .unresolvedReference n) := by
    intro lint _
    simp [lintWarning]
  calc e.diagnostics
      = d.recorded ++ (d.store.lints.filter (·.name ≠ n)).map lintWarning := by
        rw [diagnostics, h.recorded, h.lints_of_singleton]
    _ = d.recorded.filter (·.finding ≠ .unresolvedReference n)
          ++ (d.store.lints.map lintWarning).filter (·.finding ≠ .unresolvedReference n) := by
        rw [hrecorded, List.filter_map, List.filter_congr hwarning]
        rfl
    _ = d.diagnostics.filter (·.finding ≠ .unresolvedReference n) := by
        rw [← List.filter_append, diagnostics]

end Widens

/-! ### The points of both runs -/

/-- The other point is the same in the program, with a draft that declares the extra names as
well. -/
structure Moment.Widens (extra : List Text) (m n : Moment) : Prop where
  around : n.around = m.around
  draft : m.draft.Widens extra n.draft
  next : Option.Rel Call.Alike m.next n.next

namespace Moment.Widens

variable {extra : List Text} {m n : Moment}

/-- The rule that is registered next has tokens for the markers of extra names. -/
lemma rule? (h : m.Widens extra n) :
    n.rule? Store.resolved = m.rule? (Store.freed extra) := by
  obtain ⟨around, d, next⟩ := m
  obtain ⟨around', e, next'⟩ := n
  have hresolved : e.store.resolved = d.store.freed extra := h.draft.store.resolved
  obtain @⟨call, other, hcall⟩ | ⟨-⟩ : Option.Rel Call.Alike next next' := h.next
  · cases hcall with
    | declare name description other => rfl
    | same => cases call <;> simp only [Moment.rule?, hresolved]
  · rfl

/-- The guideline that is registered next has tokens for the markers of extra names. -/
lemma guideline? (h : m.Widens extra n) :
    n.guideline? Store.resolved = m.guideline? (Store.freed extra) := by
  obtain ⟨around, d, next⟩ := m
  obtain ⟨around', e, next'⟩ := n
  have hresolved : e.store.resolved = d.store.freed extra := h.draft.store.resolved
  obtain @⟨call, other, hcall⟩ | ⟨-⟩ : Option.Rel Call.Alike next next' := h.next
  · cases hcall with
    | declare name description other => rfl
    | same => cases call <;> simp only [Moment.guideline?, hresolved]
  · rfl

end Moment.Widens

/-- **The points of alike programs** are alike, one by one. -/
theorem Widens.moments {extra : List Text} {d e : Draft} (h : d.Widens extra e)
    {calls others : List Call} (alike : List.Forall₂ Call.Alike calls others)
    (around : List Text) :
    List.Forall₂ (Moment.Widens extra) (d.moments around calls) (e.moments around others) := by
  induction calls using Call.compose_induction generalizing d e others around with
  | nil =>
      cases alike
      exact .cons ⟨rfl, h, .none⟩ .nil
  | atom call rest hopens ih =>
      obtain ⟨other, others, hcall, hrest, rfl⟩ := List.forall₂_cons_left_iff.mp alike
      rw [moments_atom hopens, moments_atom (hcall.opens.trans hopens)]
      exact .cons ⟨rfl, h, .some hcall⟩ (ih (h.run_atom hcall hopens) hrest around)
  | compose library body rest ihBody ih =>
      obtain ⟨_, others, ⟨⟩, hrest, rfl⟩ := List.forall₂_cons_left_iff.mp alike
      have hbody := Call.alike_refl body
      rw [moments_compose, moments_compose]
      refine .cons ⟨rfl, h, .some (.same _)⟩ (List.rel_append ?_ ?_)
      · exact ihBody (h.enter library) hbody (around ++ [library])
      · exact ih ((h.enter library).runAll hbody).leave hrest around

/-- What is registered at the points of both runs. -/
lemma filterMap_moments {α : Type} {extra : List Text} {points others : List Moment}
    (h : List.Forall₂ (Moment.Widens extra) points others) {narrow wide : Moment → Option α}
    (hitem : ∀ {m n : Moment}, m.Widens extra n → wide n = narrow m) :
    others.filterMap wide = points.filterMap narrow := by
  induction h with
  | nil => rfl
  | cons hpoint _ ih => rw [List.filterMap_cons, List.filterMap_cons, hitem hpoint, ih]

end Draft

end Directives
