/-
What the phases of a definition come to.

An entry of a guideline step becomes a phase with the same node at every place, where a
scenario is a leaf with a label. The texts of the entry are resolved on their way in, each
once: those of a node before those inside it, a condition before the branches and the first
branch before the other, a source before the body, branches, items and lines in order. Each
is resolved in the store that the one before it has left, and all that is left behind in the
store is their dangling references.

* `Entry.outline`, `Entry.texts`: the nodes of an entry, and its texts in order.
* `Entry.outline_phase`, `Entry.payloads_phase`: the phase of an entry has both.
* `Entry.Becomes`, `Entry.BecomeEach`: what entries come to in a store, one after another.
* `Entry.becomeEach_iff`: they come to their phases, resolved, and to nothing else.
* `Draft.run_guideline_becomes`: what the phases of a step come to in a draft.
-/
import Directives.Proofs.Definition.Directive
import Directives.Proofs.Draft.Program
import Directives.Proofs.Phase.Outline
import Directives.Proofs.Registry

namespace Directives

namespace Entry

mutual

/-- The entry without its texts. -/
def outline : Entry → Outline
  | leaf _ => .node .leaf 1 []
  | sequence items => .node .sequence 0 (outlines items)
  | ifThen _ body => .node .ifThen 1 [body.outline]
  | ifElse _ body otherwise => .node .ifElse 1 [body.outline, otherwise.outline]
  | forEach _ body => .node .forEach 1 [body.outline]
  | parallel branches => .node .parallel 0 (outlines branches)
  | bullets items => .node .bullets 0 (outlines items)
  | abort => .node .abort 0 []
  | abortWith _ => .node .abortWith 1 []
  | output lines => .node .output lines.texts.length []
  | verify lines => .node .verify lines.texts.length []
  | skip _ => .node .skip 1 []
  | note _ => .node .note 1 []
  | report _ => .node .report 1 []
  | scenario _ => .node .leaf 1 []

/-- The outlines of several entries in order. -/
def outlines : List Entry → List Outline
  | [] => []
  | item :: rest => item.outline :: outlines rest

end

mutual

/-- The texts of an entry, depth first and from left to right. A scenario has its label in
front. -/
def texts : Entry → List Text
  | leaf text => [text]
  | sequence items => textsAll items
  | ifThen condition body => condition :: body.texts
  | ifElse condition body otherwise => condition :: (body.texts ++ otherwise.texts)
  | forEach source body => source :: body.texts
  | parallel branches => textsAll branches
  | bullets items => textsAll items
  | abort => []
  | abortWith message => [message]
  | output lines => lines.texts
  | verify lines => lines.texts
  | skip label => [label]
  | note text => [text]
  | report text => [text]
  | scenario text => [("SCENARIO: " : Text) ++ text]

/-- The texts of several entries in order. -/
def textsAll : List Entry → List Text
  | [] => []
  | item :: rest => item.texts ++ textsAll rest

end

/-! ### The phase of an entry -/

mutual

/-- An entry and its phase have the same nodes. -/
lemma outline_phase : ∀ entry : Entry, entry.phase.outline = entry.outline
  | leaf _ | abort | abortWith _ | output _ | verify _ | skip _ | note _ | report _
  | scenario _ => rfl
  | sequence items => congrArg (Outline.node .sequence 0) (outlines_phases items)
  | parallel branches => congrArg (Outline.node .parallel 0) (outlines_phases branches)
  | bullets items => congrArg (Outline.node .bullets 0) (outlines_phases items)
  | ifThen _ body => by rw [phase, Phase.outline, outline_phase body, outline]
  | forEach _ body => by rw [phase, Phase.outline, outline_phase body, outline]
  | ifElse _ body otherwise => by
      rw [phase, Phase.outline, outline_phase body, outline_phase otherwise, outline]

lemma outlines_phases : ∀ items : List Entry, Phase.outlines (phases items) = outlines items
  | [] => rfl
  | item :: rest => by
      rw [phases, Phase.outlines, outline_phase item, outlines_phases rest, outlines]

end

mutual

/-- An entry and its phase have the same texts. -/
lemma payloads_phase : ∀ entry : Entry, entry.phase.payloads = entry.texts
  | leaf _ | abort | abortWith _ | output _ | verify _ | skip _ | note _ | report _
  | scenario _ => rfl
  | sequence items | parallel items | bullets items => payloadsAll_phases items
  | ifThen _ body | forEach _ body => by rw [phase, Phase.payloads, payloads_phase body, texts]
  | ifElse _ body otherwise => by
      rw [phase, Phase.payloads, payloads_phase body, payloads_phase otherwise, texts]

lemma payloadsAll_phases : ∀ items : List Entry, Phase.payloadsAll (phases items) = textsAll items
  | [] => rfl
  | item :: rest => by
      rw [phases, Phase.payloadsAll, payloads_phase item, payloadsAll_phases rest, textsAll]

end

/-! ### What entries come to -/

/-- In the store, the entry comes to the phase and leaves the later store: the phase has the
nodes of the entry, and its texts are those of the entry, resolved one after another. -/
structure Becomes (entry : Entry) (s : Store) (phase : Phase) (later : Store) : Prop where
  outline : phase.outline = entry.outline
  texts : s.resolveEach entry.texts = (phase.payloads, later)

/-- Entries come to phases one after another, each in the store that the one before left. -/
inductive BecomeEach : Store → List Entry → List Phase → Store → Prop
  | nil {s : Store} : BecomeEach s [] [] s
  | cons {s next later : Store} {entry : Entry} {phase : Phase} {rest : List Entry}
      {phases : List Phase} : entry.Becomes s phase next → BecomeEach next rest phases later →
      BecomeEach s (entry :: rest) (phase :: phases) later

/-- An entry comes to its phase, resolved. -/
lemma becomes_resolvePhase (entry : Entry) (s : Store) :
    entry.Becomes s (s.resolvePhase entry.phase).1 (s.resolvePhase entry.phase).2 := by
  rw [Store.resolvePhase_eq]
  refine ⟨?_, ?_⟩
  · rw [Phase.outline_map, outline_phase]
  · rw [Store.resolveEach_eq, Phase.payloads_map, payloads_phase]

/-- An entry comes to nothing else. -/
lemma Becomes.unique {entry : Entry} {s later later' : Store} {phase phase' : Phase}
    (h : entry.Becomes s phase later) (h' : entry.Becomes s phase' later') :
    phase = phase' ∧ later = later' := by
  obtain ⟨htexts, hlater⟩ := Prod.mk.inj (h.texts.symm.trans h'.texts)
  exact ⟨Phase.eq_of_outline_eq (h.outline.trans h'.outline.symm) htexts, hlater⟩

/-- **Entries one after another** come to their phases, each written on its own, leave the
dangling references of their texts in order, and come to nothing else. -/
theorem becomeEach_iff {s later : Store} {entries : List Entry} {phases : List Phase} :
    BecomeEach s entries phases later
      ↔ phases = entries.map (fun entry => entry.phase.map s.resolved)
        ∧ later = s.addLints ((entries.flatMap texts).flatMap s.dangling) := by
  induction entries generalizing s phases with
  | nil =>
      constructor
      · rintro ⟨⟩
        exact ⟨rfl, (Store.addLints_nil _).symm⟩
      · rintro ⟨rfl, rfl⟩
        rw [List.flatMap_nil, List.flatMap_nil, Store.addLints_nil]
        exact .nil
  | cons entry rest ih =>
      have hentry := entry.becomes_resolvePhase s
      rw [Store.resolvePhase_eq, payloads_phase] at hentry
      constructor
      · rintro (_ | ⟨hfirst, hrest⟩)
        obtain ⟨rfl, rfl⟩ := hfirst.unique hentry
        obtain ⟨rfl, rfl⟩ := ih.mp hrest
        simp
      · rintro ⟨rfl, rfl⟩
        refine .cons hentry (ih.mpr ⟨?_, ?_⟩)
        · simp
        · simp

end Entry

/-! ### In a draft -/

/-- **What the phases of a step come to** in any draft. Running a guideline step stores a
guideline under its key. The goal and the lines of the step are resolved first, one after
another. From the store that they leave on, the entries of the step come to the phases of the
guideline and to no others, and leave the store of the draft. What this adds to the store is
the dangling references of all these texts in order; the bindings stay as they are. -/
theorem Draft.run_guideline_becomes (d : Draft) (g : GuidelineStep) :
    let after := d.run (.guideline g.key g.calls)
    ∃ (stored : Guideline) (start : Store),
      after.guidelines.get? g.key = some stored
        ∧ d.store.resolveEach (g.goal.toList ++ g.text.texts)
          = (stored.goal.toList ++ stored.description, start)
        ∧ (∀ phases later, Entry.BecomeEach start g.phases phases later
          ↔ phases = stored.phases ∧ later = after.store)
        ∧ after.store.bindings = d.store.bindings
        ∧ after.store.lints = d.store.lints
          ++ ((g.goal.toList ++ g.text.texts ++ g.phases.flatMap Entry.texts).flatMap
            d.store.dangling).map d.store.lint := by
  intro after
  have htexts : g.texts = g.goal.toList ++ g.text.texts ++ g.phases.flatMap Entry.texts := by
    rw [GuidelineStep.texts]
    exact congrArg _ (List.flatMap_congr fun entry _ => entry.payloads_phase)
  have hafter : after = d.addGuideline g.key g.calls := rfl
  rw [addGuideline_eq, g.applyAll_calls] at hafter
  set leading := g.goal.toList ++ g.text.texts with hleading
  refine ⟨g.guideline d.store.resolved, d.store.addLints (leading.flatMap d.store.dangling),
    ?_, ?_, fun phases later => ?_, ?_, ?_⟩
  · rw [hafter]
    exact d.guidelines.get?_insert (g.guideline d.store.resolved)
  · rw [Store.resolveEach_eq, hleading, List.map_append, ← Option.toList_map]
    rfl
  · rw [Entry.becomeEach_iff, hafter, htexts]
    simp [GuidelineStep.guideline]
  · rw [hafter]
    rfl
  · rw [hafter, htexts]
    rfl

end Directives
