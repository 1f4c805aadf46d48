/-
Which directive left which dangling reference.

The journal of a program has an entry for each registration, with the dangling
references its setters left. A draft is balanced by a journal when its dangling
references are those of the entries in order, and each of its directives shows the
markers of its entry, in order, and no others.

* `Draft.journal`: the entries of a program that is run on a draft.
* `Draft.directives`: the directives of a draft with their blocks.
* `Draft.Balanced`: the draft shows what the entries left.
* `Draft.Balanced.rule`, `Draft.Balanced.guideline`: one registration.
* `Draft.Balanced.find_document_perm`: the markers of the document.
-/
import Directives.Proofs.Document.Layout
import Directives.Proofs.Draft.Collision
import Directives.Proofs.Store.Resolve

namespace Directives.Draft

/-! ### The journal of a program -/

mutual

/-- The entries of one call: the registration it makes with the dangling
references that are new after it, or the entries of the library it opens. -/
def entries (d : Draft) : Call → List (Registration × List Lint)
  | .rule key setters =>
      [(.rule key, (d.addRule key setters).store.lints.drop d.store.lints.length)]
  | .guideline key setters =>
      [(.guideline key, (d.addGuideline key setters).store.lints.drop d.store.lints.length)]
  | .compose library body => journal (d.enter library) body
  | _ => []

/-- The entries of calls in order. -/
def journal (d : Draft) : List Call → List (Registration × List Lint)
  | [] => []
  | call :: rest => entries d call ++ journal (d.run call) rest

end

lemma journal_nil (d : Draft) : d.journal [] = [] := rfl

lemma journal_cons (d : Draft) (call : Call) (rest : List Call) :
    d.journal (call :: rest) = d.entries call ++ (d.run call).journal rest := rfl

/-- The entries are about the registrations of the program, in order. -/
theorem journal_registrations (calls : List Call) (d : Draft) :
    (d.journal calls).map Prod.fst = Call.registrations calls := by
  induction calls using Call.induction generalizing d with
  | nil => rfl
  | declare name description rest ih => exact ih (d.declare name description).2
  | reference name rest ih => exact ih (d.reference name).2
  | rule key setters rest ih => exact congrArg (.rule key :: ·) (ih (d.run (.rule key setters)))
  | guideline key setters rest ih =>
      exact congrArg (.guideline key :: ·) (ih (d.run (.guideline key setters)))
  | record level finding rest ih => exact ih (d.record level finding)
  | compose library body rest ihBody ih =>
      rw [journal_cons, List.map_append, ih, Call.registrations_cons,
        Call.registrations_compose, ← ihBody (d.enter library)]
      rfl

/-! ### Balanced drafts -/

/-- The directives of a draft with their blocks. -/
def directives (d : Draft) : List (Registration × Block) :=
  d.rules.items.map (fun rule => (.rule rule.key, rule.block))
    ++ d.guidelines.items.map (fun guideline => (.guideline guideline.key, guideline.block))

/-- The dangling references of the draft are those of the entries in order, and
the directives are those of the entries and show the markers of their entries. -/
structure Balanced (d : Draft) (entries : List (Registration × List Lint)) : Prop where
  lints : d.store.lints = entries.flatMap Prod.snd
  blocks : (d.directives.map fun shown => (shown.1, Block.markers shown.2)).Perm
    (entries.map fun left => (left.1, left.2.map Lint.name))

namespace Balanced

variable {d : Draft} {entries : List (Registration × List Lint)}

/-- An empty draft is balanced by no entries. -/
lemma new (name : Text) (policy : CollisionPolicy) : Balanced { name, policy } [] :=
  ⟨rfl, .nil⟩

/-- Entries that come with a directive that shows their markers. -/
lemma add (h : d.Balanced entries) {e : Draft} {r : Registration} {block : Block}
    {names : List Text} (hstore : e.store = d.store.addLints names)
    (hdirectives : e.directives.Perm (d.directives ++ [(r, block)]))
    (hblock : Block.markers block = names) :
    e.Balanced (entries ++ [(r, e.store.lints.drop d.store.lints.length)]) := by
  have hnew : e.store.lints.drop d.store.lints.length = names.map d.store.lint := by
    rw [hstore, Store.addLints, List.drop_left]
  have hnames : (names.map d.store.lint).map Lint.name = names := by
    rw [List.map_map]
    exact List.map_id names
  refine ⟨?_, ?_⟩
  · rw [hnew, hstore, Store.addLints, h.lints]
    simp
  · refine (hdirectives.map _).trans ?_
    rw [hnew, List.map_append, List.map_append, List.map_singleton, List.map_singleton, hblock,
      hnames]
    exact h.blocks.append_right _

/-- A new rule that shows what its setters left. -/
theorem rule (h : d.Balanced entries) {key : Text} {setters : List Rule.Call} {item : Rule}
    {names : List Text} (fresh : .rule key ∉ d.registered)
    (hsetters : Rule.applyAll { key } d.store setters = (item, d.store.addLints names))
    (hblock : Block.markers item.block = names) :
    (d.run (.rule key setters)).Balanced (entries ++ d.entries (.rule key setters)) := by
  have hkey : item.key = key := by
    have h := Rule.applyAll_key setters { key } d.store
    rwa [hsetters] at h
  have hnew : Keyed.key item ∉ d.rules.keys := by
    rwa [rule_mem_registered, Registry.contains_iff, ← hkey] at fresh
  refine h.add (r := .rule key) ?_ ?_ hblock
  · simp [run, addRule_eq, collide_eq, hsetters]
  · simp only [directives, run, addRule_eq, collide_eq, hsetters, Registry.items_insert hnew,
      List.map_append, List.map_singleton, hkey, List.append_assoc]
    exact List.perm_append_comm.append_left _

/-- A new guideline that shows what its setters left. -/
theorem guideline (h : d.Balanced entries) {key : Text} {setters : List Guideline.Call}
    {item : Guideline} {names : List Text} (fresh : .guideline key ∉ d.registered)
    (hsetters : Guideline.applyAll { key } d.store setters = (item, d.store.addLints names))
    (hblock : Block.markers item.block = names) :
    (d.run (.guideline key setters)).Balanced (entries ++ d.entries (.guideline key setters)) := by
  have hkey : item.key = key := by
    have h := Guideline.applyAll_key setters { key } d.store
    rwa [hsetters] at h
  have hnew : Keyed.key item ∉ d.guidelines.keys := by
    rwa [guideline_mem_registered, Registry.contains_iff, ← hkey] at fresh
  refine h.add (r := .guideline key) ?_ ?_ hblock
  · simp [run, addGuideline_eq, collide_eq, hsetters]
  · simp [directives, run, addGuideline_eq, collide_eq, hsetters, Registry.items_insert hnew, hkey]

/-- Balance is a matter of the dangling references and the registries. -/
lemma congr (h : d.Balanced entries) {e : Draft} (hlints : e.store.lints = d.store.lints)
    (hrules : e.rules = d.rules) (hguidelines : e.guidelines = d.guidelines) :
    e.Balanced entries := by
  refine ⟨hlints.trans h.lints, ?_⟩
  rw [directives, hrules, hguidelines]
  exact h.blocks

/-! ### What a balanced draft shows -/

/-- **The document of a balanced draft** has the markers of its dangling references,
each as often as it was left. -/
theorem find_document_perm (h : d.Balanced entries) :
    (Marker.find d.document).Perm (d.store.lints.map Lint.name) := by
  have hblocks := h.blocks.flatMap_right Prod.snd
  rw [directives, List.map_append, List.flatMap_append, List.map_map, List.map_map,
    List.flatMap_map, List.flatMap_map, List.flatMap_map] at hblocks
  rw [h.lints, List.map_flatMap]
  exact (Layout.find_document_perm d.rules d.guidelines).trans hblocks

/-- A directive of a balanced draft shows the markers of its entry, in order. -/
lemma find_block (h : d.Balanced entries) {r : Registration} {block : Block}
    (hmem : (r, block) ∈ d.directives) :
    ∃ lints, (r, lints) ∈ entries ∧ Marker.find (Text.join "\n" block) = lints.map Lint.name := by
  have hshown : (r, Block.markers block)
      ∈ d.directives.map fun shown => (shown.1, Block.markers shown.2) :=
    List.mem_map.mpr ⟨(r, block), hmem, rfl⟩
  obtain ⟨⟨s, lints⟩, hentry, heq⟩ := List.mem_map.mp (h.blocks.subset hshown)
  obtain ⟨rfl, hnames⟩ := Prod.mk.inj heq
  exact ⟨lints, hentry, (Block.find_join_lines block).trans hnames.symm⟩

end Balanced

end Directives.Draft
