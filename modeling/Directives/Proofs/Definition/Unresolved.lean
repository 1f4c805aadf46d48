/-
Dangling references and the markers of a document.

Each dangling reference of a draft is written into the document as a marker. When
every directive is registered once and no text a command replays holds the mark of
markers itself, the document shows each of them as often as it was left, and the
block of a directive shows those of its setters in order.

* `Step.Unmarked`: the texts of a step do not hold the mark.
* `RuleStep.markers_block`, `GuidelineStep.markers_block`: the markers of the
  directive of a step.
* `Draft.Balanced.runAll`: a program keeps a draft balanced.
* `draft_markers`: the markers of the document of a command.
-/
import Directives.Proofs.Definition.Compile
import Directives.Proofs.Draft.Journal

namespace Directives

/-! ### Unmarked steps -/

/-- No text of the step holds the mark of markers. -/
def Step.Unmarked (step : Step) : Prop :=
  ∀ text ∈ step.texts, ¬ Name.unresolvedMark <:+: text

/-- The mark starts with a question mark. -/
lemma Step.Plain.unmarked {step : Step} (h : step.Plain) : step.Unmarked :=
  fun text htext hmark => h text htext (hmark.subset (by decide))

/-- The markers of resolved texts that do not hold the mark. -/
lemma Store.flatMap_find_resolved (s : Store) {texts : List Text}
    (unmarked : ∀ text ∈ texts, ¬ Name.unresolvedMark <:+: text) :
    (texts.map s.resolved).flatMap Marker.find = texts.flatMap s.dangling := by
  rw [List.flatMap_map]
  exact List.flatMap_congr fun text htext => s.find_resolved (unmarked text htext)

lemma Rule.find_appendBody (body part : Text) :
    Marker.find (appendBody body part) = Marker.find body ++ Marker.find part := by
  rw [appendBody]
  split_ifs with hpart hbody
  · rw [List.isEmpty_iff.mp hpart, Marker.find_nil, List.append_nil]
  · rw [List.isEmpty_iff.mp hbody, Marker.find_nil, List.nil_append]
  · exact @Marker.find_append_blank ['\n'] (by decide) (by decide) body part

/-- The parts of a body keep their markers. -/
lemma Rule.find_foldl_appendBody (parts : List Text) (body : Text) :
    Marker.find (parts.foldl appendBody body) = Marker.find body ++ parts.flatMap Marker.find := by
  induction parts generalizing body with
  | nil => simp
  | cons part rest ih =>
      rw [List.foldl_cons, ih, find_appendBody, List.flatMap_cons, List.append_assoc]

/-- **The rule of an unmarked step** shows the dangling references of its texts. -/
theorem RuleStep.markers_block {r : RuleStep} (h : (Step.rule r).Unmarked) (s : Store) :
    Block.markers (r.rule s.resolved).block = r.texts.flatMap s.dangling := by
  obtain ⟨hkey, htexts⟩ := List.forall_mem_cons.mp h
  rw [Rule.markers_block, show (r.rule s.resolved).key = r.key from rfl,
    Marker.find_eq_nil_of_unmarked hkey, List.nil_append, ← s.flatMap_find_resolved htexts]
  simp only [Rule.texts, rule, texts, List.flatMap_cons, Rule.find_foldl_appendBody,
    Marker.find_nil, List.nil_append, List.map_append, List.flatMap_append, List.append_assoc,
    Option.toList_map]

/-- **The guideline of an unmarked step** shows the dangling references of its
texts. -/
theorem GuidelineStep.markers_block {g : GuidelineStep} (h : (Step.guideline g).Unmarked)
    (s : Store) :
    Block.markers (g.guideline s.resolved).block = g.texts.flatMap s.dangling := by
  obtain ⟨hkey, htexts⟩ := List.forall_mem_cons.mp h
  have hphases : (g.guideline s.resolved).phases.flatMap Phase.payloads
      = (g.phases.flatMap (·.phase.payloads)).map s.resolved := by
    rw [guideline, List.flatMap_map, List.map_flatMap]
    exact List.flatMap_congr fun entry _ => Phase.payloads_map s.resolved entry.phase
  rw [Guideline.markers_block, show (g.guideline s.resolved).key = g.key from rfl,
    Marker.find_eq_nil_of_unmarked hkey, List.nil_append, ← s.flatMap_find_resolved htexts,
    Guideline.texts, hphases]
  simp only [guideline, texts, List.map_append, Option.toList_map]

/-! ### Programs keep drafts balanced -/

namespace Draft

/-- **A program keeps a draft balanced**, if it registers each directive once and
its steps are unmarked. -/
theorem Balanced.runAll {calls : List Call}
    (scripted : ∀ call ∈ calls, call.Scripted Step.Unmarked)
    (once : (Call.registrations calls).Nodup) {d : Draft}
    {entries : List (Registration × List Lint)} (h : d.Balanced entries)
    (fresh : ∀ r ∈ Call.registrations calls, r ∉ d.registered) :
    (d.runAll calls).Balanced (entries ++ d.journal calls) := by
  induction calls using Call.induction generalizing d entries with
  | nil => rwa [journal_nil, List.append_nil]
  | declare name description rest ih =>
      exact ih (List.forall_mem_cons.mp scripted).2 once
        (h.congr (e := (d.declare name description).2) rfl rfl rfl) fresh
  | reference name rest ih => cases (List.forall_mem_cons.mp scripted).1
  | rule key setters rest ih =>
      obtain ⟨hhead, hrest⟩ := List.forall_mem_cons.mp scripted
      have hcall : (Call.rule key setters).registration? = some (.rule key) := rfl
      obtain ⟨hnew, honce, hothers⟩ := fresh_run hcall once fresh
      rw [journal_cons, ← List.append_assoc, runAll_cons]
      cases hhead with
      | @rule r hr =>
          exact ih hrest honce
            (h.rule hnew (r.applyAll_calls d.store) (r.markers_block hr d.store)) hothers
  | guideline key setters rest ih =>
      obtain ⟨hhead, hrest⟩ := List.forall_mem_cons.mp scripted
      have hcall : (Call.guideline key setters).registration? = some (.guideline key) := rfl
      obtain ⟨hnew, honce, hothers⟩ := fresh_run hcall once fresh
      rw [journal_cons, ← List.append_assoc, runAll_cons]
      cases hhead with
      | @guideline g hg =>
          exact ih hrest honce
            (h.guideline hnew (g.applyAll_calls d.store) (g.markers_block hg d.store)) hothers
  | record level finding rest ih =>
      exact ih (List.forall_mem_cons.mp scripted).2 once
        (h.congr (e := d.record level finding) rfl rfl rfl) fresh
  | compose library body rest ihBody ih =>
      obtain ⟨hhead, hrest⟩ := List.forall_mem_cons.mp scripted
      rw [Call.registrations_cons, Call.registrations_compose] at once fresh
      obtain ⟨hbody, honce, hdisjoint⟩ := List.nodup_append.mp once
      obtain ⟨hfresh, hothers⟩ := List.forall_mem_append.mp fresh
      rw [journal_cons, ← List.append_assoc, runAll_cons]
      cases hhead with
      | compose _ hinner =>
          -- opening and closing the library change the trail only
          have hentered : (d.enter library).Balanced entries := h.congr rfl rfl rfl
          have hleft := ihBody hinner hbody hentered hfresh
          refine ih hrest honce
            (hleft.congr (e := ((d.enter library).runAll body).leave) rfl rfl rfl) ?_
          intro other hother hmem
          rcases (mem_registered_runAll body (d.enter library) other).mp hmem with hold | hnew
          · exact hothers other hother hold
          · exact hdisjoint other hnew other hother rfl

end Draft

/-! ### The markers of a command's document -/

namespace Definition

variable {d : Definition} {name : Text} {command : Command} {policy : CollisionPolicy}

/-- What is recorded on a draft is about no dangling reference. -/
lemma isUnresolved_recorded :
    ∀ g ∈ (d.draft name command policy).recorded, g.finding.isUnresolved = false := by
  intro g hg
  have hnotes := command.notes_program_spec d
  have hnoted := Draft.noted_runAll (fun note hnote => (hnotes note hnote).2.1)
    { name, policy : Draft }
  cases hcollision : g.finding.isCollision with
  | true => cases hfinding : g.finding <;> simp_all [Finding.isCollision, Finding.isUnresolved]
  | false =>
      have hmem : (g.level, g.finding) ∈ (d.draft name command policy).noted :=
        List.mem_map.mpr ⟨g, List.mem_filter.mpr ⟨hg, by simp [hcollision]⟩, rfl⟩
      rw [draft, hnoted] at hmem
      exact (hnotes _ hmem).2.2

/-- A document that compiles has the text of the draft, and reports as many dangling
references as were left. -/
lemma unresolvedCount_eq {document : Document}
    (h : (d.draft name command policy).compile = .ok document) :
    document.text = (d.draft name command policy).document
      ∧ document.unresolvedCount = (d.draft name command policy).store.lints.length := by
  obtain ⟨_, rfl⟩ := Draft.compile_eq_ok_iff.mp h
  refine ⟨rfl, ?_⟩
  have hrecorded : (d.draft name command policy).recorded.countP (·.finding.isUnresolved) = 0 :=
    List.countP_eq_zero.mpr fun g hg => by simp [isUnresolved_recorded g hg]
  rw [Document.unresolvedCount, Draft.diagnostics, List.countP_append, hrecorded, Nat.zero_add,
    List.countP_map]
  exact List.countP_eq_length.mpr fun lint _ => rfl

end Definition

/-- **Dangling references and markers.** Where each directive is registered once and
no text that is replayed holds the mark, the markers of the document are the names of
the dangling references, each as often as it was left. The block of a directive shows
those that its registration left, in order. So a document that compiles holds a marker
exactly when it reports dangling references. -/
theorem draft_markers {d : Definition} {command : Command}
    (once : (Call.registrations (command.program d)).Nodup)
    (unmarked : ∀ step, d.Replays command.steps step → step.Unmarked)
    (name : Text) (policy : CollisionPolicy) :
    let draft := d.draft name command policy
    let journal := Draft.journal { name, policy } (command.program d)
    (Marker.find draft.document).Perm (draft.store.lints.map Lint.name)
      ∧ draft.store.lints = journal.flatMap Prod.snd
      ∧ (∀ rule ∈ draft.rules.items, ∃ lints, (.rule rule.key, lints) ∈ journal
          ∧ Marker.find (Text.join "\n" rule.block) = lints.map Lint.name)
      ∧ (∀ guideline ∈ draft.guidelines.items, ∃ lints,
          (.guideline guideline.key, lints) ∈ journal
          ∧ Marker.find (Text.join "\n" guideline.block) = lints.map Lint.name)
      ∧ ∀ document, draft.compile = .ok document →
          (Marker.find document.text ≠ [] ↔ 0 < document.unresolvedCount) := by
  intro draft journal
  have hscripted : ∀ call ∈ command.program d, call.Scripted Step.Unmarked :=
    command.program_scripted (fun _ hplain => hplain.unmarked) unmarked
  have hfresh : ∀ r ∈ Call.registrations (command.program d),
      r ∉ Draft.registered { name, policy } := by
    intro r _ hmem
    simp [Draft.registered, Registry.keys] at hmem
  have hbalanced : draft.Balanced journal :=
    (Draft.Balanced.new name policy).runAll hscripted once hfresh
  have hperm := hbalanced.find_document_perm
  refine ⟨hperm, hbalanced.lints, ?_, ?_, ?_⟩
  · intro rule hrule
    exact hbalanced.find_block (List.mem_append_left _ (List.mem_map.mpr ⟨rule, hrule, rfl⟩))
  · intro guideline hguideline
    exact hbalanced.find_block
      (List.mem_append_right _ (List.mem_map.mpr ⟨guideline, hguideline, rfl⟩))
  · intro document hdocument
    obtain ⟨htext, hcount⟩ := Definition.unresolvedCount_eq hdocument
    rw [htext, hcount, ← List.length_map Lint.name, ← hperm.length_eq, List.length_pos_iff]

/-- The example leaves one dangling reference, and its document holds one marker. -/
theorem Definition.layered_markers :
    (Call.registrations (layeredTask.program layered)).Nodup
      ∧ (∀ step, layered.Replays layeredTask.steps step → step.Unmarked)
      ∧ Marker.find (layered.draft "task:validate" layeredTask .error).document
          = [("OWNER" : Text)] := by
  have once : (Call.registrations (layeredTask.program layered)).Nodup := by
    rw [Command.registrations_program, layered_program]
    decide
  have plain : ∀ step ∈ layeredTask.steps ++ layered.libraries.flatMap Prod.snd, step.Plain := by
    decide
  have unmarked : ∀ step, layered.Replays layeredTask.steps step → step.Unmarked :=
    fun step hstep => (plain step hstep.mem).unmarked
  have hlints : (layered.draft "task:validate" layeredTask .error).store.lints.map Lint.name
      = [("OWNER" : Text)] := by
    rw [draft, Command.program, layered_program]
    cbv
  refine ⟨once, unmarked, List.perm_singleton.mp ?_⟩
  rw [← hlints]
  exact (draft_markers once unmarked "task:validate" .error).1

end Directives
