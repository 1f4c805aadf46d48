/-
The markers of a document.

The block of a directive has the markers of its key and then those of its texts,
in the order the texts are resolved. A document has the blocks of all directives;
it orders rules by severity and puts one guideline last, and neither loses nor
doubles any of them.

* `Rule.texts`, `Guideline.texts`: the texts of a directive in order.
* `Rule.markers_block`, `Guideline.markers_block`: the markers of a directive.
* `Layout.bySeverity_perm`, `Layout.ordered_perm`: the order of documents.
* `Layout.find_document_perm`: the markers of a document.
-/
import Directives.Proofs.Document.Block
import Directives.Proofs.Document.Step

namespace Directives

/-! ### The block of a rule -/

namespace Rule

/-- The texts of a rule in the order they are resolved. -/
def texts (rule : Rule) : List Text :=
  rule.body :: (rule.rationale.toList ++ rule.violation.toList)

lemma find_head (rule : Rule) : Marker.find rule.head = Marker.find rule.key := by
  have hclosing : Marker.find ([']'] : Text) = [] := rfl
  rw [head, List.append_assoc, Marker.find_skip (by decide),
    Marker.find_append (Marker.apart_nil.cons (by decide)), hclosing, List.append_nil]

/-- **The markers of a rule's lines** are those of its key and of its texts in order. -/
theorem markers_block (rule : Rule) :
    Block.markers rule.block = Marker.find rule.key ++ rule.texts.flatMap Marker.find := by
  have hbody := Block.markers_ofText rule.body
  have hspace : ∀ line : Text,
      Marker.find (rule.head ++ ' ' :: line) = Marker.find rule.key ++ Marker.find line := by
    intro line
    rw [← rule.find_head]
    exact @Marker.find_append_blank [' '] (by decide) (by decide) rule.head line
  rw [block, Block.markers_cons, Block.markers_indent, details, Block.markers_append,
    Block.markers_append, Block.markers_labelled_option (by decide) (by decide),
    Block.markers_labelled_option (by decide) (by decide), texts, List.flatMap_cons,
    List.flatMap_append, ← hbody]
  cases Block.ofText rule.body with
  | nil => simp [find_head]
  | cons first rest => simp [hspace]

end Rule

/-! ### The block of a guideline -/

namespace Guideline

/-- The texts of a guideline in the order they are resolved. -/
def texts (guideline : Guideline) : List Text :=
  guideline.goal.toList ++ guideline.description
    ++ guideline.phases.flatMap Phase.payloads

lemma find_header (guideline : Guideline) :
    Marker.find guideline.header = Marker.find guideline.key := by
  have hclosing : Marker.find ("===" : Text) = [] := Marker.find_of_braceless (by decide)
  have hheader : guideline.header
      = ("=== GUIDELINE: " : Text) ++ (guideline.key ++ ([' '] ++ "===")) := by
    simp [header, Block.header]
  rw [hheader, Marker.find_skip (by decide), Marker.find_append_blank (by decide) (by decide),
    hclosing, List.append_nil]

/-- A label ends in a space, and has no marker. -/
lemma markers_step (guideline : Guideline) {step : Step} (h : step ∈ guideline.steps) :
    Block.markers step.block = step.phase.payloads.flatMap Marker.find := by
  obtain ⟨⟨number, hlabel⟩, -⟩ := of_mem_steps h
  have hspace : step.label.getLast? = some ' ' := by
    rw [hlabel, label]
    split_ifs
    · rw [List.getLast?_append]
      rfl
    · rfl
  have hbrace : '{' ∉ step.label := by
    rw [hlabel, label]
    split_ifs
    · rw [List.mem_append, not_or]
      exact ⟨Block.braceless_ofNat number, by decide⟩
    · decide
  rw [Step.block, Block.markers_labelled_of_braceless hspace hbrace, Phase.markers_block]

/-- **The markers of a guideline's lines** are those of its key and of its texts in
order. -/
theorem markers_block (guideline : Guideline) :
    Block.markers guideline.block
      = Marker.find guideline.key ++ guideline.texts.flatMap Marker.find := by
  have hdescription : Block.markers (guideline.description.flatMap Block.ofText)
      = guideline.description.flatMap Marker.find := by
    rw [Block.markers_flatMap]
    exact List.flatMap_congr fun line _ => Block.markers_ofText line
  have hnone : ∀ phase : Phase, phase.block = [] → phase.payloads.flatMap Marker.find = [] := by
    intro phase hempty
    rw [← phase.markers_block, hempty, Block.markers_nil]
  have hsteps : Block.markers (guideline.steps.flatMap Step.block)
      = (guideline.phases.flatMap Phase.payloads).flatMap Marker.find := by
    rw [Block.markers_flatMap, List.flatMap_assoc, ← flatMap_steps hnone]
    exact List.flatMap_congr fun step hstep => guideline.markers_step hstep
  rw [block_steps, opening, Block.markers_append, hsteps, Block.markers_cons, find_header,
    Block.markers_append, Block.markers_labelled_option (by decide) (by decide), hdescription, texts,
    List.flatMap_append, List.flatMap_append, List.append_assoc]

end Guideline

/-! ### The order of documents -/

namespace Layout

/-- The rules from critical to low are the rules. -/
lemma bySeverity_perm (rules : List Rule) :
    (Severity.all.flatMap fun severity => rules.filter (·.severity == severity)).Perm rules := by
  refine List.perm_iff_count.mpr fun rule => ?_
  cases h : rule.severity <;>
    simp [Severity.all, List.count_filter, h, List.count_eq_zero_of_not_mem]

/-- The guidelines with one of them at the end are the guidelines. -/
lemma ordered_perm (guidelines : Registry Guideline) :
    (ordered guidelines).Perm guidelines.items := by
  have h := List.filter_append_perm (fun g : Guideline => g.key != Guideline.lastKey)
    guidelines.items
  have hneg : (fun g : Guideline => !(g.key != Guideline.lastKey))
      = fun g => g.key == Guideline.lastKey := by
    funext g
    simp [bne]
  rwa [hneg] at h

lemma markers_severitySections (rules : Registry Rule) (severities : List Severity) :
    (severities.filterMap (severitySection rules)).flatMap Block.markers
      = (severities.flatMap fun severity => rules.items.filter (·.severity == severity)).flatMap
          fun rule => Block.markers rule.block := by
  induction severities with
  | nil => rfl
  | cons severity rest ih =>
      rw [List.flatMap_cons, List.flatMap_append, ← ih, List.filterMap_cons, severitySection]
      cases rules.items.filter (·.severity == severity) with
      | nil => rfl
      | cons rule others =>
          have hheader :
              Marker.find (Block.header (("RULES: " : Text) ++ severity.label)) = [] := by
            cases severity <;> exact Marker.find_of_braceless (by decide)
          rw [List.flatMap_cons, Block.markers_cons, hheader, List.nil_append,
            Block.markers_flatMap]

/-- The markers of a document are those of its sections in order. -/
lemma find_document (rules : Registry Rule) (guidelines : Registry Guideline) :
    Marker.find (document rules guidelines)
      = (sections rules guidelines).flatMap Block.markers := by
  rw [document]
  split
  · next hnone => rw [hnone]; rfl
  · next hsome =>
    have hfeed := @Marker.find_append_blank ['\n'] (by decide) (by decide)
      (Text.join "\n\n" ((sections rules guidelines).map (Text.join "\n"))) []
    rw [List.append_nil, Marker.find_nil, List.append_nil] at hfeed
    rw [hfeed, Marker.find_join (by decide) (by decide), List.flatMap_map]
    exact List.flatMap_congr fun block _ => Block.find_join_lines block

/-- **The markers of a document** are those of the blocks of its directives, in
another order. -/
theorem find_document_perm (rules : Registry Rule) (guidelines : Registry Guideline) :
    (Marker.find (document rules guidelines)).Perm
      (rules.items.flatMap (fun rule => Block.markers rule.block)
        ++ guidelines.items.flatMap fun guideline => Block.markers guideline.block) := by
  rw [find_document, sections, List.flatMap_append, markers_severitySections, List.flatMap_map]
  exact ((bySeverity_perm rules.items).flatMap_right _).append
    ((ordered_perm guidelines).flatMap_right _)

end Layout

end Directives
