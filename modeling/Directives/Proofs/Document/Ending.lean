/-
How documents end.

A document without directives is empty, and every other document ends with a line feed. It
ends with a second one exactly when its last line is empty. Labels, titles and words of a
phase's own leave no line empty, so an empty line at the end is the end of the last text: a
document ends with one line feed unless the last line that its texts have is empty.

* `Block.Closes`: an empty line at the end of a block is the end of its texts.
* `Block.Built.closes`, `Rule.closes_block`, `Guideline.closes_block`: it is, in all blocks.
* `Block.Ended`: no line of a block ends with a line feed.
* `Rule.ended_block`, `Guideline.ended_block`: none does, in all blocks.
* `Layout.document_end`: the end of a document.
-/
import Directives.Proofs.Document.Hollow
import Directives.Proofs.Document.Margin

namespace Directives

/-! ### Blocks that end with their texts -/

namespace Block

/-- The block has lines where its texts have lines, and if its last line is empty, then so is
the last line of the texts. -/
structure Closes (lines : List Text) (block : Block) : Prop where
  shown : block = [] → lines = []
  last : block.getLast? = some [] → lines.getLast? = some []

namespace Closes

variable {lines others : List Text} {block below : Block}

lemma self (block : Block) : Closes block block := ⟨id, id⟩

lemma append (h : Closes lines block) (hbelow : Closes others below) :
    Closes (lines ++ others) (block ++ below) where
  shown hempty := by
    obtain ⟨hblock, hnone⟩ := List.append_eq_nil_iff.mp hempty
    rw [h.shown hblock, hbelow.shown hnone, List.append_nil]
  last hlast := by
    by_cases hnone : below = []
    · rw [hnone, List.append_nil] at hlast
      rw [hbelow.shown hnone, List.append_nil]
      exact h.last hlast
    · rw [List.getLast?_append_of_ne_nil _ hnone] at hlast
      rw [List.getLast?_append, hbelow.last hlast, Option.some_or]

lemma flatMap {α : Type} {parts : List α} {f : α → List Text} {g : α → Block}
    (h : ∀ part ∈ parts, Closes (f part) (g part)) :
    Closes (parts.flatMap f) (parts.flatMap g) :=
  flatMap_rel (self []) append h

/-- Moving a block to the right keeps an empty line at its end, and makes none. -/
lemma last_indent {width : Nat} :
    (Block.indent width block).getLast? = some [] ↔ block.getLast? = some [] := by
  have hshift : ∀ line : Text, shift width line = [] ↔ line = [] := by
    intro line
    cases line <;> simp [shift]
  simp only [Block.indent, List.getLast?_map, Option.map_eq_some_iff, hshift, exists_eq_right]

lemma indent (h : Closes lines block) (width : Nat) : Closes lines (indent width block) where
  shown hempty := h.shown (indent_eq_nil_iff.mp hempty)
  last hlast := h.last (last_indent.mp hlast)

/-- A line that is not empty, whatever it shows. -/
lemma line {line : Text} (hline : line ≠ []) (words : List Text) : Closes words [line] where
  shown hempty := absurd hempty (List.cons_ne_nil _ _)
  last hend := absurd (Option.some.inj hend) hline

/-- A line that is not empty, above other lines. -/
lemma cons {line : Text} (hline : line ≠ [])
    (hlast : block.getLast? = some [] → lines.getLast? = some []) (words : List Text) :
    Closes (words ++ lines) (line :: block) where
  shown hempty := absurd hempty (List.cons_ne_nil _ _)
  last hend := by
    by_cases hnone : block = []
    · rw [hnone, List.getLast?_singleton] at hend
      exact absurd (Option.some.inj hend) hline
    · rw [← List.singleton_append, List.getLast?_append_of_ne_nil _ hnone] at hend
      rw [List.getLast?_append, hlast hend, Option.some_or]

/-- A label is seen, whatever the first line behind it. -/
lemma labelled {label : Text} (hlabel : label.isBlankText = false) (h : Closes lines block)
    (words : List Text) : Closes (words ++ lines) (labelled label block) := by
  cases block with
  | nil =>
      rw [h.shown rfl]
      exact .line (Text.trimEnd_ne_nil hlabel) _
  | cons first rest =>
      have hfirst : Text.isBlankText (label ++ first) = false := by
        rw [Text.isBlankText_append, hlabel, Bool.false_and]
      refine .cons (Text.trimEnd_ne_nil hfirst) (fun hend => h.last ?_) words
      rw [List.getLast?_cons, last_indent.mp hend, Option.getD_some]

/-- An optional text behind a label. -/
lemma option (label : Text) (hlabel : label.isBlankText = false) (text : Option Text) :
    Closes (text.toList.flatMap Text.lines)
      ((text.map fun text => Block.labelled label (ofText text)).getD []) := by
  cases text with
  | none => exact self []
  | some text =>
      rw [Option.toList_some, List.flatMap_singleton]
      exact (self text.lines).labelled hlabel []

end Closes

/-- **A block that is built from texts** ends with them. -/
theorem Built.closes {texts : List Text} {block : Block} (h : Built texts block) :
    Closes (texts.flatMap Text.lines) block := by
  have hword : ∀ {line : Text}, line.isBlankText = false → line ≠ [] := by
    rintro line hline rfl
    exact absurd hline (by decide)
  induction h with
  | nil => exact .self []
  | words hline => exact .line (hword hline.2) _
  | text text =>
      rw [List.flatMap_singleton]
      exact .self text.lines
  | heading hfront text hback _ =>
      exact .line (List.append_ne_nil_of_right_ne_nil _ (hword hback.2)) _
  | append _ _ ih ihMore =>
      rw [List.flatMap_append]
      exact ih.append ihMore
  | indent _ width ih => exact ih.indent width
  | labelled hlabel _ ih => exact ih.labelled hlabel.2 []
  | @condition _ _ front back _ text hback _ ih =>
      have hshown : Text.isBlankText (front ++ text ++ back) = false := by
        rw [Text.isBlankText_append, hback.2, Bool.and_false]
      exact ih.labelled hshown text.lines

end Block

namespace Rule

lemma opening_ne_nil (rule : Rule) : rule.opening ≠ [] :=
  List.append_ne_nil_of_left_ne_nil (List.cons_ne_nil _ _) _

/-- **The lines of a rule** end with its texts. -/
theorem closes_block (rule : Rule) :
    Block.Closes (rule.texts.flatMap Text.lines) rule.block := by
  have hlines : rule.texts.flatMap Text.lines
      = rule.body.lines.take 1 ++ (rule.body.lines.drop 1 ++ rule.rationale.toList.flatMap Text.lines
        ++ rule.violation.toList.flatMap Text.lines) := by
    rw [texts, List.flatMap_cons, List.flatMap_append, List.append_assoc,
      ← List.append_assoc (List.take 1 _), List.take_append_drop]
  have hrationale := Block.Closes.option "WHY: " (by decide) rule.rationale
  have hviolation := Block.Closes.option "ON VIOLATION: " (by decide) rule.violation
  have hdetails := ((Block.Closes.self (rule.body.lines.drop 1)).append hrationale).append hviolation
  rw [block_eq, hlines]
  exact .cons rule.opening_ne_nil (hdetails.indent 2).last _

end Rule

namespace Guideline

lemma header_ne_nil (guideline : Guideline) : guideline.header ≠ [] := by
  simp [header, Block.header]

/-- **The lines of a guideline** end with its texts. -/
theorem closes_block (guideline : Guideline) :
    Block.Closes (guideline.texts.flatMap Text.lines) guideline.block := by
  have haim := Block.Closes.option "GOAL: " (by decide) guideline.goal
  have hopening : Block.Closes ((guideline.goal.toList ++ guideline.description).flatMap Text.lines)
      guideline.opening := by
    rw [List.flatMap_append]
    exact .cons guideline.header_ne_nil (haim.append (.self _)).last []
  have hsteps : Block.Closes ((guideline.phases.flatMap Phase.payloads).flatMap Text.lines)
      (guideline.steps.flatMap Step.block) := by
    rw [List.flatMap_assoc, ← flatMap_steps fun phase => phase.built_block.closes.shown]
    refine .flatMap fun step hstep => ?_
    exact step.phase.built_block.closes.labelled (isLabel_of_mem_steps hstep).2 []
  rw [block_steps, texts, List.flatMap_append]
  exact hopening.append hsteps

end Guideline

/-! ### Lines that do not end with a line feed -/

namespace Text

/-- The text does not end with a line feed. -/
def Ended (text : Text) : Prop := text.getLast? ≠ some '\n'

variable {text : Text}

/-- Trimming would take the line feed away. -/
lemma Firm.ended (h : text.Firm) : text.Ended := by
  intro hlast
  obtain ⟨front, rfl⟩ := List.getLast?_eq_some_iff.mp hlast
  have hfeed : '\n' ∈ front ++ ['\n'] := List.mem_append_right _ List.mem_cons_self
  have hshort : trimEnd (front ++ ['\n']) = trimEnd front := by
    rw [trimEnd_append, if_pos (by decide)]
  have hpart : trimEnd front <+: front := trimEnd_prefix front
  have hlength := hpart.length_le
  rw [← hshort, h hfeed, List.length_append, List.length_singleton] at hlength
  exact absurd hlength (Nat.not_succ_le_self _)

lemma ended_of_unbroken (h : '\n' ∉ text) : text.Ended := (firm_of_unbroken h).ended

lemma ended_append {back : Text} (hne : back ≠ []) (h : back.Ended) (front : Text) :
    Ended (front ++ back) := by
  rwa [Ended, List.getLast?_append_of_ne_nil _ hne]

end Text

namespace Block

/-- No line of the block ends with a line feed. -/
def Ended (block : Block) : Prop := ∀ line ∈ block, line.Ended

lemma Firm.ended {block : Block} (h : Firm block) : Ended block :=
  fun line hline => (h line hline).ended

lemma Unbroken.ended {block : Block} (h : Unbroken block) : Ended block := (Firm.of_unbroken h).ended

lemma Ended.append {block below : Block} (h : Ended block) (hbelow : Ended below) :
    Ended (block ++ below) :=
  List.forall_mem_append.mpr ⟨h, hbelow⟩

lemma ended_header (title : Text) : (header title).Ended :=
  Text.ended_append (by decide) (Text.ended_of_unbroken (by decide)) _

end Block

/-- A key may have line feeds, but it stands between brackets. -/
lemma Rule.ended_block (rule : Rule) : Block.Ended rule.block := by
  have hopening : rule.opening.Ended := by
    rw [opening]
    split
    · rw [List.append_nil, head]
      exact Text.ended_append (by decide) (Text.ended_of_unbroken (by decide)) _
    · next line rest hlines =>
      have hline : '\n' ∉ line := Text.unbroken_of_mem_lines (hlines ▸ List.mem_cons_self)
      have hspace : '\n' ∉ ' ' :: line := List.not_mem_cons_of_ne_of_not_mem (by decide) hline
      exact Text.ended_append (List.cons_ne_nil _ _) (Text.ended_of_unbroken hspace) _
  rw [block_eq]
  exact List.forall_mem_cons.mpr ⟨hopening, (rule.unbroken_details.indent 2).ended⟩

lemma Guideline.ended_block (guideline : Guideline) : Block.Ended guideline.block := by
  have haim : Block.Unbroken
      ((guideline.goal.map fun goal => Block.labelled "GOAL: " (Block.ofText goal)).getD []) :=
    .labelled_option (by decide) guideline.goal
  have hdescription : Block.Unbroken (guideline.description.flatMap Block.ofText) :=
    List.forall_mem_flatMap.mpr fun line _ => Block.Unbroken.ofText line
  have hsteps : Block.Firm (guideline.steps.flatMap Step.block) :=
    .flatMap fun step _ => step.phase.firm_block.labelled step.label
  rw [block_steps, opening]
  exact Block.Ended.append (List.forall_mem_cons.mpr
    ⟨Block.ended_header _, (haim.append hdescription).ended⟩) hsteps.ended

/-! ### Documents -/

namespace Layout

variable {rules : Registry Rule} {guidelines : Registry Guideline}

/-- Lines below one that is not empty end with a line feed when the last is empty. -/
lemma getLast?_join {block : Block} (h : Block.Ended block) (hfirst : block.head? ≠ some []) :
    (Text.join "\n" block).getLast? = some '\n' ↔ block.getLast? = some [] := by
  rcases List.eq_nil_or_concat' block with rfl | ⟨front, last, rfl⟩
  · exact iff_of_false (by simp [Text.join]) (by simp)
  have hlast : last.Ended := h last (by simp)
  cases front with
  | nil =>
      refine iff_of_false hlast fun hend => hfirst ?_
      rwa [List.nil_append, List.getLast?_singleton] at hend
  | cons first rest =>
      rw [Text.join_append (List.cons_ne_nil _ _) (List.cons_ne_nil _ _), List.getLast?_concat]
      cases last with
      | nil => exact iff_of_true (by simp [Text.join]) rfl
      | cons c last =>
          rw [Text.join, List.getLast?_append_of_ne_nil _ (List.cons_ne_nil _ _)]
          exact iff_of_false hlast (by simp)

lemma suffix_feeds {text : Text} : ['\n', '\n'] <:+ text ++ ['\n'] ↔ text.getLast? = some '\n' := by
  rw [List.getLast?_eq_some_iff]
  refine exists_congr fun front => ?_
  rw [List.append_cons, List.append_cancel_right_eq, eq_comm]

/-- Every section has a header. -/
lemma exists_header {block : Block} (h : block ∈ sections rules guidelines) :
    ∃ title below, block = Block.header title :: below := by
  rw [sections, filterMap_severitySection] at h
  rcases List.mem_append.mp h with h | h
  · obtain ⟨severity, -, rfl⟩ := List.mem_map.mp h
    exact ⟨_, _, rfl⟩
  · obtain ⟨guideline, -, rfl⟩ := List.mem_map.mp h
    exact ⟨_, _, rfl⟩

lemma head?_sections : (List.intercalate [[]] (sections rules guidelines)).head? ≠ some [] := by
  cases hsections : sections rules guidelines with
  | nil => simp
  | cons first rest =>
      obtain ⟨title, below, rfl⟩ := exists_header (hsections ▸ List.mem_cons_self)
      cases rest <;> simp [Block.header]

lemma ended_sections :
    Block.Ended (List.intercalate [[]] (sections rules guidelines)) := by
  have hblocks : ∀ block ∈ sections rules guidelines, Block.Ended block := by
    rw [sections, filterMap_severitySection]
    refine List.forall_mem_append.mpr ⟨List.forall_mem_map.mpr fun severity _ => ?_,
      List.forall_mem_map.mpr fun guideline _ => guideline.ended_block⟩
    exact List.forall_mem_cons.mpr
      ⟨Block.ended_header _, List.forall_mem_flatMap.mpr fun rule _ => rule.ended_block⟩
  intro line hline
  rcases mem_intercalate hline with rfl | ⟨block, hblock, hline⟩
  · exact Text.ended_of_unbroken List.not_mem_nil
  · exact hblocks block hblock line hline

/-- The sections end with the texts of the directives. -/
lemma closes_sections (rules : Registry Rule) (guidelines : Registry Guideline) :
    Block.Closes (lines rules guidelines) (sections rules guidelines).flatten := by
  let shown := fun severity : Severity => (rules.items.filter (·.severity == severity)).flatMap
    fun rule => rule.texts.flatMap Text.lines
  have hshown : ∀ severity ∈ Severity.all,
      (rules.items.any (·.severity == severity)) = false → shown severity = [] := by
    intro severity _ hnone
    have hempty : rules.items.filter (·.severity == severity) = [] :=
      List.filter_eq_nil_iff.mpr (List.any_eq_false.mp hnone)
    simp only [shown, hempty, List.flatMap_nil]
  rw [sections, filterMap_severitySection, List.flatten_append, ← List.flatMap_def,
    ← List.flatMap_def, lines, List.flatMap_assoc, ← Block.flatMap_filter hshown]
  refine .append (.flatMap fun severity _ => ?_) (.flatMap fun guideline _ => guideline.closes_block)
  have hrules : Block.Closes (shown severity) _ := .flatMap fun rule _ => rule.closes_block
  exact .cons (by simp [Block.header]) hrules.last []

lemma sections_eq_nil_iff :
    sections rules guidelines = [] ↔ rules.items = [] ∧ guidelines.items = [] := by
  have hrules : Severity.all.filterMap (severitySection rules) = [] ↔ rules.items = [] := by
    rw [filterMap_severitySection, List.map_eq_nil_iff, List.filter_eq_nil_iff]
    refine ⟨fun h => List.eq_nil_iff_forall_not_mem.mpr fun rule hrule => ?_, fun h => by simp [h]⟩
    refine h rule.severity (by cases rule.severity <;> decide) ?_
    exact List.any_eq_true.mpr ⟨rule, hrule, beq_self_eq_true _⟩
  have hguidelines : ordered guidelines = [] ↔ guidelines.items = [] := by
    rw [← List.length_eq_zero_iff, (ordered_perm guidelines).length_eq, List.length_eq_zero_iff]
  rw [sections, List.append_eq_nil_iff, hrules, List.map_eq_nil_iff, hguidelines]

/-- With empty lines between, the last line stays the last. -/
lemma getLast?_intercalate {blocks : List Block} (h : ∀ block ∈ blocks, block ≠ []) :
    (List.intercalate [[]] blocks).getLast? = blocks.flatten.getLast? := by
  induction blocks with
  | nil => rfl
  | cons block rest ih =>
      obtain ⟨-, hrest⟩ := List.forall_mem_cons.mp h
      cases rest with
      | nil => rw [List.intercalate_singleton, List.flatten_singleton]
      | cons next rest =>
          have hnext : next ≠ [] := hrest next List.mem_cons_self
          have hbelow : (next :: rest).flatten ≠ [] := List.append_ne_nil_of_left_ne_nil hnext _
          rw [List.intercalate_cons_cons, List.flatten_cons,
            List.getLast?_append_of_ne_nil _ (intercalate_ne_nil hnext rest), ih hrest,
            List.getLast?_append_of_ne_nil _ hbelow]

/-- **The end of a document.** A document is empty exactly when there are neither rules nor
guidelines, and every other document ends with a line feed. It ends with a second one exactly
when the last line of its last section is empty, and then the last line of all texts is
empty, in the order in which the document shows them. So a document ends with one line feed
wherever the last of these lines is not empty. -/
theorem document_end (rules : Registry Rule) (guidelines : Registry Guideline) :
    (document rules guidelines = [] ↔ rules.items = [] ∧ guidelines.items = [])
      ∧ (document rules guidelines ≠ [] → ['\n'] <:+ document rules guidelines)
      ∧ (['\n', '\n'] <:+ document rules guidelines
        ↔ (sections rules guidelines).flatten.getLast? = some [])
      ∧ (['\n', '\n'] <:+ document rules guidelines
        → (lines rules guidelines).getLast? = some []) := by
  have hempty : document rules guidelines = [] ↔ sections rules guidelines = [] := by
    refine ⟨fun h => by_contra fun hne => ?_, fun h => by rw [document, h]⟩
    rw [document_eq_concat hne] at h
    exact List.concat_ne_nil _ _ h
  have hfeeds : ['\n', '\n'] <:+ document rules guidelines
      ↔ (sections rules guidelines).flatten.getLast? = some [] := by
    by_cases h : sections rules guidelines = []
    · rw [hempty.mpr h, h]
      exact iff_of_false (by simp) (by simp)
    · rw [document_eq_concat h, suffix_feeds, getLast?_join ended_sections head?_sections,
        getLast?_intercalate (sections_ne_nil rules guidelines)]
  refine ⟨hempty.trans sections_eq_nil_iff, fun hne => ?_, hfeeds, fun h => ?_⟩
  · exact ⟨_, (document_eq_concat fun h => hne (hempty.mpr h)).symm⟩
  · exact (closes_sections rules guidelines).last (hfeeds.mp h)

/-- A text that ends with a line feed, and an empty line that has text behind it. -/
theorem document_end_report :
    let rules : Registry Rule := ⟨[{ key := "brief", body := "Be brief.\n" }]⟩
    let guidelines : Registry Guideline :=
      ⟨[{ key := "workflow", phases := [.note "Read.\n\n", .output ["Done.\n\nBye.\n"]] }]⟩
    document rules guidelines ≠ []
      ∧ ['\n'] <:+ document rules guidelines
      ∧ (lines rules guidelines).getLast? = some "Bye."
      ∧ ¬ ['\n', '\n'] <:+ document rules guidelines := by
  intro rules guidelines
  obtain ⟨hempty, hfeed, -, hlast⟩ := document_end rules guidelines
  have hne : document rules guidelines ≠ [] := fun h => absurd (hempty.mp h).1 (by decide)
  have hlines : (lines rules guidelines).getLast? = some "Bye." := by decide
  exact ⟨hne, hfeed hne, hlines, fun h => absurd ((hlast h).symm.trans hlines) (by decide)⟩

/-- A text that ends with an empty line: so does its document, which ends with two line
feeds. -/
theorem document_end_astray :
    let guideline : Guideline := { key := "workflow", phases := [.leaf "Read the task.\n\n"] }
    document ⟨[]⟩ ⟨[guideline]⟩ = "=== GUIDELINE: workflow ===\n- Read the task.\n\n"
      ∧ ['\n', '\n'] <:+ document ⟨[]⟩ ⟨[guideline]⟩ := by
  intro guideline
  have hdocument : document ⟨[]⟩ ⟨[guideline]⟩
      = "=== GUIDELINE: workflow ===\n- Read the task.\n\n" := by
    decide
  exact ⟨hdocument, "=== GUIDELINE: workflow ===\n- Read the task.".toList, hdocument.symm⟩

end Layout

end Directives
