/-
Documents show what directives say.

Every line of every text of a directive stands in the document, up to the blanks at its
end: labels, bullets, numbers and margins are put in front of lines, and only blanks are
taken off behind them. The lines of one directive stand in its block in the order of its
texts, and none stands over another.

* `Text.Shows`, `Block.Shows`: lines stand in a text, or in a block.
* `Text.Shows.trimEnd`: trimming hides no line.
* `Text.shows_lines`: a text shows its lines.
* `Block.Shows.labelled` and its likes: what is put around a block hides no line.
* `Block.Built.shows`: a block shows the lines of the texts it is built from.
* `Rule.shows_block`, `Guideline.shows_block`: one directive.
* `Layout.document_shows`: the document.
-/
import Directives.Proofs.Document.Layout

namespace Directives

/-! ### Lines in a text -/

namespace Text

/-- The lines stand in the text from left to right, none over another, each at least up
to the blanks at its end. -/
def Shows : Text → List Text → Prop
  | _, [] => True
  | text, line :: rest => ∃ before after, text = before ++ line.trimEnd ++ after ∧ Shows after rest

@[simp] lemma shows_nil (text : Text) : Shows text [] := trivial

lemma shows_self (line : Text) : Shows line [line] := by
  obtain ⟨blanks, hblanks⟩ := trimEnd_prefix line
  exact ⟨[], blanks, hblanks.symm, trivial⟩

namespace Shows

variable {text more : Text} {lines others : List Text}

lemma front (h : Shows text lines) (front : Text) : Shows (front ++ text) lines := by
  cases lines with
  | nil => trivial
  | cons line rest =>
      obtain ⟨before, after, rfl, hrest⟩ := h
      exact ⟨front ++ before, after, by simp only [List.append_assoc], hrest⟩

lemma append (h : Shows text lines) (hmore : Shows more others) :
    Shows (text ++ more) (lines ++ others) := by
  induction lines generalizing text with
  | nil => exact hmore.front text
  | cons line rest ih =>
      obtain ⟨before, after, rfl, hrest⟩ := h
      exact ⟨before, after ++ more, by simp only [List.append_assoc], ih hrest⟩

lemma behind (h : Shows text lines) (back : Text) : Shows (text ++ back) lines := by
  simpa using h.append (shows_nil back)

/-- **Trimming hides no line**, as lines count up to their blanks only. -/
theorem trimEnd (h : Shows text lines) : Shows text.trimEnd lines := by
  induction lines generalizing text with
  | nil => trivial
  | cons line rest ih =>
      obtain ⟨before, after, rfl, hrest⟩ := h
      have hafter := ih hrest
      rw [trimEnd_append]
      split_ifs with hblank
      -- Nothing but blanks is left behind the line, and the lines there are blank.
      · rw [hblank] at hafter
        rw [trimEnd_append, trimEnd_trimEnd]
        split_ifs with hline
        · exact ⟨before.trimEnd, [], by simp [hline], hafter⟩
        · exact ⟨before, [], by simp, hafter⟩
      · exact ⟨before, after.trimEnd, rfl, hafter⟩

/-- Each line that is shown stands in the text. -/
lemma infix_of_mem (h : Shows text lines) {line : Text} (hline : line ∈ lines) :
    line.trimEnd <:+: text := by
  induction lines generalizing text with
  | nil => simp at hline
  | cons first rest ih =>
      obtain ⟨before, after, rfl, hrest⟩ := h
      rcases List.mem_cons.mp hline with rfl | hline
      · exact ⟨before, after, rfl⟩
      · exact (ih hrest hline).trans (List.suffix_append _ _).isInfix

end Shows

/-- **A text shows its lines.** -/
theorem shows_lines (text : Text) : Shows text text.lines := by
  induction text using lines_induction with
  | nil => trivial
  | line line _ => exact shows_self line
  | cut front ending back _ _ ih => exact (shows_self front).append (ih.front ending)

end Text

/-! ### Lines in a block -/

namespace Block

/-- The lines stand in the lines of the block, from left to right and from top to
bottom. -/
inductive Shows : Block → List Text → Prop
  | nil : Shows [] []
  | cons {text : Text} {rest : Block} {lines others : List Text} (first : text.Shows lines)
      (below : Shows rest others) : Shows (text :: rest) (lines ++ others)

namespace Shows

variable {block : Block} {lines : List Text}

/-- A block shows its lines. -/
lemma self (block : Block) : Shows block block := by
  induction block with
  | nil => exact .nil
  | cons text rest ih => exact .cons (Text.shows_self text) ih

lemma append {below : Block} {others : List Text} (h : Shows block lines)
    (hbelow : Shows below others) : Shows (block ++ below) (lines ++ others) := by
  induction h with
  | nil => exact hbelow
  | cons first _ ih =>
      rw [List.append_assoc]
      exact .cons first ih

lemma flatMap {α : Type} {parts : List α} {f : α → Block} {g : α → List Text}
    (h : ∀ part ∈ parts, Shows (f part) (g part)) : Shows (parts.flatMap f) (parts.flatMap g) :=
  @flatMap_rel _ _ parts g f (fun lines block => Shows block lines) .nil .append h

lemma indent (h : Shows block lines) (width : Nat) : Shows (Block.indent width block) lines := by
  induction h with
  | nil => exact .nil
  | @cons text rest lines others first _ ih =>
      refine .cons ?_ ih
      rw [shift]
      split_ifs
      · exact first
      · exact first.front _

/-- A label shows what it has, and hides nothing of the block behind it. -/
lemma labelled {label : Text} {words : List Text} (hlabel : label.Shows words)
    (h : Shows block lines) : Shows (Block.labelled label block) (words ++ lines) := by
  cases h with
  | nil => exact .cons hlabel.trimEnd .nil
  | cons first below =>
      rw [← List.append_assoc]
      exact .cons (hlabel.append first).trimEnd (below.indent _)

/-- A label that shows nothing. -/
lemma behind (h : Shows block lines) (label : Text) : Shows (Block.labelled label block) lines :=
  labelled (Text.shows_nil label) h

lemma eq_nil (h : Shows [] lines) : lines = [] := by
  cases h
  rfl

/-- An optional text behind a label. -/
lemma option (label : Text) (text : Option Text) :
    Shows ((text.map fun text => Block.labelled label (ofText text)).getD [])
      (text.toList.flatMap Text.lines) := by
  cases text with
  | none => exact .nil
  | some text =>
      rw [Option.toList_some, List.flatMap_singleton]
      exact (self text.lines).behind label

/-- The text of a block shows what its lines show. -/
lemma join (h : Shows block lines) (separator : Text) :
    (Text.join separator block).Shows lines := by
  induction h with
  | nil => trivial
  | @cons text rest lines others first below ih =>
      cases rest with
      | nil =>
          rw [below.eq_nil, List.append_nil]
          exact first
      | cons next rest =>
          rw [Text.join_cons (List.cons_ne_nil next rest)]
          exact (first.behind separator).append ih

end Shows

end Block

/-- **A block shows the lines of the texts** it is built from, in their order. -/
theorem Block.Built.shows {texts : List Text} {block : Block} (h : Built texts block) :
    Shows block (texts.flatMap Text.lines) := by
  induction h with
  | nil => exact .nil
  | words _ => exact .cons (Text.shows_nil _) .nil
  | text text =>
      rw [List.flatMap_singleton]
      exact Shows.self text.lines
  | @heading front back _ text _ _ =>
      exact .cons (((Text.shows_lines text).front front).behind back) .nil
  | append _ _ ih ihMore =>
      rw [List.flatMap_append]
      exact ih.append ihMore
  | indent _ width ih => exact ih.indent width
  | labelled _ _ ih => exact ih.behind _
  | @condition _ _ front back _ text _ _ ih =>
      exact Shows.labelled (((Text.shows_lines text).front front).behind back) ih

/-! ### Directives -/

namespace Rule

lemma block_ne_nil (rule : Rule) : rule.block ≠ [] := List.cons_ne_nil _ _

/-- **The lines of a rule** show the lines of its texts: of the body, of the rationale and
of the text for violations, in this order. -/
theorem shows_block (rule : Rule) : Block.Shows rule.block (rule.texts.flatMap Text.lines) := by
  have hrationale := Block.Shows.option "WHY: " rule.rationale
  have hviolation := Block.Shows.option "ON VIOLATION: " rule.violation
  rw [block, details, texts, List.flatMap_cons, List.flatMap_append]
  cases hbody : Block.ofText rule.body with
  | nil =>
      have hlines : rule.body.lines = [] := hbody
      rw [hlines, List.drop_nil, List.nil_append]
      exact .cons (Text.shows_nil rule.head) ((hrationale.append hviolation).indent 2)
  | cons line rest =>
      have hlines : rule.body.lines = [line] ++ rest := hbody
      have hfirst : (rule.head ++ ' ' :: line).Shows [line] :=
        ((Text.shows_self line).front [' ']).front rule.head
      rw [hlines, List.append_assoc, List.drop_one, List.tail_cons, List.append_assoc]
      exact .cons hfirst (((Block.Shows.self rest).append (hrationale.append hviolation)).indent 2)

end Rule

namespace Guideline

lemma block_ne_nil (guideline : Guideline) : guideline.block ≠ [] := List.cons_ne_nil _ _

/-- **The lines of a guideline** show the lines of its texts: of the goal, of the
description, and of the phases, in this order. -/
theorem shows_block (guideline : Guideline) :
    Block.Shows guideline.block (guideline.texts.flatMap Text.lines) := by
  have hgoal := Block.Shows.option "GOAL: " guideline.goal
  have hdescription : Block.Shows (guideline.description.flatMap Block.ofText)
      (guideline.description.flatMap Text.lines) := Block.Shows.self _
  -- a phase without lines has no texts with lines
  have hnone : ∀ phase : Phase, phase.block = [] → phase.payloads.flatMap Text.lines = [] := by
    intro phase hempty
    have hphase := phase.built_block.shows
    rw [hempty] at hphase
    exact hphase.eq_nil
  have hsteps : Block.Shows (guideline.steps.flatMap Step.block)
      ((guideline.phases.flatMap Phase.payloads).flatMap Text.lines) := by
    rw [List.flatMap_assoc, ← flatMap_steps hnone]
    exact .flatMap fun step _ => step.phase.built_block.shows.behind step.label
  have hopening := Block.Shows.cons (Text.shows_nil guideline.header) (hgoal.append hdescription)
  have hblock := hopening.append hsteps
  rwa [block_steps, opening, texts, List.flatMap_append, List.flatMap_append]

end Guideline

/-! ### Documents -/

namespace Layout

/-- The lines of the texts of all directives in the order of the document. -/
def lines (rules : Registry Rule) (guidelines : Registry Guideline) : List Text :=
  (Severity.all.flatMap fun severity => rules.items.filter (·.severity == severity)).flatMap
      (fun rule => rule.texts.flatMap Text.lines)
    ++ (ordered guidelines).flatMap fun guideline => guideline.texts.flatMap Text.lines

/-- The sections show the lines of all directives, section by section. -/
lemma exists_shows_sections (rules : Registry Rule) (guidelines : Registry Guideline) :
    ∃ shown, List.Forall₂ Block.Shows (sections rules guidelines) shown
      ∧ shown.flatten = lines rules guidelines := by
  have hrules : ∀ severities : List Severity, ∃ shown,
      List.Forall₂ Block.Shows (severities.filterMap (severitySection rules)) shown
        ∧ shown.flatten
          = (severities.flatMap fun severity => rules.items.filter (·.severity == severity)).flatMap
              fun rule => rule.texts.flatMap Text.lines := by
    intro severities
    induction severities with
    | nil => exact ⟨[], .nil, rfl⟩
    | cons severity rest ih =>
        obtain ⟨shown, hshown, hlines⟩ := ih
        rw [List.flatMap_cons, List.flatMap_append, ← hlines, List.filterMap_cons, severitySection]
        cases rules.items.filter (·.severity == severity) with
        | nil => exact ⟨shown, hshown, rfl⟩
        | cons rule others =>
            have hbucket : Block.Shows ((rule :: others).flatMap Rule.block)
                ((rule :: others).flatMap fun rule => rule.texts.flatMap Text.lines) :=
              Block.Shows.flatMap fun rule _ => rule.shows_block
            exact ⟨_ :: shown, .cons (.cons (Text.shows_nil _) hbucket) hshown, List.flatten_cons⟩
  obtain ⟨shown, hshown, hlines⟩ := hrules Severity.all
  refine ⟨shown ++ (ordered guidelines).map fun g => g.texts.flatMap Text.lines,
    List.rel_append hshown ?_, ?_⟩
  · rw [List.forall₂_map_left_iff, List.forall₂_map_right_iff]
    exact List.forall₂_same.mpr fun guideline _ => guideline.shows_block
  · rw [List.flatten_append, hlines, lines, ← List.flatMap_def]

/-- Sections that are set apart still show their lines. -/
lemma shows_join {blocks : List Block} {shown : List (List Text)}
    (h : List.Forall₂ Block.Shows blocks shown) :
    (Text.join "\n\n" (blocks.map (Text.join "\n"))).Shows shown.flatten := by
  induction h with
  | nil => trivial
  | @cons block lines rest others first below ih =>
      cases rest with
      | nil =>
          cases below
          simpa [Text.join] using first.join "\n"
      | cons next rest =>
          rw [List.map_cons, Text.join_cons (by simp), List.flatten_cons]
          exact ((first.join "\n").behind "\n\n").append ih

/-- The text of a section is part of the document. -/
lemma infix_document {rules : Registry Rule} {guidelines : Registry Guideline} {block : Block}
    (h : block ∈ sections rules guidelines) :
    Text.join "\n" block <:+: document rules guidelines := by
  rw [document]
  split
  · next hnone => simp [hnone] at h
  · exact (Text.infix_join_of_mem (List.mem_map_of_mem h)).trans (List.prefix_append _ _).isInfix

/-- The text of a rule is part of the document. -/
lemma infix_rule {rules : Registry Rule} {rule : Rule} (h : rule ∈ rules.items)
    (guidelines : Registry Guideline) :
    Text.join "\n" rule.block <:+: document rules guidelines := by
  have hbucket : rule ∈ rules.items.filter (·.severity == rule.severity) := by simp [h]
  obtain ⟨first, others, hcons⟩ := List.exists_cons_of_ne_nil (List.ne_nil_of_mem hbucket)
  let header : Text := Block.header (("RULES: " : Text) ++ rule.severity.label)
  have hsection : severitySection rules rule.severity
      = some (header :: (first :: others).flatMap Rule.block) := by
    rw [severitySection, hcons]
  have hmem : _ ∈ sections rules guidelines := List.mem_append_left _
    (List.mem_filterMap.mpr ⟨rule.severity, by cases rule.severity <;> decide, hsection⟩)
  obtain ⟨before, after, hsplit⟩ := List.append_of_mem hbucket
  refine (Text.infix_join rule.block_ne_nil ?_).trans (infix_document hmem)
  rw [← hcons, hsplit, List.flatMap_append, List.flatMap_cons]
  exact ⟨header :: before.flatMap Rule.block, after.flatMap Rule.block, by simp⟩

/-- The text of a guideline is part of the document. -/
lemma infix_guideline {guidelines : Registry Guideline} {guideline : Guideline}
    (h : guideline ∈ guidelines.items) (rules : Registry Rule) :
    Text.join "\n" guideline.block <:+: document rules guidelines :=
  infix_document (List.mem_append_right _
    (List.mem_map_of_mem ((ordered_perm guidelines).mem_iff.mpr h)))

/-- **Documents lose no text.** The text of each rule is part of the document and shows
the lines of the body, of the rationale and of the text for violations, in this order. The
text of each guideline is part of the document and shows the lines of the goal, of the
description, and of all its phases say, in this order and in the order in which a walk
over a phase comes to its texts. So every line of these texts stands in the document, up
to the blanks at its end; and the document shows all of them without overlap, directive
after directive. -/
theorem document_shows (rules : Registry Rule) (guidelines : Registry Guideline) :
    (∀ rule ∈ rules.items,
        let texts := rule.body :: (rule.rationale.toList ++ rule.violation.toList)
        Text.join "\n" rule.block <:+: document rules guidelines
          ∧ (Text.join "\n" rule.block).Shows (texts.flatMap Text.lines)
          ∧ ∀ text ∈ texts, ∀ line ∈ text.lines, line.trimEnd <:+: document rules guidelines)
      ∧ (∀ guideline ∈ guidelines.items,
        let texts := guideline.goal.toList ++ guideline.description
          ++ guideline.phases.flatMap Phase.visited
        Text.join "\n" guideline.block <:+: document rules guidelines
          ∧ (Text.join "\n" guideline.block).Shows (texts.flatMap Text.lines)
          ∧ ∀ text ∈ texts, ∀ line ∈ text.lines, line.trimEnd <:+: document rules guidelines)
      ∧ (document rules guidelines).Shows (lines rules guidelines) := by
  have hparts : ∀ {block : Block} {texts : List Text},
      Text.join "\n" block <:+: document rules guidelines →
      Block.Shows block (texts.flatMap Text.lines) →
      Text.join "\n" block <:+: document rules guidelines
        ∧ (Text.join "\n" block).Shows (texts.flatMap Text.lines)
        ∧ ∀ text ∈ texts, ∀ line ∈ text.lines, line.trimEnd <:+: document rules guidelines := by
    intro block texts hpart hshows
    refine ⟨hpart, hshows.join "\n", fun text htext line hline => ?_⟩
    have hmem : line ∈ texts.flatMap Text.lines := List.mem_flatMap.mpr ⟨text, htext, hline⟩
    exact ((hshows.join "\n").infix_of_mem hmem).trans hpart
  refine ⟨fun rule hrule => hparts (infix_rule hrule guidelines) rule.shows_block,
    fun guideline hguideline => hparts (infix_guideline hguideline rules) ?_, ?_⟩
  · have hvisited : Phase.visited = Phase.payloads := funext Phase.visited_eq
    rw [hvisited]
    exact guideline.shows_block
  · obtain ⟨shown, hshown, hlines⟩ := exists_shows_sections rules guidelines
    rw [document, ← hlines]
    split
    · next hnone =>
      rw [hnone] at hshown
      cases hshown
      trivial
    · exact (shows_join hshown).behind ['\n']

end Layout

end Directives
