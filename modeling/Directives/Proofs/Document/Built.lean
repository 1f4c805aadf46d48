/-
How blocks are built.

The block of a phase is built from the texts of the phase by a few steps: lines of a text
stand on their own, a text stands between words, blocks stand below one another, are moved
to the right, or stand behind a label. What each of these steps keeps holds of the lines of
every phase.

* `Text.IsLabel`: words that can stand in front of a block.
* `Block.flatMap_rel`, `Block.flatMap_zipIdx`, `Block.flatMap_filter`: parts one after another,
  numbered, or left out.
* `Block.Built`: a block is built from texts.
* `Block.Built.flatMap`, `Block.Built.titled`, `Block.Built.bulleted`, `Block.Built.branch`:
  further ways to build a block.
* `Phase.stacked_eq`, `Phase.branchBlocks_eq`, `Phase.bulletBlocks_eq`: the lines of several
  phases.
* `Phase.built_block`: the lines of a phase are built from its payloads.
-/
import Directives.Document.Block
import Directives.Proofs.Phase
import Directives.Proofs.Text

namespace Directives

/-! ### Labels -/

namespace Text

/-- The text can stand in front of a block: it is on one line and has more than blanks. -/
def IsLabel (label : Text) : Prop := '\n' ∉ label ∧ label.isBlankText = false

instance (label : Text) : Decidable label.IsLabel :=
  inferInstanceAs (Decidable ('\n' ∉ label ∧ label.isBlankText = false))

lemma isBlankText_append (front back : Text) :
    isBlankText (front ++ back) = (front.isBlankText && back.isBlankText) :=
  List.all_append

lemma IsLabel.front {back : Text} (h : back.IsLabel) {front : Text} (hfront : '\n' ∉ front) :
    IsLabel (front ++ back) := by
  refine ⟨by simp [hfront, h.1], ?_⟩
  rw [isBlankText_append, h.2, Bool.and_false]

end Text

/-! ### Parts one after another -/

namespace Block

section Parts

variable {α β : Type} {parts : List α} {f : α → List β} {g : α → Block}

/-- A relation that holds of nothing, and of what stands side by side, holds of all parts one
after another. -/
lemma flatMap_rel {R : List β → Block → Prop} (nil : R [] [])
    (append : ∀ {items more block below}, R items block → R more below →
      R (items ++ more) (block ++ below))
    (h : ∀ part ∈ parts, R (f part) (g part)) : R (parts.flatMap f) (parts.flatMap g) := by
  induction parts with
  | nil => exact nil
  | cons part rest ih =>
      obtain ⟨hpart, hrest⟩ := List.forall_mem_cons.mp h
      exact append hpart (ih hrest)

/-- What is made of the parts alone does not depend on their numbers. -/
lemma flatMap_zipIdx (f : α → List β) (number : Nat) (parts : List α) :
    ((parts.zipIdx number).flatMap fun part => f part.1) = parts.flatMap f := by
  rw [← List.flatMap_map Prod.fst f, List.zipIdx_map_fst]

/-- Parts of which nothing is made can be left out. -/
lemma flatMap_filter {keep : α → Bool} (h : ∀ part ∈ parts, keep part = false → f part = []) :
    (parts.filter keep).flatMap f = parts.flatMap f := by
  induction parts with
  | nil => rfl
  | cons part rest ih =>
      obtain ⟨hpart, hrest⟩ := List.forall_mem_cons.mp h
      rw [List.flatMap_cons, ← ih hrest]
      cases hkeep : keep part
      · rw [List.filter_cons_of_neg (by simp [hkeep]), hpart hkeep, List.nil_append]
      · rw [List.filter_cons_of_pos hkeep, List.flatMap_cons]

end Parts

/-! ### Building a block -/

/-- The block is built from the texts, in order. -/
inductive Built : List Text → Block → Prop
  /-- There are no texts and no lines. -/
  | nil : Built [] []
  /-- A line has words only. -/
  | words {line : Text} (hline : line.IsLabel) : Built [] [line]
  /-- The lines of a text stand on their own. -/
  | text (text : Text) : Built [text] (ofText text)
  /-- A text stands between words as it is, and the words behind it end the line. -/
  | heading {front back : Text} (hfront : front.IsLabel) (text : Text) (hback : back.IsLabel)
      (hend : back.trimEnd = back) : Built [text] [front ++ text ++ back]
  /-- One block stands below another. -/
  | append {texts more : List Text} {block below : Block} (above : Built texts block)
      (h : Built more below) : Built (texts ++ more) (block ++ below)
  /-- A block is moved to the right. -/
  | indent {texts : List Text} {block : Block} (h : Built texts block) (width : Nat) :
      Built texts (indent width block)
  /-- A block stands behind a label. -/
  | labelled {texts : List Text} {block : Block} {label : Text} (hlabel : label.IsLabel)
      (h : Built texts block) : Built texts (labelled label block)
  /-- A block stands behind a text between words. -/
  | condition {texts : List Text} {block : Block} {front back : Text} (hfront : front.IsLabel)
      (text : Text) (hback : back.IsLabel) (h : Built texts block) :
      Built (text :: texts) (Block.labelled (front ++ text ++ back) block)

namespace Built

variable {texts : List Text} {block : Block}

lemma flatMap {α : Type} {parts : List α} {f : α → List Text} {g : α → Block}
    (h : ∀ part ∈ parts, Built (f part) (g part)) :
    Built (parts.flatMap f) (parts.flatMap g) :=
  flatMap_rel .nil .append h

lemma titled {title : Text} (htitle : title.IsLabel) (h : Built texts block) :
    Built texts (titled title block) := by
  rw [Block.titled]
  split_ifs with hempty
  · rwa [List.isEmpty_iff.mp hempty] at h
  · exact (Built.words htitle).append (h.indent 2)

lemma bulleted (h : Built texts block) : Built texts (bulleted block) := by
  rw [Block.bulleted]
  split_ifs with hempty
  · rwa [List.isEmpty_iff.mp hempty] at h
  · exact h.labelled (by decide)

lemma branch (h : Built texts block) (number : Nat) : Built texts (branch number block) := by
  have hclosing : Text.IsLabel "] " := by decide
  exact (h.labelled (hclosing.front (by simp [Text.unbroken_ofNat]))).indent 2

end Built

end Block

/-! ### The lines of a phase -/

namespace Phase

open Block

lemma stacked_eq (items : List Phase) : stacked items = items.flatMap Phase.block := by
  induction items with
  | nil => rfl
  | cons item rest ih => rw [stacked, ih, List.flatMap_cons]

lemma bulletBlocks_eq (items : List Phase) :
    bulletBlocks items = items.flatMap fun item => bulleted item.block := by
  induction items with
  | nil => rfl
  | cons item rest ih => rw [bulletBlocks, ih, List.flatMap_cons]

lemma branchBlocks_eq (number : Nat) (branches : List Phase) :
    branchBlocks number branches
      = (branches.zipIdx number).flatMap fun part => branch part.2 part.1.block := by
  induction branches generalizing number with
  | nil => rfl
  | cons item rest ih => rw [branchBlocks, ih, List.zipIdx_cons, List.flatMap_cons]

/-- **The lines of a phase** are built from its texts, in the order in which a walk comes to
them. -/
theorem built_block (phase : Phase) : Built phase.payloads phase.block := by
  have hbehind : ∀ {label : Text} (text : Text), label.IsLabel →
      Built [text] (labelled label (ofText text)) :=
    fun text hlabel => (Built.text text).labelled hlabel
  have heach : ∀ {items : List Phase} {f : Phase → Block},
      (∀ item ∈ items, Built item.payloads (f item)) → Built (payloadsAll items) (items.flatMap f) := by
    intro items f hitems
    rw [payloadsAll_eq]
    exact .flatMap hitems
  have hlines : ∀ {lines : List Text} {f : Text → Block},
      (∀ line ∈ lines, Built [line] (f line)) → Built lines (lines.flatMap f) := by
    intro lines f h
    have hbuilt := Built.flatMap h
    rwa [List.flatMap_singleton'] at hbuilt
  induction phase using Phase.induction with
  | leaf text => exact .text text
  | sequence items ih =>
      rw [block, stacked_eq]
      exact heach ih
  | ifThen condition body ih => exact ih.condition (by decide) condition (by decide)
  | ifElse condition body otherwise ihBody ihOtherwise =>
      exact (ihBody.condition (by decide) condition (by decide)).append
        (ihOtherwise.labelled (by decide))
  | forEach source body ih =>
      exact (Built.heading (by decide) source (by decide) (by decide)).append (ih.indent 2)
  | parallel branches ih =>
      cases branches with
      | nil => exact .nil
      | cons first rest =>
          have htitle : Built [] ["PARALLEL:".toList] := .words (by decide)
          have hnote : Built [] [concurrencyNote] := .words (by decide)
          have hbranches : Built (payloadsAll (first :: rest)) (branchBlocks 1 (first :: rest)) := by
            rw [payloadsAll_eq, branchBlocks_eq, ← flatMap_zipIdx payloads 1]
            exact .flatMap fun part hpart => (ih _ (List.fst_mem_of_mem_zipIdx hpart)).branch _
          simpa [block, payloads] using (htitle.append hbranches).append hnote
  | bullets items ih =>
      rw [block, bulletBlocks_eq]
      exact heach fun item hitem => (ih item hitem).bulleted
  | abort => exact .words (by decide)
  | abortWith message => exact hbehind message (by decide)
  | output lines => exact (hlines fun line _ => .text line).titled (by decide)
  | verify lines => exact (hlines fun line _ => (Built.text line).bulleted).titled (by decide)
  | skip label => exact hbehind label (by decide)
  | note text => exact hbehind text (by decide)
  | report text => exact hbehind text (by decide)

end Phase

end Directives
