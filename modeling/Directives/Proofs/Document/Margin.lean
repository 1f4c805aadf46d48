/-
The margin of a step.

A document is cut at every line feed into rows. The first row of a step starts with its
label. The further lines of its block stand under the text of the first, but a condition or
a source is put on its line as it is: where it has a line feed, what follows stands where
the condition or the source has it. So the further rows of a step are set in exactly when
those of all conditions and sources are.

* `Text.Inset`, `Text.Hanging`: a row is set in; the rows after the first are.
* `Text.hanging_append_cons`: a text is cut behind a character other than a space.
* `Text.Firm`, `Phase.firm_block`: texts of several rows have no blanks at their end.
* `Phase.headings`, `Phase.hanging_block`: conditions and sources with what follows them.
* `Layout.infix_rows`: the rows of a section in a document.
* `Layout.rows_steps`: the rows of the steps of a guideline.
-/
import Directives.Proofs.Document.Paragraph

namespace Directives

/-! ### The rows of a text -/

namespace Text

/-- The number of spaces a row starts with. -/
def margin (row : Text) : Nat := (row.takeWhile (· == ' ')).length

/-- The row is empty or starts with at least `width` spaces. -/
def Inset (width : Nat) (row : Text) : Prop := row = [] ∨ width ≤ row.margin

instance (width : Nat) (row : Text) : Decidable (row.Inset width) :=
  inferInstanceAs (Decidable (_ ∨ _))

/-- The rows of a text after the first. -/
def further (text : Text) : List Text := (text.splitOn '\n').tail

/-- The rows of the text after the first are set in. -/
def Hanging (width : Nat) (text : Text) : Prop := ∀ row ∈ text.further, row.Inset width

instance (width : Nat) (text : Text) : Decidable (text.Hanging width) :=
  inferInstanceAs (Decidable (∀ row ∈ text.further, row.Inset width))

variable {width : Nat} {front text : Text}

lemma splitOn_eq_cons (text : Text) :
    text.splitOn '\n' = text.takeWhile (· != '\n') :: text.further := by
  induction text with
  | nil => rfl
  | cons c rest ih =>
      rw [further, List.splitOn_cons_eq_if_modifyHead]
      split_ifs with hfeed
      · rw [List.takeWhile_cons_of_neg (by simpa using hfeed), List.tail_cons]
      · rw [List.takeWhile_cons_of_pos (by simpa using hfeed), ih, List.modifyHead_cons,
          List.tail_cons]

lemma further_of_unbroken (h : '\n' ∉ text) : text.further = [] := by
  rw [further, List.splitOn_eq_singleton h, List.tail_cons]

lemma further_append (h : '\n' ∉ front) (text : Text) :
    further (front ++ text) = text.further := by
  induction front with
  | nil => rfl
  | cons c front ih =>
      have hc : ¬ (c == '\n') := by simpa using Ne.symm (List.ne_of_not_mem_cons h)
      rw [← ih (List.not_mem_of_not_mem_cons h), further, List.cons_append,
        List.splitOn_cons_eq_if_modifyHead, if_neg hc, List.tail_modifyHead, further]

lemma hanging_of_unbroken (h : '\n' ∉ text) : text.Hanging width := by
  rw [Hanging, further_of_unbroken h]
  exact List.forall_mem_nil _

lemma hanging_append (h : '\n' ∉ front) : Hanging width (front ++ text) ↔ text.Hanging width := by
  rw [Hanging, further_append h, Hanging]

/-- Whether a row is set in shows up to its first character other than a space. -/
lemma inset_append_cons {c : Char} (h : c ≠ ' ') (front back other : Text) :
    Inset width (front ++ c :: back) ↔ Inset width (front ++ c :: other) := by
  have hmargin : ∀ back : Text, margin (front ++ c :: back) = margin front := by
    intro back
    rw [margin, margin, List.takeWhile_append, List.takeWhile_cons_of_neg (by simp [h]),
      List.append_nil]
    split_ifs with hlength
    · rw [hlength]
    · rfl
  simp [Inset, hmargin]

/-- **A text is cut behind a character** other than a space: what stands in front of it and
what stands behind it are set in apart. -/
theorem hanging_append_cons {c : Char} (hspace : c ≠ ' ') (hfeed : c ≠ '\n') (front back : Text) :
    Hanging width (front ++ c :: back) ↔ Hanging width (front ++ [c]) ∧ Hanging width back := by
  have hbreak : ∀ {d : Char}, d ≠ '\n' → '\n' ∉ [d] := fun h => by simpa using h.symm
  induction front with
  | nil =>
      have hback : Hanging width (c :: back) ↔ Hanging width back :=
        hanging_append (hbreak hfeed)
      simp [hback, hanging_of_unbroken (hbreak hfeed)]
  | cons d front ih =>
      by_cases hd : d = '\n'
      · -- a row starts in front of `c`, and whether it is set in shows there
        have hrow : ∀ back : Text, Hanging width ('\n' :: (front ++ c :: back))
            ↔ Inset width ((front ++ c :: back).takeWhile (· != '\n'))
              ∧ Hanging width (front ++ c :: back) := by
          intro back
          rw [Hanging, further, List.splitOn_cons_eq_if_modifyHead, if_pos (by decide),
            List.tail_cons, splitOn_eq_cons, List.forall_mem_cons, Hanging]
        have hinset : Inset width ((front ++ c :: back).takeWhile (· != '\n'))
            ↔ Inset width ((front ++ [c]).takeWhile (· != '\n')) := by
          rw [List.takeWhile_append, List.takeWhile_append]
          split_ifs
          · rw [List.takeWhile_cons_of_pos (by simp [hfeed]),
              List.takeWhile_cons_of_pos (by simp [hfeed])]
            exact inset_append_cons hspace _ _ _
          · rfl
        rw [hd, List.cons_append, List.cons_append, hrow, hrow, hinset, and_assoc]
        exact and_congr_right fun _ => ih
      · have hskip : ∀ text : Text, Hanging width (d :: text) ↔ Hanging width text :=
          fun _ => hanging_append (hbreak hd)
        rw [List.cons_append, List.cons_append, hskip, hskip]
        exact ih

/-! ### Texts of several rows -/

/-- A text of several rows has no blanks at its end, so trimming leaves it as it is. -/
def Firm (text : Text) : Prop := '\n' ∈ text → text.trimEnd = text

lemma firm_of_unbroken (h : '\n' ∉ text) : text.Firm := fun hmem => absurd hmem h

lemma firm_trimEnd (text : Text) : text.trimEnd.Firm := fun _ => trimEnd_trimEnd text

lemma Firm.append (h : text.Firm) (hfront : '\n' ∉ front) : Firm (front ++ text) := by
  intro hmem
  have hbreak : '\n' ∈ text := (List.mem_append.mp hmem).resolve_left hfront
  have hne : text.trimEnd ≠ [] := by
    rw [h hbreak]
    exact List.ne_nil_of_mem hbreak
  rw [trimEnd_append, if_neg hne, h hbreak]

/-- Trimming a text of one row takes no row away, and one of several rows is not trimmed. -/
lemma Firm.hanging_trimEnd (h : text.Firm) : text.trimEnd.Hanging width ↔ text.Hanging width := by
  by_cases hbreak : '\n' ∈ text
  · rw [h hbreak]
  · exact iff_of_true (hanging_of_unbroken (unbroken_trimEnd hbreak)) (hanging_of_unbroken hbreak)

end Text

/-! ### Blocks of firm lines -/

namespace Block

/-- Every line of the block is firm. -/
def Firm (block : Block) : Prop := ∀ line ∈ block, line.Firm

variable {block below : Block} {label : Text}

lemma unbroken_margin (width : Nat) : '\n' ∉ List.replicate width ' ' := by
  simp [List.mem_replicate]

namespace Firm

lemma append (h : Firm block) (hbelow : Firm below) : Firm (block ++ below) :=
  List.forall_mem_append.mpr ⟨h, hbelow⟩

lemma flatMap {α : Type} {parts : List α} {f : α → Block} (h : ∀ part ∈ parts, Firm (f part)) :
    Firm (parts.flatMap f) :=
  List.forall_mem_flatMap.mpr h

lemma of_unbroken (h : Unbroken block) : Firm block :=
  fun line hline => Text.firm_of_unbroken (h line hline)

lemma ofText (text : Text) : Firm (ofText text) := of_unbroken (Unbroken.ofText text)

lemma indent (h : Firm block) (width : Nat) : Firm (indent width block) := by
  refine List.forall_mem_map.mpr fun line hline => ?_
  rw [shift]
  split_ifs
  · exact h line hline
  · exact (h line hline).append (unbroken_margin width)

/-- A label is trimmed together with the first line behind it. -/
lemma labelled (h : Firm block) (label : Text) : Firm (labelled label block) := by
  cases block with
  | nil => exact List.forall_mem_singleton.mpr (Text.firm_trimEnd label)
  | cons first rest =>
      have hrest : Firm rest := (List.forall_mem_cons.mp h).2
      exact List.forall_mem_cons.mpr ⟨Text.firm_trimEnd _, hrest.indent _⟩

end Firm

/-- **A block that is built from texts** is firm. -/
theorem Built.firm {texts : List Text} (h : Built texts block) : Firm block := by
  induction h with
  | nil => exact List.forall_mem_nil _
  | words hline => exact List.forall_mem_singleton.mpr (Text.firm_of_unbroken hline.1)
  | text text => exact .ofText text
  | @heading front back _ text hback hend =>
      have hne : back.trimEnd ≠ [] := Text.trimEnd_ne_nil hback.2
      refine List.forall_mem_singleton.mpr fun _ => ?_
      rw [Text.trimEnd_append, if_neg hne, hend]
  | append _ _ ih ihMore => exact ih.append ihMore
  | indent _ width ih => exact ih.indent width
  | labelled _ _ ih => exact ih.labelled _
  | condition _ _ _ _ ih => exact ih.labelled _

/-! ### Blocks whose further rows are set in -/

/-- In every line of the block, the rows after the first are set in. -/
def Hanging (width : Nat) (block : Block) : Prop := ∀ line ∈ block, line.Hanging width

variable {width : Nat}

lemma hanging_cons {line : Text} :
    Hanging width (line :: below) ↔ line.Hanging width ∧ Hanging width below :=
  List.forall_mem_cons

lemma hanging_append : Hanging width (block ++ below) ↔ Hanging width block ∧ Hanging width below :=
  List.forall_mem_append

lemma hanging_flatMap {α : Type} {parts : List α} {f : α → Block} :
    Hanging width (parts.flatMap f) ↔ ∀ part ∈ parts, Hanging width (f part) :=
  List.forall_mem_flatMap

lemma hanging_of_unbroken (h : Unbroken block) : Hanging width block :=
  fun line hline => Text.hanging_of_unbroken (h line hline)

lemma hanging_shift (margin : Nat) (line : Text) :
    (shift margin line).Hanging width ↔ line.Hanging width := by
  rw [shift]
  split_ifs
  · rfl
  · exact Text.hanging_append (unbroken_margin margin)

lemma hanging_indent (margin : Nat) : Hanging width (indent margin block) ↔ Hanging width block := by
  rw [Hanging, indent, List.forall_mem_map, Hanging]
  exact forall₂_congr fun line _ => hanging_shift margin line

/-- A label of one row sets nothing in and moves nothing out. -/
lemma hanging_labelled (hlabel : '\n' ∉ label) (hfirm : Firm block) :
    Hanging width (labelled label block) ↔ Hanging width block := by
  cases block with
  | nil =>
      have htrim : '\n' ∉ label.trimEnd := Text.unbroken_trimEnd hlabel
      exact iff_of_true (hanging_of_unbroken (List.forall_mem_singleton.mpr htrim))
        (List.forall_mem_nil _)
  | cons first rest =>
      have hfirst : (label ++ first).Firm :=
        (List.forall_mem_cons.mp hfirm).1.append hlabel
      rw [labelled, hanging_cons, hanging_cons, hanging_indent, hfirst.hanging_trimEnd,
        Text.hanging_append hlabel]

lemma hanging_titled {title : Text} (htitle : '\n' ∉ title) :
    Hanging width (titled title block) ↔ Hanging width block := by
  rw [titled]
  split_ifs with hempty
  · rw [List.isEmpty_iff.mp hempty]
  · rw [hanging_cons, hanging_indent]
    exact and_iff_right (Text.hanging_of_unbroken htitle)

lemma hanging_bulleted (hfirm : Firm block) :
    Hanging width (bulleted block) ↔ Hanging width block := by
  rw [bulleted]
  split_ifs with hempty
  · rw [List.isEmpty_iff.mp hempty]
  · exact hanging_labelled (by decide) hfirm

lemma hanging_branch (hfirm : Firm block) (number : Nat) :
    Hanging width (branch number block) ↔ Hanging width block := by
  rw [branch, hanging_indent]
  exact hanging_labelled (by simp [Text.unbroken_ofNat]) hfirm

/-- A condition brings its own rows, with the word behind it. -/
lemma hanging_condition (condition : Text) (hfirm : Firm block) :
    Hanging width (labelled (("IF " : Text) ++ condition ++ " THEN ") block)
      ↔ (condition ++ " THEN").Hanging width ∧ Hanging width block := by
  have hword : ∀ back : Text, ("IF " : Text) ++ condition ++ " THEN " ++ back
      = ("IF " : Text) ++ (condition ++ " THE") ++ 'N' :: ([' '] ++ back) := by
    intro back
    simp
  have hcut : ∀ back : Text, Text.Firm back →
      (Text.Hanging width (Text.trimEnd (("IF " : Text) ++ condition ++ " THEN " ++ back))
        ↔ (condition ++ " THEN").Hanging width ∧ back.Hanging width) := by
    intro back hback
    have hspace : Text.Firm ([' '] ++ back) := hback.append (by decide)
    have hbehind : Text.Hanging width ([' '] ++ back) ↔ back.Hanging width :=
      Text.hanging_append (by decide)
    have hthen : ("IF " : Text) ++ (condition ++ " THE") ++ ['N']
        = ("IF " : Text) ++ (condition ++ " THEN") := by
      simp
    rw [hword, Text.trimEnd_append_cons (by decide), Text.hanging_append_cons (by decide) (by decide),
      hspace.hanging_trimEnd, hbehind, hthen, Text.hanging_append (by decide)]
  cases block with
  | nil =>
      have hempty := hcut [] (Text.firm_of_unbroken List.not_mem_nil)
      rw [List.append_nil] at hempty
      rw [labelled, hanging_cons, hempty, and_assoc]
      exact and_congr_right fun _ => iff_of_true
        ⟨List.forall_mem_nil _, List.forall_mem_nil _⟩ (List.forall_mem_nil _)
  | cons first rest =>
      rw [labelled, hanging_cons, hanging_cons, hanging_indent,
        hcut first (List.forall_mem_cons.mp hfirm).1, and_assoc]

/-- A source brings its own rows, with the colon behind it. -/
lemma hanging_source (source : Text) :
    Text.Hanging width (("FOR EACH " : Text) ++ source ++ [':'])
      ↔ (source ++ [':']).Hanging width := by
  rw [List.append_assoc]
  exact Text.hanging_append (by decide)

end Block

/-! ### The lines of a phase -/

namespace Phase

open Block

mutual

/-- The conditions and sources of a tree in visiting order, each with what follows it on its
line. -/
def headings : Phase → List Text
  | leaf _ => []
  | sequence items => headingsAll items
  | ifThen condition body => (condition ++ " THEN") :: body.headings
  | ifElse condition body otherwise =>
      (condition ++ " THEN") :: (body.headings ++ otherwise.headings)
  | forEach source body => (source ++ [':']) :: body.headings
  | parallel branches => headingsAll branches
  | bullets items => headingsAll items
  | abort => []
  | abortWith _ => []
  | output _ => []
  | verify _ => []
  | skip _ => []
  | note _ => []
  | report _ => []

/-- The conditions and sources of several trees in order. -/
def headingsAll : List Phase → List Text
  | [] => []
  | item :: rest => item.headings ++ headingsAll rest

end

lemma headingsAll_eq (items : List Phase) : headingsAll items = items.flatMap headings := by
  induction items with
  | nil => rfl
  | cons item rest ih => rw [headingsAll, ih, List.flatMap_cons]

/-- The lines of a phase are firm. -/
lemma firm_block (phase : Phase) : Block.Firm phase.block := phase.built_block.firm

lemma hanging_branchBlocks {width : Nat} (number : Nat) (branches : List Phase) :
    Block.Hanging width (branchBlocks number branches)
      ↔ ∀ branch ∈ branches, Block.Hanging width branch.block := by
  induction branches generalizing number with
  | nil => exact iff_of_true (List.forall_mem_nil _) (List.forall_mem_nil _)
  | cons item rest ih =>
      rw [branchBlocks, hanging_append, hanging_branch item.firm_block, List.forall_mem_cons]
      exact and_congr_right fun _ => ih (number + 1)

/-- **The lines of a phase**, at any depth, are set in behind their line feeds exactly when
its conditions and sources are. -/
theorem hanging_block {width : Nat} (phase : Phase) :
    Block.Hanging width phase.block ↔ ∀ heading ∈ phase.headings, heading.Hanging width := by
  have hnone : ∀ {block : Block}, Block.Unbroken block →
      (Block.Hanging width block ↔ ∀ heading ∈ ([] : List Text), heading.Hanging width) :=
    fun h => iff_of_true (hanging_of_unbroken h) (List.forall_mem_nil _)
  have heach : ∀ items : List Phase,
      (∀ item ∈ items,
        Block.Hanging width item.block ↔ ∀ heading ∈ item.headings, heading.Hanging width) →
      ((∀ item ∈ items, Block.Hanging width item.block)
        ↔ ∀ heading ∈ headingsAll items, heading.Hanging width) := by
    intro items hitems
    rw [headingsAll_eq, List.forall_mem_flatMap]
    exact forall₂_congr hitems
  induction phase using Phase.induction with
  | leaf text => exact hnone (.ofText text)
  | sequence items ih =>
      rw [block, stacked_eq, hanging_flatMap, headings]
      exact heach items ih
  | ifThen condition body ih =>
      rw [block, hanging_condition condition body.firm_block, headings, List.forall_mem_cons]
      exact and_congr_right fun _ => ih
  | ifElse condition body otherwise ihBody ihOtherwise =>
      rw [block, hanging_append, hanging_condition condition body.firm_block,
        hanging_labelled (by decide) otherwise.firm_block, headings, List.forall_mem_cons,
        List.forall_mem_append, and_assoc]
      exact and_congr_right fun _ => and_congr ihBody ihOtherwise
  | forEach source body ih =>
      rw [block, hanging_cons, hanging_source, hanging_indent, headings, List.forall_mem_cons]
      exact and_congr_right fun _ => ih
  | parallel branches ih =>
      cases branches with
      | nil => exact hnone (List.forall_mem_nil _)
      | cons first rest =>
          have htitle : Text.Hanging width "PARALLEL:" := Text.hanging_of_unbroken (by decide)
          have hnote : Block.Hanging width [concurrencyNote] :=
            hanging_of_unbroken (List.forall_mem_singleton.mpr (by decide))
          rw [block, List.isEmpty_cons, if_neg (by decide), hanging_append, hanging_cons,
            and_iff_right htitle, and_iff_left hnote, hanging_branchBlocks, headings]
          exact heach _ ih
  | bullets items ih =>
      rw [block, bulletBlocks_eq, hanging_flatMap, headings]
      exact (forall₂_congr fun item _ => hanging_bulleted item.firm_block).trans (heach items ih)
  | abort => exact hnone (List.forall_mem_singleton.mpr (by decide))
  | abortWith message => exact hnone ((Unbroken.ofText message).labelled (by decide))
  | output lines =>
      rw [block, hanging_titled (by decide)]
      exact hnone (List.forall_mem_flatMap.mpr fun line _ => Unbroken.ofText line)
  | verify lines =>
      rw [block, hanging_titled (by decide), hanging_flatMap]
      refine iff_of_true (fun line _ => ?_) (List.forall_mem_nil _)
      exact (hanging_bulleted (.ofText line)).mpr (hanging_of_unbroken (.ofText line))
  | skip label => exact hnone ((Unbroken.ofText label).labelled (by decide))
  | note text => exact hnone ((Unbroken.ofText text).labelled (by decide))
  | report text => exact hnone ((Unbroken.ofText text).labelled (by decide))

end Phase

/-! ### The rows of a step -/

namespace Block

lemma rows_append (block below : Block) : rows (block ++ below) = block.rows ++ below.rows :=
  List.flatMap_append

lemma rows_cons (line : Text) (below : Block) :
    rows (line :: below) = line.takeWhile (· != '\n') :: (line.further ++ below.rows) := by
  rw [rows, List.flatMap_cons, Text.splitOn_eq_cons, List.cons_append, ← rows]

/-- A block is moved to the right row by row, but for what is behind its line feeds. -/
lemma inset_rows_indent {width : Nat} {block : Block} :
    (∀ row ∈ (indent width block).rows, row.Inset width) ↔ Hanging width block := by
  have hfirst : ∀ line : Text, Text.Inset width ((shift width line).takeWhile (· != '\n')) := by
    intro line
    rw [shift]
    split_ifs with hempty
    · rw [List.isEmpty_iff.mp hempty]
      exact .inl rfl
    · right
      rw [List.takeWhile_append_of_pos (by simp [List.mem_replicate]), Text.margin,
        List.takeWhile_append_of_pos (by simp [List.mem_replicate]), List.length_append,
        List.length_replicate]
      exact Nat.le_add_right _ _
  rw [rows, List.forall_mem_flatMap, indent, List.forall_mem_map, Hanging]
  refine forall₂_congr fun line _ => ?_
  rw [Text.splitOn_eq_cons, List.forall_mem_cons, and_iff_right (hfirst line)]
  exact hanging_shift width line

end Block

namespace Guideline

/-- **The rows of a step.** The first starts with the label, up to the blank at the end of the
label when the phase starts with blanks only. The further ones are set in under the text of
the first exactly when those of all conditions and sources are. -/
theorem Step.rows_block {step : Step} (hlabel : '\n' ∉ step.label) (hblock : step.phase.block ≠ []) :
    ∃ first further, step.block.rows = first :: further
      ∧ (step.label <+: first ∨ first = step.label.trimEnd)
      ∧ ((∀ row ∈ further, row.Inset step.label.length)
        ↔ ∀ heading ∈ step.phase.headings, heading.Hanging step.label.length) := by
  obtain ⟨line, rest, hlines⟩ := List.exists_cons_of_ne_nil hblock
  have hfirm : Block.Firm (line :: rest) := hlines ▸ step.phase.firm_block
  have hline : Text.Firm (step.label ++ line) := (List.forall_mem_cons.mp hfirm).1.append hlabel
  rw [block, hlines, Block.labelled, Block.rows_cons]
  refine ⟨_, _, rfl, ?_, ?_⟩
  · rw [Text.trimEnd_append]
    split_ifs
    · right
      exact List.takeWhile_eq_self_iff.mpr fun c hc =>
        bne_iff_ne.mpr (ne_of_mem_of_not_mem hc (Text.unbroken_trimEnd hlabel))
    · left
      rw [List.takeWhile_append_of_pos fun c hc => bne_iff_ne.mpr (ne_of_mem_of_not_mem hc hlabel)]
      exact List.prefix_append _ _
  · rw [← step.phase.hanging_block, hlines, Block.hanging_cons, List.forall_mem_append,
      Block.inset_rows_indent, ← Text.hanging_append hlabel, ← hline.hanging_trimEnd]
    rfl

end Guideline

/-! ### The rows of a document -/

namespace Layout

variable {rules : Registry Rule} {guidelines : Registry Guideline}

lemma intercalate_sections_ne_nil (h : sections rules guidelines ≠ []) :
    List.intercalate [[]] (sections rules guidelines) ≠ [] := by
  have hne := sections_ne_nil rules guidelines
  obtain ⟨first, rest, hsections⟩ := List.exists_cons_of_ne_nil h
  rw [hsections] at hne ⊢
  exact intercalate_ne_nil (hne first List.mem_cons_self) rest

/-- A document is its sections with an empty line between neighbours, and a line feed. -/
lemma document_eq_concat (h : sections rules guidelines ≠ []) :
    document rules guidelines
      = Text.join "\n" (List.intercalate [[]] (sections rules guidelines)) ++ ['\n'] := by
  rw [← join_paragraphs (sections_ne_nil rules guidelines), document]
  split
  · next hnone => exact absurd hnone h
  · rfl

/-- **The rows of a section** are rows of the document, one after another. -/
theorem infix_rows {block : Block} (h : block ∈ sections rules guidelines) :
    block.rows <:+: (document rules guidelines).splitOn '\n' := by
  let lines : Block := List.intercalate [[]] (sections rules guidelines) ++ [[]]
  have hrows : (document rules guidelines).splitOn '\n' = lines.rows := by
    have hne : sections rules guidelines ≠ [] := List.ne_nil_of_mem h
    have hjoin : document rules guidelines = Text.join "\n" lines := by
      rw [document_eq_concat hne, Text.join_append (intercalate_sections_ne_nil hne) (by simp)]
      simp [Text.join]
    rw [hjoin, ← Block.join_rows, Text.join_eq_intercalate]
    exact List.splitOn_intercalate '\n' (Block.unbroken_rows lines) (Block.rows_ne_nil (by simp [lines]))
  obtain ⟨i, hi⟩ := List.mem_iff_getElem?.mp h
  have hmem : block ∈ (sections rules guidelines).intersperse [[]] :=
    List.mem_of_getElem? ((List.getElem?_intersperse_two_mul (i := i)).trans hi)
  have hblock : block <:+: lines :=
    (List.infix_of_mem_flatten hmem).trans (List.prefix_append _ _).isInfix
  rw [hrows]
  exact hblock.flatMap _

/-- **The margin of a step.** The steps of a guideline, the phases that have lines behind
their numbers or bullets, are rows of the document, one step after another. The first row of
a step starts with its label, up to the blank at the end of the label when nothing but blanks
follows. Every further row of the step is empty or starts with at least as many spaces as the
label is wide exactly when this holds of what follows each line feed in the conditions and
sources of the phase. So it does where these are of one line each, whatever the other texts. -/
theorem rows_steps {guideline : Guideline} (h : guideline ∈ guidelines.items)
    (rules : Registry Rule) :
    (guideline.steps.flatMap fun step => step.block.rows)
        <:+: (document rules guidelines).splitOn '\n'
      ∧ ∀ step ∈ guideline.steps, ∃ first further, step.block.rows = first :: further
        ∧ (step.label <+: first ∨ first = step.label.trimEnd)
        ∧ ((∀ row ∈ further, row.Inset step.label.length)
          ↔ ∀ heading ∈ step.phase.headings, heading.Hanging step.label.length) := by
  refine ⟨?_, fun step hstep => ?_⟩
  · have hblock : guideline.block ∈ sections rules guidelines :=
      List.mem_append_right _ (List.mem_map_of_mem ((ordered_perm guidelines).mem_iff.mpr h))
    refine List.IsInfix.trans ?_ (infix_rows hblock)
    rw [guideline.block_steps, Block.rows_append, Block.rows, Block.rows, List.flatMap_assoc]
    exact (List.suffix_append _ _).isInfix
  · obtain ⟨-, -, hlines⟩ := Guideline.of_mem_steps hstep
    exact Guideline.Step.rows_block (Guideline.isLabel_of_mem_steps hstep).1 hlines

/-- A guideline with texts of several lines, read row by row. -/
theorem rows_steps_review :
    let loop : Guideline.Step :=
      ⟨"- ", .forEach "file" (.ifThen "it is new" (.leaf "Read it.\n\nReport."))⟩
    let guideline : Guideline :=
      { key := "review", phases := [.note "Be brief.\nBe kind.", .bullets [], loop.phase] }
    guideline ∈ (⟨[guideline]⟩ : Registry Guideline).items
      ∧ (["- NOTE: Be brief.", "        Be kind.", "- FOR EACH file:",
          "    IF it is new THEN Read it.", "", "                      Report."] :
          List String).map String.toList
        <:+: (document ⟨[]⟩ ⟨[guideline]⟩).splitOn '\n'
      ∧ loop ∈ guideline.steps
      ∧ ∃ first further, loop.block.rows = first :: further
        ∧ (loop.label <+: first ∨ first = loop.label.trimEnd)
        ∧ ∀ row ∈ further, row.Inset 2 := by
  intro loop guideline
  have hmem : guideline ∈ (⟨[guideline]⟩ : Registry Guideline).items := List.mem_cons_self
  have hloop : loop ∈ guideline.steps := .tail _ (.head _)
  obtain ⟨hrows, hsteps⟩ := rows_steps hmem ⟨[]⟩
  obtain ⟨first, further, hblock, hfirst, hinset⟩ := hsteps loop hloop
  exact ⟨hmem, hrows, hloop, first, further, hblock, hfirst, hinset.mpr (by decide)⟩

/-- A condition of two lines: its second line stands at the margin, where it reads as the
start of a phase of its own. -/
theorem rows_steps_astray :
    let step : Guideline.Step :=
      ⟨"1. ", .ifThen "the task is ready\n2. nobody objects" (.leaf "Start the task.")⟩
    let guideline : Guideline :=
      { key := "workflow", isExample := true, phases := [step.phase, .leaf "Report."] }
    step ∈ guideline.steps
      ∧ (document ⟨[]⟩ ⟨[guideline]⟩).splitOn '\n'
        = (["=== GUIDELINE: workflow ===", "1. IF the task is ready",
            "2. nobody objects THEN Start the task.", "2. Report.", ""] :
            List String).map String.toList
      ∧ ∃ row ∈ step.block.rows.tail, ¬ row.Inset step.label.length := by
  intro step guideline
  exact ⟨.head _, by decide, "2. nobody objects THEN Start the task.", by decide, by decide⟩

end Layout

end Directives
