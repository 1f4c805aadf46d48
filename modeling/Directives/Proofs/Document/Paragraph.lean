/-
Documents read back.

A document is cut at its line feeds into lines, and at its empty lines into paragraphs.
When no key has a line feed and no text an empty line, the paragraphs are the sections:
labels, bullets, numbers, margins and trimming leave no line empty. A condition or a source
may have line feeds of its own, so a line of a block may come out as several lines; a line
of a rule never does, and only its first line stands at the margin.

* `Text.Solid`: no line of a text is empty, where every line feed ends a line.
* `Text.Solid.between`, `Text.Solid.trimEnd`, `Text.Solid.filled`: its laws.
* `Block.Built.solid`: a block that is built from such texts.
* `Rule.solid_block`, `Guideline.solid_block`: one directive.
* `Rule.filter_block`: the line of a rule at the margin.
* `Layout.paragraphs`: a document cut into paragraphs.
* `Layout.paragraphs_document`: the paragraphs of a document.
-/
import Directives.Proofs.Document.Shown

namespace Directives

/-! ### Texts without empty lines -/

namespace Text

/-- No two line feeds of the text stand side by side. -/
def Spread (text : Text) : Prop := text.IsChain fun c d => c ≠ '\n' ∨ d ≠ '\n'

/-- No line of the text is empty: a line feed stands neither at its start, nor at its end,
nor beside another one. -/
structure Solid (text : Text) : Prop where
  start : ∃ c ∈ text.head?, c ≠ '\n'
  stop : ∃ c ∈ text.getLast?, c ≠ '\n'
  spread : text.Spread

variable {text front middle back label : Text}

lemma spread_of_unbroken (h : '\n' ∉ text) : text.Spread := by
  induction text with
  | nil => exact .nil
  | cons c rest ih =>
      rw [List.mem_cons, not_or] at h
      obtain ⟨hfeed, hrest⟩ := h
      exact List.isChain_cons.mpr ⟨fun _ _ => .inl (Ne.symm hfeed), ih hrest⟩

lemma solid_of_unbroken (hne : text ≠ []) (h : '\n' ∉ text) : text.Solid where
  start := ⟨text.head hne, List.head?_eq_some_head hne, fun hfeed => h (hfeed ▸ List.head_mem hne)⟩
  stop := ⟨text.getLast hne, List.getLast?_eq_some_getLast hne,
    fun hfeed => h (hfeed ▸ List.getLast_mem hne)⟩
  spread := spread_of_unbroken h

lemma IsLabel.solid (h : label.IsLabel) : label.Solid := by
  obtain ⟨hbreak, hshown⟩ := h
  refine solid_of_unbroken ?_ hbreak
  rintro rfl
  exact absurd hshown (by decide)

/-- A line feed in front of a text with lines that are not empty. -/
lemma spread_feed (h : [] ∉ text.lines) (hspread : text.Spread) : Spread ('\n' :: text) := by
  refine List.isChain_cons.mpr ⟨fun c hc => .inr ?_, hspread⟩
  rintro rfl
  obtain ⟨rest, rfl⟩ := List.head?_eq_some_iff.mp hc
  exact h (by simp [lines])

/-- Line feeds do not come to stand side by side behind a text without any. -/
lemma spread_behind (h : '\n' ∉ front) (hback : back.Spread) : Spread (front ++ back) := by
  refine List.isChain_append.mpr ⟨spread_of_unbroken h, hback, fun c hc _ _ => .inl ?_⟩
  rintro rfl
  exact h (List.mem_of_getLast? hc)

/-- A text whose lines after the first are not empty has no line feeds side by side. -/
lemma spread_of_tail_lines : [] ∉ text.lines.tail → text.Spread := by
  induction text using lines_induction with
  | nil => exact fun _ => .nil
  | line line h => exact fun _ => spread_of_unbroken h
  | cut front ending back h hending ih =>
      intro hlines
      have hback : Spread ('\n' :: back) :=
        spread_feed hlines (ih fun htail => hlines (List.mem_of_mem_tail htail))
      rcases hending with rfl | rfl
      · exact spread_behind h hback
      · have hreturn : Spread ('\r' :: '\n' :: back) :=
          List.isChain_cons.mpr ⟨fun _ _ => .inl (by decide), hback⟩
        exact spread_behind h hreturn

lemma spread_of_lines (h : [] ∉ text.lines) : text.Spread :=
  spread_of_tail_lines fun htail => h (List.mem_of_mem_tail htail)

lemma solid_of_mem_lines {line : Text} (h : [] ∉ text.lines) (hline : line ∈ text.lines) :
    line.Solid :=
  solid_of_unbroken (fun hempty => h (hempty ▸ hline)) (unbroken_of_mem_lines hline)

lemma trimEnd_ne_nil (h : text.isBlankText = false) : text.trimEnd ≠ [] := by
  intro hempty
  rw [isBlankText, List.all_eq_true.mpr (trimEnd_eq_nil_iff.mp hempty)] at h
  exact absurd h (by decide)

namespace Solid

lemma ne_nil (h : text.Solid) : text ≠ [] := by
  rintro rfl
  obtain ⟨c, hc, -⟩ := h.start
  exact absurd hc (by simp)

lemma spread_append (h : front.Solid) (hback : back.Spread) : (front ++ back).Spread := by
  obtain ⟨last, hlast, hfeed⟩ := h.stop
  refine List.isChain_append.mpr ⟨h.spread, hback, fun c hc d _ => .inl ?_⟩
  rwa [Option.mem_unique hc hlast]

lemma append_spread (hfront : front.Spread) (h : back.Solid) : (front ++ back).Spread := by
  obtain ⟨first, hfirst, hfeed⟩ := h.start
  refine List.isChain_append.mpr ⟨hfront, h.spread, fun c _ d hd => .inr ?_⟩
  rwa [Option.mem_unique hd hfirst]

/-- What stands in the middle of a text may start and end with a line feed. -/
theorem between (hfront : front.Solid) (hmiddle : middle.Spread) (hback : back.Solid) :
    (front ++ middle ++ back).Solid where
  start := by
    obtain ⟨c, hc, hfeed⟩ := hfront.start
    exact ⟨c, by simp [Option.mem_def.mp hc], hfeed⟩
  stop := by
    obtain ⟨c, hc, hfeed⟩ := hback.stop
    exact ⟨c, by simp [Option.mem_def.mp hc], hfeed⟩
  spread := by
    rw [List.append_assoc]
    exact hfront.spread_append (hback.append_spread hmiddle)

lemma append (hfront : front.Solid) (hback : back.Solid) : (front ++ back).Solid := by
  simpa using hfront.between .nil hback

/-- A margin in front of a text. -/
lemma shift (h : text.Solid) (width : Nat) : (Block.shift width text).Solid := by
  rw [Block.shift]
  split_ifs
  · exact h
  · cases width with
    | zero => exact h
    | succ width =>
        have hmargin : '\n' ∉ List.replicate (width + 1) ' ' := by simp [List.mem_replicate]
        exact (solid_of_unbroken (by simp) hmargin).append h

/-- **Trimming leaves no line empty** unless it leaves nothing. -/
theorem trimEnd (h : text.Solid) (hshown : text.isBlankText = false) : text.trimEnd.Solid := by
  have hne : text.trimEnd ≠ [] := trimEnd_ne_nil hshown
  obtain ⟨blanks, hblanks⟩ := trimEnd_prefix text
  obtain ⟨c, hc, hfeed⟩ := h.start
  have hlast := List.rdropWhile_last_not isBlank text hne
  refine ⟨⟨c, ?_, hfeed⟩, ⟨_, List.getLast?_eq_some_getLast hne, ?_⟩,
    h.spread.prefix ⟨blanks, hblanks⟩⟩
  · rw [← hblanks, List.head?_append_of_ne_nil _ hne] at hc
    exact hc
  · intro hbreak
    have hblank : isBlank '\n' = true := by decide
    exact hlast (hbreak ▸ hblank)

/-- Between line feeds, a solid text still has no two of them side by side. -/
lemma framed (h : text.Solid) : Spread ('\n' :: (text ++ ['\n'])) := by
  obtain ⟨first, hfirst, hfeed⟩ := h.start
  have hback : Spread (text ++ ['\n']) := h.spread_append (List.isChain_singleton _)
  refine List.isChain_cons.mpr ⟨fun c hc => .inr ?_, hback⟩
  rw [List.head?_append_of_ne_nil _ h.ne_nil] at hc
  rwa [Option.mem_unique hc hfirst]

/-- **A solid text has no empty lines**, where it is cut at every line feed. -/
theorem filled (h : text.Solid) : [] ∉ text.splitOn '\n' := by
  intro hempty
  obtain ⟨before, after, hcut⟩ := List.append_of_mem hempty
  have hframed := h.framed
  obtain ⟨rest, hrest⟩ : ∃ rest, after.flatMap ('\n' :: ·) ++ ['\n'] = '\n' :: rest := by
    cases after <;> simp
  rw [← List.cons_append, ← join_splitOn text, cons_join (List.splitOn_ne_nil _ _), hcut,
    List.flatMap_append, List.flatMap_cons, List.append_assoc, List.append_assoc, hrest] at hframed
  have hfeeds := (List.isChain_append_cons_cons.mp hframed).2.1
  exact hfeeds.elim (absurd rfl) (absurd rfl)

end Solid

end Text

/-! ### Blocks without empty lines -/

namespace Block

/-- No line of the block comes out with an empty line. -/
def Solid (block : Block) : Prop := ∀ text ∈ block, text.Solid

namespace Solid

variable {block below : Block} {label : Text}

lemma nil : Solid [] := List.forall_mem_nil _

lemma cons {first : Text} (hfirst : first.Solid) (h : Solid block) : Solid (first :: block) :=
  List.forall_mem_cons.mpr ⟨hfirst, h⟩

lemma append (h : Solid block) (hbelow : Solid below) : Solid (block ++ below) :=
  List.forall_mem_append.mpr ⟨h, hbelow⟩

lemma flatMap {α : Type} {parts : List α} {f : α → Block} (h : ∀ part ∈ parts, Solid (f part)) :
    Solid (parts.flatMap f) :=
  List.forall_mem_flatMap.mpr h

lemma ofText {text : Text} (h : [] ∉ text.lines) : Solid (ofText text) :=
  fun _ hline => Text.solid_of_mem_lines h hline

lemma indent (h : Solid block) (width : Nat) : Solid (Block.indent width block) :=
  List.forall_mem_map.mpr fun text htext => (h text htext).shift width

/-- **A label leaves no line empty**, as something is to be seen of it. -/
theorem labelled (hlabel : label.Solid) (hshown : label.isBlankText = false) (h : Solid block) :
    Solid (Block.labelled label block) := by
  cases block with
  | nil => exact cons (hlabel.trimEnd hshown) nil
  | cons first rest =>
      obtain ⟨hfirst, hrest⟩ := List.forall_mem_cons.mp h
      have hboth : Text.isBlankText (label ++ first) = false := by
        rw [Text.isBlankText_append, hshown, Bool.false_and]
      exact cons ((hlabel.append hfirst).trimEnd hboth) (indent hrest _)

lemma behind (h : Solid block) (hlabel : label.IsLabel) : Solid (Block.labelled label block) :=
  labelled hlabel.solid hlabel.2 h

/-- A text behind a label. -/
lemma labelled_ofText {text : Text} (htext : [] ∉ text.lines) (hlabel : label.IsLabel) :
    Solid (Block.labelled label (Block.ofText text)) :=
  (ofText htext).behind hlabel

/-- An optional text behind a label. -/
lemma labelled_option {text : Option Text} (htext : ∀ words ∈ text.toList, [] ∉ words.lines)
    (hlabel : label.IsLabel) :
    Solid ((text.map fun text => Block.labelled label (Block.ofText text)).getD []) := by
  cases text with
  | none => exact nil
  | some text => exact labelled_ofText (htext text List.mem_cons_self) hlabel

end Solid

end Block

/-! ### Blocks without line feeds -/

namespace Block

/-- Every line of the block comes out as one line. -/
def Unbroken (block : Block) : Prop := ∀ line ∈ block, '\n' ∉ line

namespace Unbroken

variable {block below : Block}

lemma append (h : Unbroken block) (hbelow : Unbroken below) : Unbroken (block ++ below) :=
  List.forall_mem_append.mpr ⟨h, hbelow⟩

lemma ofText (text : Text) : Unbroken (ofText text) := fun _ => Text.unbroken_of_mem_lines

lemma indent (h : Unbroken block) (width : Nat) : Unbroken (Block.indent width block) := by
  refine List.forall_mem_map.mpr fun line hline => ?_
  rw [shift]
  split_ifs
  · exact h line hline
  · simp [List.mem_replicate, h line hline]

lemma labelled {label : Text} (hlabel : '\n' ∉ label) (h : Unbroken block) :
    Unbroken (Block.labelled label block) := by
  cases block with
  | nil => exact List.forall_mem_singleton.mpr (Text.unbroken_trimEnd hlabel)
  | cons first rest =>
      obtain ⟨hfirst, hrest⟩ := List.forall_mem_cons.mp h
      have hboth : '\n' ∉ label ++ first := by simp [hlabel, hfirst]
      exact List.forall_mem_cons.mpr ⟨Text.unbroken_trimEnd hboth, indent hrest _⟩

lemma labelled_option {label : Text} (hlabel : '\n' ∉ label) (text : Option Text) :
    Unbroken ((text.map fun text => Block.labelled label (Block.ofText text)).getD []) := by
  cases text with
  | none => exact List.forall_mem_nil _
  | some text => exact (ofText text).labelled hlabel

end Unbroken

end Block

/-! ### Phases -/

/-- **A block that is built from texts** is solid when no text has an empty line. -/
theorem Block.Built.solid {texts : List Text} {block : Block} (h : Built texts block)
    (hlines : ∀ text ∈ texts, [] ∉ text.lines) : Solid block := by
  induction h with
  | nil => exact .nil
  | words hline => exact .cons hline.solid .nil
  | text text => exact .ofText (hlines text List.mem_cons_self)
  | heading hfront text hback _ =>
      have hspread := Text.spread_of_lines (hlines text List.mem_cons_self)
      exact .cons (hfront.solid.between hspread hback.solid) .nil
  | append _ _ ih ihMore =>
      obtain ⟨htexts, hmore⟩ := List.forall_mem_append.mp hlines
      exact (ih htexts).append (ihMore hmore)
  | indent _ width ih => exact (ih hlines).indent width
  | labelled hlabel _ ih => exact (ih hlines).behind hlabel
  | @condition _ _ front back hfront text hback _ ih =>
      obtain ⟨htext, htexts⟩ := List.forall_mem_cons.mp hlines
      have hshown : Text.isBlankText (front ++ text ++ back) = false := by
        rw [Text.isBlankText_append, hback.2, Bool.and_false]
      exact .labelled (hfront.solid.between (Text.spread_of_lines htext) hback.solid) hshown
        (ih htexts)

/-! ### Directives -/

namespace Rule

variable {rule : Rule}

/-- The first line of a rule: its head, and the first line of its body, if it has one. -/
def opening (rule : Rule) : Text :=
  rule.head ++ match rule.body.lines with
    | [] => []
    | line :: _ => ' ' :: line

lemma block_eq (rule : Rule) : rule.block = rule.opening :: Block.indent 2 rule.details := by
  rw [block, opening, Block.ofText]
  cases rule.body.lines with
  | nil => rw [List.append_nil]
  | cons line rest => rfl

lemma unbroken_details (rule : Rule) : Block.Unbroken rule.details := by
  have hbody : Block.Unbroken ((Block.ofText rule.body).drop 1) :=
    fun line hline => Block.Unbroken.ofText rule.body line (List.mem_of_mem_drop hline)
  exact (hbody.append (.labelled_option (by decide) rule.rationale)).append
    (.labelled_option (by decide) rule.violation)

/-- Every line of a rule comes out as one line. -/
lemma unbroken_block (hkey : '\n' ∉ rule.key) : Block.Unbroken rule.block := by
  have hhead : '\n' ∉ rule.head := by simp [head, hkey]
  have hopening : '\n' ∉ rule.opening := by
    rw [opening]
    split
    · simp [hhead]
    · next line rest hlines =>
      have hline : '\n' ∉ line := Text.unbroken_of_mem_lines (hlines ▸ List.mem_cons_self)
      simp [hhead, hline]
  rw [block_eq]
  exact List.forall_mem_cons.mpr ⟨hopening, rule.unbroken_details.indent 2⟩

lemma solid_details (htexts : ∀ text ∈ rule.texts, [] ∉ text.lines) :
    Block.Solid rule.details := by
  obtain ⟨hbody, hothers⟩ := List.forall_mem_cons.mp htexts
  obtain ⟨hrationale, hviolation⟩ := List.forall_mem_append.mp hothers
  have hrest : Block.Solid ((Block.ofText rule.body).drop 1) :=
    fun line hline => Block.Solid.ofText hbody line (List.mem_of_mem_drop hline)
  exact (hrest.append (.labelled_option hrationale (by decide))).append
    (.labelled_option hviolation (by decide))

/-- **The lines of a rule** are solid when none of its texts has an empty line. -/
theorem solid_block (hkey : '\n' ∉ rule.key) (htexts : ∀ text ∈ rule.texts, [] ∉ text.lines) :
    Block.Solid rule.block := by
  have hunbroken := unbroken_block hkey
  rw [block_eq] at hunbroken ⊢
  have hopening : rule.opening.Solid :=
    Text.solid_of_unbroken (by simp [opening, head]) (hunbroken _ List.mem_cons_self)
  exact .cons hopening ((solid_details htexts).indent 2)

/-- **The margin of a rule.** Only its first line starts with something else than a
space. -/
theorem filter_block (htexts : ∀ text ∈ rule.texts, [] ∉ text.lines) :
    rule.block.filter (·.head? != some ' ') = [rule.opening] := by
  have hopening : rule.opening.head? = some '-' := rfl
  have hdetails : (Block.indent 2 rule.details).filter (·.head? != some ' ') = [] := by
    refine List.filter_eq_nil_iff.mpr (List.forall_mem_map.mpr fun line hline => ?_)
    have hne : line ≠ [] := (solid_details htexts line hline).ne_nil
    rw [Block.shift, if_neg (by simp [hne])]
    simp
  rw [block_eq, List.filter_cons_of_pos (by simp [hopening]), hdetails]

end Rule

namespace Guideline

variable {guideline : Guideline}

lemma unbroken_header (hkey : '\n' ∉ guideline.key) : '\n' ∉ guideline.header := by
  simp [header, Block.header, hkey]

/-- **The lines of a guideline** are solid when none of its texts has an empty line. -/
theorem solid_block (hkey : '\n' ∉ guideline.key)
    (htexts : ∀ text ∈ guideline.texts, [] ∉ text.lines) : Block.Solid guideline.block := by
  obtain ⟨hothers, hpayloads⟩ := List.forall_mem_append.mp htexts
  obtain ⟨hgoal, hdescription⟩ := List.forall_mem_append.mp hothers
  have hheader : guideline.header.Solid :=
    Text.solid_of_unbroken (by simp [header, Block.header]) (unbroken_header hkey)
  have hsteps : Block.Solid (guideline.steps.flatMap Step.block) := by
    refine .flatMap fun step hstep => ?_
    obtain ⟨-, hphase, -⟩ := of_mem_steps hstep
    have hlines : Block.Solid step.phase.block := step.phase.built_block.solid fun text htext =>
      hpayloads text (List.mem_flatMap.mpr ⟨step.phase, hphase, htext⟩)
    exact hlines.behind (isLabel_of_mem_steps hstep)
  have hlines : Block.Solid (guideline.description.flatMap Block.ofText) :=
    .flatMap fun line hline => .ofText (hdescription line hline)
  have haim : Block.Solid ((guideline.goal.map fun goal =>
      Block.labelled "GOAL: " (Block.ofText goal)).getD []) :=
    .labelled_option hgoal (by decide)
  rw [block_steps]
  exact (Block.Solid.cons hheader (haim.append hlines)).append hsteps

end Guideline

/-! ### The lines of a block in a document -/

namespace Block

/-- The lines that a block comes out as. -/
def rows (block : Block) : List Text := block.flatMap (List.splitOn '\n')

lemma rows_eq_self {block : Block} (h : Unbroken block) : block.rows = block := by
  have hline : block.flatMap (List.splitOn '\n') = block.flatMap ([·]) :=
    List.flatMap_congr fun line hline => List.splitOn_eq_singleton (h line hline)
  rw [rows, hline, List.flatMap_singleton']

lemma rows_cons_of_unbroken {line : Text} (h : '\n' ∉ line) (below : Block) :
    rows (line :: below) = line :: rows below := by
  rw [rows, List.flatMap_cons, List.splitOn_eq_singleton h, ← rows, List.singleton_append]

lemma rows_ne_nil {block : Block} (h : block ≠ []) : block.rows ≠ [] := by
  obtain ⟨first, rest, rfl⟩ := List.exists_cons_of_ne_nil h
  rw [rows, List.flatMap_cons]
  simp [List.splitOn_ne_nil]

lemma unbroken_rows (block : Block) : Unbroken block.rows :=
  List.forall_mem_flatMap.mpr fun _ _ _ => Text.unbroken_of_mem_splitOn

lemma Solid.filled {block : Block} (h : Solid block) : [] ∉ block.rows := by
  intro hempty
  obtain ⟨text, htext, hempty⟩ := List.mem_flatMap.mp hempty
  exact (h text htext).filled hempty

/-- The text of a block is the text of its lines in the document. -/
lemma join_rows (block : Block) : Text.join "\n" block.rows = Text.join "\n" block := by
  induction block with
  | nil => rfl
  | cons text rest ih =>
      rw [rows, List.flatMap_cons, ← rows]
      cases rest with
      | nil =>
          rw [rows, List.flatMap_nil, List.append_nil]
          exact text.join_splitOn
      | cons next rest =>
          have hrest : rows (next :: rest) ≠ [] := rows_ne_nil (List.cons_ne_nil next rest)
          rw [Text.join_append (List.splitOn_ne_nil _ _) hrest, ih, Text.join_splitOn]
          exact (Text.join_cons (List.cons_ne_nil next rest)).symm

end Block

/-! ### Documents -/

namespace Layout

/-- The paragraphs of a document: its lines without the final line feed, cut at the lines
that have no character. A text without a final line feed is no document with sections. -/
def paragraphs (document : Text) : List (List Text) :=
  match Text.dropEnd? "\n" document with
  | none => []
  | some text => (text.splitOn '\n').splitOn []

lemma paragraphs_concat (text : Text) :
    paragraphs (text ++ ['\n']) = (text.splitOn '\n').splitOn [] := by
  have hdrop : Text.dropEnd? "\n" (text ++ ['\n']) = some text := by
    simp [Text.dropEnd?, List.isSuffixOf_iff_suffix]
  rw [paragraphs, hdrop]

/-- The lines of parts with an empty line between neighbours. -/
lemma mem_intercalate {parts : List (List Text)} {line : Text}
    (h : line ∈ List.intercalate [[]] parts) : line = [] ∨ ∃ part ∈ parts, line ∈ part := by
  induction parts with
  | nil => simp at h
  | cons part rest ih =>
      cases rest with
      | nil => exact .inr ⟨part, List.mem_cons_self, by simpa using h⟩
      | cons next rest =>
          rw [List.intercalate_cons_cons, List.append_assoc, List.mem_append, List.mem_append,
            List.mem_singleton] at h
          rcases h with hpart | hempty | hrest
          · exact .inr ⟨part, List.mem_cons_self, hpart⟩
          · exact .inl hempty
          · exact (ih hrest).imp_right fun ⟨other, hother, hline⟩ =>
              ⟨other, List.mem_cons_of_mem part hother, hline⟩

lemma intercalate_ne_nil {part : List Text} (h : part ≠ []) (rest : List (List Text)) :
    List.intercalate [[]] (part :: rest) ≠ [] := by
  cases rest with
  | nil => simpa using h
  | cons next rest => simp [List.intercalate_cons_cons]

/-- Texts set apart by one empty line are their lines with empty lines between. -/
lemma join_paragraphs {parts : List (List Text)} (h : ∀ part ∈ parts, part ≠ []) :
    Text.join "\n\n" (parts.map (Text.join "\n"))
      = Text.join "\n" (List.intercalate [[]] parts) := by
  induction parts with
  | nil => rfl
  | cons part rest ih =>
      obtain ⟨hpart, hrest⟩ := List.forall_mem_cons.mp h
      cases rest with
      | nil => simp [Text.join]
      | cons next rest =>
          have hnext : List.intercalate [[]] (next :: rest) ≠ [] :=
            intercalate_ne_nil (List.forall_mem_cons.mp hrest).1 rest
          rw [List.map_cons, Text.join_cons (by simp), ih hrest, List.intercalate_cons_cons,
            Text.join_append (by simp) hnext, Text.join_append hpart (by simp)]
          simp [Text.join]

/-- Solid blocks that are set apart are read back. -/
theorem paragraphs_join {blocks : List Block} (hblocks : blocks ≠ [])
    (hne : ∀ block ∈ blocks, block ≠ []) (hsolid : ∀ block ∈ blocks, Block.Solid block) :
    paragraphs (Text.join "\n\n" (blocks.map (Text.join "\n")) ++ ['\n'])
      = blocks.map Block.rows := by
  have hrows : blocks.map (Text.join "\n") = (blocks.map Block.rows).map (Text.join "\n") := by
    rw [List.map_map]
    exact List.map_congr_left fun block _ => (Block.join_rows block).symm
  have hparts : ∀ part ∈ blocks.map Block.rows, part ≠ [] :=
    List.forall_mem_map.mpr fun block hblock => Block.rows_ne_nil (hne block hblock)
  have hunbroken : ∀ line ∈ List.intercalate [[]] (blocks.map Block.rows), '\n' ∉ line := by
    intro line hline
    rcases mem_intercalate hline with rfl | ⟨part, hpart, hline⟩
    · exact List.not_mem_nil
    · obtain ⟨block, -, rfl⟩ := List.mem_map.mp hpart
      exact block.unbroken_rows line hline
  have hfilled : ∀ part ∈ blocks.map Block.rows, [] ∉ part :=
    List.forall_mem_map.mpr fun block hblock => (hsolid block hblock).filled
  have hall : List.intercalate [[]] (blocks.map Block.rows) ≠ [] := by
    obtain ⟨first, rest, rfl⟩ := List.exists_cons_of_ne_nil hblocks
    exact intercalate_ne_nil (hparts _ List.mem_cons_self) _
  have hlines : (Text.join "\n" (List.intercalate [[]] (blocks.map Block.rows))).splitOn '\n'
      = List.intercalate [[]] (blocks.map Block.rows) := by
    rw [Text.join_eq_intercalate]
    exact List.splitOn_intercalate '\n' hunbroken hall
  rw [paragraphs_concat, hrows, join_paragraphs hparts, hlines]
  exact List.splitOn_intercalate [] hfilled (by simpa using hblocks)

variable {rules : Registry Rule} {guidelines : Registry Guideline}

/-- The sections of the severities, by the severities that have rules. -/
lemma filterMap_severitySection (rules : Registry Rule) (severities : List Severity) :
    severities.filterMap (severitySection rules)
      = (severities.filter fun severity => rules.items.any (·.severity == severity)).map
          fun severity => Block.header (("RULES: " : Text) ++ severity.label)
            :: (rules.items.filter (·.severity == severity)).flatMap Rule.block := by
  induction severities with
  | nil => rfl
  | cons severity rest ih =>
      rw [List.filterMap_cons, List.filter_cons, severitySection, ih]
      cases hbucket : rules.items.filter (·.severity == severity) with
      | nil =>
          have hnone : rules.items.any (·.severity == severity) = false := by
            rw [List.any_eq_false]
            exact fun rule hrule => List.filter_eq_nil_iff.mp hbucket rule hrule
          rw [if_neg (by simp [hnone])]
      | cons rule others =>
          have hmem : rule ∈ rules.items.filter (·.severity == severity) :=
            hbucket ▸ List.mem_cons_self
          have hsome : rules.items.any (·.severity == severity) = true :=
            List.any_eq_true.mpr ⟨rule, List.mem_filter.mp hmem⟩
          rw [if_pos hsome, List.map_cons, hbucket]

lemma isLabel_header (severity : Severity) :
    (Block.header (("RULES: " : Text) ++ severity.label)).IsLabel := by
  cases severity <;> decide

lemma sections_ne_nil (rules : Registry Rule) (guidelines : Registry Guideline) :
    ∀ block ∈ sections rules guidelines, block ≠ [] := by
  rw [sections, filterMap_severitySection]
  exact List.forall_mem_append.mpr ⟨List.forall_mem_map.mpr fun _ _ => List.cons_ne_nil _ _,
    List.forall_mem_map.mpr fun guideline _ => guideline.block_ne_nil⟩

/-- The lines of every section are solid. -/
lemma solid_sections
    (hrules : ∀ rule ∈ rules.items, '\n' ∉ rule.key ∧ ∀ text ∈ rule.texts, [] ∉ text.lines)
    (hguidelines : ∀ guideline ∈ guidelines.items,
      '\n' ∉ guideline.key ∧ ∀ text ∈ guideline.texts, [] ∉ text.lines) :
    ∀ block ∈ sections rules guidelines, Block.Solid block := by
  rw [sections, filterMap_severitySection]
  refine List.forall_mem_append.mpr ⟨List.forall_mem_map.mpr fun severity _ => ?_,
    List.forall_mem_map.mpr fun guideline hguideline => ?_⟩
  · refine .cons (isLabel_header severity).solid (.flatMap fun rule hrule => ?_)
    obtain ⟨hkey, htexts⟩ := hrules rule (List.mem_of_mem_filter hrule)
    exact Rule.solid_block hkey htexts
  · obtain ⟨hkey, htexts⟩ :=
      hguidelines guideline ((ordered_perm guidelines).mem_iff.mp hguideline)
    exact guideline.solid_block hkey htexts

/-- The paragraphs of a document are its sections. -/
lemma paragraphs_eq_sections (hsolid : ∀ block ∈ sections rules guidelines, Block.Solid block) :
    paragraphs (document rules guidelines) = (sections rules guidelines).map Block.rows := by
  rw [document]
  split
  · next hnone =>
    rw [hnone]
    rfl
  · next hsome => exact paragraphs_join hsome (sections_ne_nil rules guidelines) hsolid

/-- **Documents are read back.** When no key has a line feed and no text an empty line, the
paragraphs of a document are one section for each severity that has rules, from critical to
low, and then one for each guideline in the order of registration, the one for error
handling last, each under its own header. In the section of a severity, the lines that do
not start with a space are the first lines of the rules of the severity, each once and in
the order of registration. -/
theorem paragraphs_document
    (hrules : ∀ rule ∈ rules.items, '\n' ∉ rule.key ∧ ∀ text ∈ rule.texts, [] ∉ text.lines)
    (hguidelines : ∀ guideline ∈ guidelines.items,
      '\n' ∉ guideline.key ∧ ∀ text ∈ guideline.texts, [] ∉ text.lines) :
    paragraphs (document rules guidelines)
        = (([.critical, .high, .medium, .low] : List Severity).filter fun severity =>
              rules.items.any (·.severity == severity)).map
            (fun severity => Block.header (("RULES: " : Text) ++ severity.label)
              :: (rules.items.filter (·.severity == severity)).flatMap Rule.block)
          ++ (guidelines.items.filter (·.key != ("error-handling" : Text))
              ++ guidelines.items.filter (·.key == ("error-handling" : Text))).map
            (fun guideline => guideline.header :: Block.rows guideline.block.tail)
      ∧ ∀ severity,
        ((rules.items.filter (·.severity == severity)).flatMap Rule.block).filter
            (·.head? != some ' ')
          = (rules.items.filter (·.severity == severity)).map Rule.opening := by
  have hsolid := solid_sections hrules hguidelines
  refine ⟨?_, fun severity => ?_⟩
  · rw [paragraphs_eq_sections hsolid, sections, filterMap_severitySection, List.map_append,
      List.map_map, List.map_map]
    refine congrArg₂ (· ++ ·) (List.map_congr_left fun severity _ => ?_)
      (List.map_congr_left fun guideline hguideline => ?_)
    · exact Block.rows_eq_self (List.forall_mem_cons.mpr ⟨(isLabel_header severity).1,
        List.forall_mem_flatMap.mpr fun rule hrule =>
          Rule.unbroken_block (hrules rule (List.mem_of_mem_filter hrule)).1⟩)
    · have hkey := (hguidelines guideline ((ordered_perm guidelines).mem_iff.mp hguideline)).1
      exact Block.rows_cons_of_unbroken (guideline.unbroken_header hkey) guideline.block.tail
  · rw [List.filter_flatMap, List.map_eq_flatMap]
    refine List.flatMap_congr fun rule hrule => ?_
    exact Rule.filter_block (hrules rule (List.mem_of_mem_filter hrule)).2

/-- A document of three rules and two guidelines, read back. A condition has a line feed of
its own. -/
theorem paragraphs_document_workflow :
    let rules : Registry Rule :=
      ⟨[{ key := "tests-pass", body := "All tests must pass.", rationale := some "Trust.\nSpeed." },
        { key := "no-force", severity := .critical, violation := some "Stop." },
        { key := "small", body := "Keep it small.\n Split the rest." }]⟩
    let guidelines : Registry Guideline :=
      ⟨[{ key := "error-handling", phases := [.abortWith "Give up."] },
        { key := "workflow", goal := some "Validate.",
          phases := [.ifThen "tests\nfail" (.report "the failure")] }]⟩
    (∀ rule ∈ rules.items, '\n' ∉ rule.key ∧ ∀ text ∈ rule.texts, [] ∉ text.lines)
      ∧ (∀ guideline ∈ guidelines.items,
        '\n' ∉ guideline.key ∧ ∀ text ∈ guideline.texts, [] ∉ text.lines)
      ∧ paragraphs (document rules guidelines)
        = ([["=== RULES: CRITICAL ===", "- [no-force]", "  ON VIOLATION: Stop."],
            ["=== RULES: MEDIUM ===", "- [tests-pass] All tests must pass.", "  WHY: Trust.",
              "       Speed.", "- [small] Keep it small.", "   Split the rest."],
            ["=== GUIDELINE: workflow ===", "GOAL: Validate.", "- IF tests",
              "fail THEN REPORT: the failure"],
            ["=== GUIDELINE: error-handling ===", "- ABORT: Give up."]] :
            List (List String)).map (·.map String.toList)
      ∧ ((rules.items.filter (·.severity == .medium)).flatMap Rule.block).filter
          (·.head? != some ' ')
        = (["- [tests-pass] All tests must pass.", "- [small] Keep it small."] :
            List String).map String.toList := by
  intro rules guidelines
  have hrules : ∀ rule ∈ rules.items,
      '\n' ∉ rule.key ∧ ∀ text ∈ rule.texts, [] ∉ text.lines := by
    decide
  have hguidelines : ∀ guideline ∈ guidelines.items,
      '\n' ∉ guideline.key ∧ ∀ text ∈ guideline.texts, [] ∉ text.lines := by
    decide
  obtain ⟨hparagraphs, hmargin⟩ := paragraphs_document hrules hguidelines
  exact ⟨hrules, hguidelines, hparagraphs.trans (by decide), (hmargin .medium).trans (by decide)⟩

/-- An empty line in a text cuts its section. -/
example : (paragraphs (document ⟨[]⟩ ⟨[{ key := "a", goal := some "b\n\nc" }]⟩)).length = 2 := by
  decide

end Layout

end Directives
