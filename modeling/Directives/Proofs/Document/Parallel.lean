/-
Parallel phases in a block.

The branches of a parallel phase stand in order below a title, each behind its number, and
below the last one stands a note that the reader is to wait for all of them. Nothing that is
put around a block makes this note or takes it apart: it stands in the lines of a phase once
for each parallel phase in it that has branches, and as often as its texts have it.

* `Block.notes`: how often the note stands in lines.
* `Phase.parallels`: the parallel phases of a tree.
* `Phase.notes_block`: the notes in the lines of a phase.
* `Block.HoldsAt`, `Block.Holds`: blocks that stand in another, under a title.
* `Phase.holds_block`: the parallel phases in the lines of a phase.
* `Phase.parallels_rendered`: where nothing but parallel phases brings the note.
-/
import Directives.Proofs.Document.Built
import Directives.Proofs.Text.Count

namespace Directives

/-! ### Notes in lines -/

namespace Block

/-- How often the note below branches stands in the lines. -/
def notes (lines : List Text) : Nat := (lines.map (Text.occurrences concurrencyNote)).sum

variable {block : Block} {label : Text}

lemma notes_cons (line : Text) (below : Block) :
    notes (line :: below) = Text.occurrences concurrencyNote line + notes below := rfl

lemma notes_append (block below : Block) : notes (block ++ below) = notes block + notes below := by
  rw [notes, List.map_append, List.sum_append, notes, notes]

lemma notes_flatMap {α : Type} (f : α → Block) (parts : List α) :
    notes (parts.flatMap f) = (parts.map fun part => notes (f part)).sum := by
  induction parts with
  | nil => rfl
  | cons part rest ih => rw [List.flatMap_cons, notes_append, ih, List.map_cons, List.sum_cons]

lemma notes_ofText (text : Text) :
    notes (ofText text) = Text.occurrences concurrencyNote text :=
  Text.sum_occurrences_lines (by decide) (by decide) (by decide) text

lemma notes_indent (width : Nat) (block : Block) : notes (indent width block) = notes block := by
  have hmargin : ¬ Text.Overlaps (List.replicate width ' ') concurrencyNote := fun h =>
    absurd (List.eq_of_mem_replicate (Text.Overlaps.mem_of_cons h)) (by decide)
  have hline : ∀ line : Text, Text.occurrences concurrencyNote (shift width line)
      = Text.occurrences concurrencyNote line := by
    intro line
    rw [shift]
    split_ifs
    · rfl
    · exact Text.occurrences_front hmargin line
  simp only [notes, indent, List.map_map, Function.comp_def, hline]

lemma notes_trimEnd (line : Text) :
    Text.occurrences concurrencyNote line.trimEnd = Text.occurrences concurrencyNote line :=
  Text.occurrences_trimEnd (by decide) (by decide) line

/-- A label brings its own notes, whatever stands behind it. -/
lemma notes_labelled {count : Nat}
    (h : ∀ line : Text, Text.occurrences concurrencyNote (label ++ line)
      = count + Text.occurrences concurrencyNote line) (block : Block) :
    notes (labelled label block) = count + notes block := by
  cases block with
  | nil =>
      have hlabel := h []
      rw [List.append_nil] at hlabel
      rw [labelled, notes_cons, notes_trimEnd, hlabel]
      rfl
  | cons first rest =>
      rw [labelled, notes_cons, notes_trimEnd, h, notes_indent, notes_cons, Nat.add_assoc]

/-- A label within which the note cannot start brings none. -/
lemma notes_behind (h : ¬ label.Overlaps concurrencyNote) (block : Block) :
    notes (labelled label block) = notes block := by
  have hfront : ∀ line : Text, Text.occurrences concurrencyNote (label ++ line)
      = 0 + Text.occurrences concurrencyNote line :=
    fun line => (Text.occurrences_front h line).trans (Nat.zero_add _).symm
  rw [notes_labelled hfront, Nat.zero_add]

lemma notes_titled {title : Text} (h : ¬ concurrencyNote <:+: title) (block : Block) :
    notes (titled title block) = notes block := by
  rw [titled]
  split_ifs with hempty
  · rw [List.isEmpty_iff.mp hempty]
  · rw [notes_cons, Text.occurrences_eq_zero_iff.mpr h, notes_indent, Nat.zero_add]

lemma notes_bulleted (block : Block) : notes (bulleted block) = notes block := by
  rw [bulleted]
  split_ifs with hempty
  · rw [List.isEmpty_iff.mp hempty]
  · exact notes_behind (by decide) block

/-- The note starts with a letter, and no letter stands in a number. -/
lemma notes_branch (number : Nat) (block : Block) : notes (branch number block) = notes block := by
  have hnumber : ¬ Text.Overlaps (Text.ofNat number) concurrencyNote := fun h =>
    absurd (Nat.isDigit_of_mem_toDigits (by decide) (by decide) (Text.Overlaps.mem_of_cons h))
      (by decide)
  have hlabel : ∀ line : Text, Text.occurrences concurrencyNote
      (("[BRANCH " : Text) ++ Text.ofNat number ++ "] " ++ line)
        = 0 + Text.occurrences concurrencyNote line := by
    intro line
    rw [List.append_assoc, List.append_assoc, Text.occurrences_front (by decide),
      Text.occurrences_front hnumber, Text.occurrences_front (by decide), Nat.zero_add]
  rw [branch, notes_indent, notes_labelled hlabel, Nat.zero_add]

/-- A condition stands between words that part it from the lines behind it. -/
lemma notes_condition (condition : Text) (block : Block) :
    notes (labelled (("IF " : Text) ++ condition ++ " THEN ") block)
      = Text.occurrences concurrencyNote condition + notes block := by
  refine notes_labelled (fun line => ?_) block
  rw [List.append_assoc, List.append_assoc, Text.occurrences_front (by decide),
    Text.occurrences_parted (by decide) (by decide)]

/-- A source stands between words. -/
lemma notes_source (source : Text) (below : Block) :
    notes ((("FOR EACH " : Text) ++ source ++ [':']) :: below)
      = Text.occurrences concurrencyNote source + notes below := by
  have hnothing : Text.occurrences concurrencyNote [] = 0 := Text.occurrences_nil (by decide)
  rw [notes_cons, List.append_assoc, Text.occurrences_front (by decide),
    ← List.append_nil ([':'] : Text), Text.occurrences_parted (by decide) (by decide), hnothing,
    Nat.add_zero]

end Block

/-! ### Blocks that stand in another -/

namespace Block

/-- At the line `place` of the block stands the title, behind other words or none, and below
it stand the lines, moved to the right together. -/
def HoldsAt (title : Text) (lines : Block) (place : Nat) (block : Block) : Prop :=
  ∃ before front width after, before.length = place
    ∧ block = before ++ ((front ++ title) :: indent width lines ++ after)

/-- Several blocks stand in the block, each below the title, from top to bottom. -/
def Holds (title : Text) (parts : List Block) (block : Block) : Prop :=
  ∃ places : List Nat, places.Pairwise (· < ·)
    ∧ List.Forall₂ (fun lines place => HoldsAt title lines place block) parts places

variable {title : Text} {lines block other : Block} {place : Nat} {parts others : List Block}

lemma indent_zero (block : Block) : indent 0 block = block := by
  have hshift : ∀ line : Text, shift 0 line = line := by
    intro line
    rw [shift]
    split_ifs <;> rfl
  rw [indent, List.map_congr_left fun line _ => hshift line, List.map_id']

lemma shift_of_ne_nil {line : Text} (h : line ≠ []) (width : Nat) :
    shift width line = List.replicate width ' ' ++ line :=
  if_neg (by simpa using h)

lemma indent_indent (width margin : Nat) (block : Block) :
    indent margin (indent width block) = indent (margin + width) block := by
  have hshift : ∀ line : Text, shift margin (shift width line) = shift (margin + width) line := by
    intro line
    cases line with
    | nil => rfl
    | cons c rest =>
        rw [shift_of_ne_nil (List.cons_ne_nil c rest), shift_of_ne_nil (by simp),
          shift_of_ne_nil (List.cons_ne_nil c rest), ← List.append_assoc,
          List.replicate_append_replicate]
  rw [indent, indent, indent, List.map_map]
  exact List.map_congr_left fun line _ => hshift line

namespace HoldsAt

lemma lt_length (h : HoldsAt title lines place block) : place < block.length := by
  obtain ⟨before, front, width, after, rfl, rfl⟩ := h
  simp

lemma append (h : HoldsAt title lines place block) (below : Block) :
    HoldsAt title lines place (block ++ below) := by
  obtain ⟨before, front, width, after, hplace, rfl⟩ := h
  exact ⟨before, front, width, after ++ below, hplace, by simp⟩

lemma under (h : HoldsAt title lines place block) (above : Block) :
    HoldsAt title lines (above.length + place) (above ++ block) := by
  obtain ⟨before, front, width, after, rfl, rfl⟩ := h
  exact ⟨above ++ before, front, width, after, by simp, by simp⟩

lemma indent (h : HoldsAt title lines place block) (hne : title ≠ []) (margin : Nat) :
    HoldsAt title lines place (indent margin block) := by
  obtain ⟨before, front, width, after, hplace, rfl⟩ := h
  refine ⟨Block.indent margin before, List.replicate margin ' ' ++ front, margin + width,
    Block.indent margin after, by simp [Block.indent, hplace], ?_⟩
  rw [← indent_indent]
  simp [Block.indent, shift, hne]

/-- A label stands in front of the title or of a line above it. -/
lemma labelled (h : HoldsAt title lines place block) (hne : title ≠ [])
    (hend : title.trimEnd = title) (label : Text) :
    HoldsAt title lines place (labelled label block) := by
  obtain ⟨before, front, width, after, hplace, rfl⟩ := h
  cases before with
  -- The title is on the first line: the label comes in front of it, and nothing is trimmed.
  | nil =>
      refine ⟨[], label ++ front, label.length + width, Block.indent label.length after, hplace, ?_⟩
      rw [List.nil_append, List.cons_append, Block.labelled, ← List.append_assoc,
        Text.trimEnd_append, hend, if_neg hne, ← indent_indent]
      simp [Block.indent]
  | cons first before =>
      have hrest : HoldsAt title lines before.length
          (before ++ ((front ++ title) :: Block.indent width lines ++ after)) :=
        ⟨before, front, width, after, rfl, rfl⟩
      have hunder := (hrest.indent hne label.length).under [Text.trimEnd (label ++ first)]
      rwa [List.length_singleton, Nat.add_comm, ← List.length_cons, hplace] at hunder

end HoldsAt

namespace Holds

lemma nil (block : Block) : Holds title [] block := ⟨[], .nil, .nil⟩

lemma imp (h : Holds title parts block)
    (hblock : ∀ lines place, HoldsAt title lines place block → HoldsAt title lines place other) :
    Holds title parts other := by
  obtain ⟨places, hsorted, hplaces⟩ := h
  exact ⟨places, hsorted, hplaces.imp hblock⟩

/-- The places in the lower block are behind those in the upper one. -/
lemma append (h : Holds title parts block) (hother : Holds title others other) :
    Holds title (parts ++ others) (block ++ other) := by
  obtain ⟨places, hsorted, hplaces⟩ := h
  obtain ⟨below, hbelow, hothers⟩ := hother
  have hlength : ∀ place ∈ places, place < block.length := by
    clear hsorted
    induction hplaces with
    | nil => exact List.forall_mem_nil _
    | cons hfirst _ ih => exact List.forall_mem_cons.mpr ⟨hfirst.lt_length, ih⟩
  refine ⟨places ++ below.map (block.length + ·), List.pairwise_append.mpr ⟨hsorted, ?_, ?_⟩, ?_⟩
  · exact List.pairwise_map.mpr (hbelow.imp fun h => Nat.add_lt_add_left h _)
  · intro place hplace
    exact List.forall_mem_map.mpr fun next _ => Nat.lt_add_right next (hlength place hplace)
  · refine List.rel_append (hplaces.imp fun _ _ h => h.append other) ?_
    exact List.forall₂_map_right_iff.mpr (hothers.imp fun _ _ h => h.under block)

lemma flatMap {α : Type} {items : List α} {f : α → List Block} {g : α → Block}
    (h : ∀ item ∈ items, Holds title (f item) (g item)) :
    Holds title (items.flatMap f) (items.flatMap g) :=
  flatMap_rel (nil []) append h

/-- A title stands above its own lines, and what they hold stands below it. -/
lemma titled (h : Holds title parts block) : Holds title (block :: parts) (title :: block) := by
  obtain ⟨places, hsorted, hplaces⟩ := h
  refine ⟨0 :: places.map (1 + ·), List.pairwise_cons.mpr ⟨?_, ?_⟩, .cons ?_ ?_⟩
  · exact List.forall_mem_map.mpr fun place _ => Nat.lt_add_right place Nat.one_pos
  · exact List.pairwise_map.mpr (hsorted.imp fun h => Nat.add_lt_add_left h _)
  · exact ⟨[], [], 0, [], rfl, by simp [indent_zero]⟩
  · exact List.forall₂_map_right_iff.mpr (hplaces.imp fun _ _ h => h.under [title])

end Holds

end Block

/-! ### Parallel phases -/

namespace Phase

open Block

mutual

/-- The branches of the parallel phases of a tree that have branches, each phase in front of
those inside it. -/
def parallels : Phase → List (List Phase)
  | leaf _ => []
  | sequence items => parallelsAll items
  | ifThen _ body => body.parallels
  | ifElse _ body otherwise => body.parallels ++ otherwise.parallels
  | forEach _ body => body.parallels
  | parallel [] => []
  | parallel (first :: rest) => (first :: rest) :: parallelsAll (first :: rest)
  | bullets items => parallelsAll items
  | abort => []
  | abortWith _ => []
  | output _ => []
  | verify _ => []
  | skip _ => []
  | note _ => []
  | report _ => []

/-- The branches of the parallel phases of several trees in order. -/
def parallelsAll : List Phase → List (List Phase)
  | [] => []
  | item :: rest => item.parallels ++ parallelsAll rest

end

/-! ### The notes in the lines of a phase -/

/-- Each text of several stands on lines of its own. -/
lemma notes_texts {f : Text → Block}
    (h : ∀ text, notes (f text) = Text.occurrences concurrencyNote text) (texts : List Text) :
    notes (texts.flatMap f) = notes texts := by
  rw [notes_flatMap]
  simp only [h]
  rfl

/-- The notes of several phases, when those of each are known. -/
lemma notes_items {items : List Phase}
    (hitems : ∀ item ∈ items,
      notes item.block = item.parallels.length + notes item.payloads) :
    (items.map fun item => notes item.block).sum
      = (parallelsAll items).length + notes (payloadsAll items) := by
  induction items with
  | nil => rfl
  | cons item rest ih =>
      obtain ⟨hitem, hrest⟩ := List.forall_mem_cons.mp hitems
      rw [List.map_cons, List.sum_cons, hitem, ih hrest, parallelsAll, payloadsAll,
        List.length_append, notes_append]
      omega

/-- **The notes in the lines of a phase**: one for each parallel phase that has branches, and
those of the texts. -/
theorem notes_block (phase : Phase) :
    notes phase.block = phase.parallels.length + notes phase.payloads := by
  -- The notes of the texts are counted too, so the induction asks nothing of the texts.
  have htext : ∀ {label : Text} (text : Text), ¬ label.Overlaps concurrencyNote →
      notes (labelled label (ofText text)) = 0 + notes [text] := by
    intro label text hlabel
    rw [notes_behind hlabel, notes_ofText, Nat.zero_add]
    rfl
  induction phase using Phase.induction with
  | leaf text => exact (notes_ofText text).trans (Nat.zero_add _).symm
  | sequence items ih =>
      rw [block, stacked_eq, notes_flatMap, notes_items ih, parallels, payloads]
  | ifThen condition body ih =>
      rw [block, notes_condition, ih, parallels, payloads, notes_cons]
      omega
  | ifElse condition body otherwise ihBody ihOtherwise =>
      rw [block, notes_append, notes_condition, notes_behind (by decide), ihBody, ihOtherwise,
        parallels, payloads, notes_cons, List.length_append, notes_append]
      omega
  | forEach source body ih =>
      rw [block, notes_source, notes_indent, ih, parallels, payloads, notes_cons]
      omega
  | parallel branches ih =>
      have hbranches : notes (branchBlocks 1 branches)
          = (parallelsAll branches).length + notes (payloadsAll branches) := by
        rw [← notes_items ih, branchBlocks_eq, notes_flatMap]
        simp only [notes_branch]
        rw [← List.zipIdx_map_fst 1 branches, List.map_map, List.zipIdx_map_fst]
        rfl
      cases branches with
      | nil => rfl
      | cons first rest =>
          have htitle : Text.occurrences concurrencyNote "PARALLEL:" = 0 := by decide
          have hnote : notes [concurrencyNote] = 1 := by decide
          rw [block, List.isEmpty_cons, if_neg (by decide), notes_append, notes_cons, htitle,
            hbranches, hnote, parallels, payloads, List.length_cons]
          omega
  | bullets items ih =>
      simp only [block, bulletBlocks_eq, notes_flatMap, notes_bulleted]
      exact notes_items ih
  | abort => decide
  | abortWith message => exact htext message (by decide)
  | output lines =>
      rw [block, notes_titled (by decide), notes_texts notes_ofText]
      exact (Nat.zero_add _).symm
  | verify lines =>
      rw [block, notes_titled (by decide), notes_texts fun line => ?_]
      · exact (Nat.zero_add _).symm
      · rw [notes_bulleted, notes_ofText]
  | skip label => exact htext label (by decide)
  | note text => exact htext text (by decide)
  | report text => exact htext text (by decide)

/-! ### Parallel phases in a block -/

/-- The lines below the title of a parallel phase: the branches in order, each behind its
number, and the note. -/
def joined (branches : List Phase) : Block :=
  ((branches.zipIdx 1).flatMap fun (branch, number) =>
      indent 2 (labelled (("[BRANCH " : Text) ++ Text.ofNat number ++ "] ") branch.block))
    ++ [concurrencyNote]

lemma map_parallelsAll (items : List Phase) :
    (parallelsAll items).map joined = items.flatMap fun item => item.parallels.map joined := by
  induction items with
  | nil => rfl
  | cons item rest ih => rw [parallelsAll, List.map_append, ih, List.flatMap_cons]

/-- **The parallel phases in the lines of a phase**, from top to bottom. -/
theorem holds_block (phase : Phase) :
    Holds "PARALLEL:" (phase.parallels.map joined) phase.block := by
  have hindent : ∀ {parts : List Block} {block : Block} (width : Nat),
      Holds "PARALLEL:" parts block → Holds "PARALLEL:" parts (indent width block) :=
    fun width h => h.imp fun _ _ h => h.indent (by decide) width
  have hbehind : ∀ {parts : List Block} {block : Block} (label : Text),
      Holds "PARALLEL:" parts block → Holds "PARALLEL:" parts (labelled label block) :=
    fun label h => h.imp fun _ _ h => h.labelled (by decide) (by decide) label
  induction phase using Phase.induction with
  | sequence items ih =>
      rw [block, stacked_eq, parallels, map_parallelsAll]
      exact .flatMap ih
  | ifThen condition body ih => exact hbehind _ ih
  | ifElse condition body otherwise ihBody ihOtherwise =>
      rw [block, parallels, List.map_append]
      exact (hbehind _ ihBody).append (hbehind _ ihOtherwise)
  | forEach source body ih => exact (Holds.nil [_]).append (hindent 2 ih)
  | parallel branches ih =>
      have hbranches : Holds "PARALLEL:" ((parallelsAll branches).map joined)
          (branchBlocks 1 branches) := by
        rw [map_parallelsAll, branchBlocks_eq, ← flatMap_zipIdx _ 1]
        refine .flatMap fun part hpart => ?_
        exact hindent 2 (hbehind _ (ih _ (List.fst_mem_of_mem_zipIdx hpart)))
      cases branches with
      | nil => exact .nil []
      | cons first rest =>
          have hjoined : joined (first :: rest)
              = branchBlocks 1 (first :: rest) ++ [concurrencyNote] := by
            rw [branchBlocks_eq]
            rfl
          have hnote := hbranches.append (.nil [concurrencyNote])
          rw [List.append_nil, ← hjoined] at hnote
          rw [block, List.isEmpty_cons, if_neg (by decide), List.cons_append, ← hjoined, parallels,
            List.map_cons]
          exact hnote.titled
  | bullets items ih =>
      rw [block, bulletBlocks_eq, parallels, map_parallelsAll]
      refine .flatMap fun item hitem => ?_
      rw [bulleted]
      split_ifs with hempty
      · have hitem := ih item hitem
        rwa [List.isEmpty_iff.mp hempty] at hitem
      · exact hbehind _ (ih item hitem)
  | leaf | abort | abortWith | output | verify | skip | note | report => exact .nil _

/-- **Parallel phases as they are rendered.** In the lines of a phase whose texts do not have
the note, the note stands as often as the phase has, at any depth, parallel phases with
branches. These stand in the lines from top to bottom, each under its title: the branches in
order, each block behind its number, counted from one, and the note below the last. -/
theorem parallels_rendered (phase : Phase)
    (h : ∀ text ∈ phase.payloads, ¬ concurrencyNote <:+: text) :
    Text.occurrences concurrencyNote (Text.join "\n" phase.block) = phase.parallels.length
      ∧ ∃ places : List Nat, places.Pairwise (· < ·)
        ∧ List.Forall₂ (fun branches place => HoldsAt "PARALLEL:" (joined branches) place phase.block)
          phase.parallels places := by
  refine ⟨?_, ?_⟩
  · have hnone : notes phase.payloads = 0 :=
      List.sum_eq_zero (List.forall_mem_map.mpr fun text htext =>
        Text.occurrences_eq_zero_iff.mpr (h text htext))
    rw [Text.occurrences_join (by decide) (by decide), ← notes, notes_block, hnone, Nat.add_zero]
  · obtain ⟨places, hsorted, hplaces⟩ := phase.holds_block
    exact ⟨places, hsorted, List.forall₂_map_left_iff.mp hplaces⟩

/-- A loop over a parallel phase with another one in its second branch; a third one has no
branches. -/
theorem parallels_rendered_review :
    let inner : List Phase := [.note "Be kind.\nBe brief."]
    let outer : List Phase := [.leaf "Read it.", .bullets [.parallel inner, .parallel []]]
    let phase : Phase := .forEach "file" (.parallel outer)
    (∀ text ∈ phase.payloads, ¬ concurrencyNote <:+: text)
      ∧ phase.block
        = (["FOR EACH file:", "  PARALLEL:", "    [BRANCH 1] Read it.", "    [BRANCH 2] - PARALLEL:",
            "                   [BRANCH 1] NOTE: Be kind.",
            "                                    Be brief.",
            "                 ALL BRANCHES RUN CONCURRENTLY — WAIT FOR ALL BEFORE CONTINUING.",
            "  ALL BRANCHES RUN CONCURRENTLY — WAIT FOR ALL BEFORE CONTINUING."] :
            List String).map String.toList
      ∧ phase.parallels = [outer, inner]
      ∧ Text.occurrences concurrencyNote (Text.join "\n" phase.block) = 2
      ∧ ∃ first second, first < second
        ∧ HoldsAt "PARALLEL:" (joined outer) first phase.block
        ∧ HoldsAt "PARALLEL:" (joined inner) second phase.block := by
  intro inner outer phase
  have htexts : ∀ text ∈ phase.payloads, ¬ concurrencyNote <:+: text := by decide
  obtain ⟨hcount, places, hsorted, hplaces⟩ := parallels_rendered phase htexts
  refine ⟨htexts, by decide, rfl, hcount, ?_⟩
  cases hplaces with
  | cons hfirst hrest =>
      cases hrest with
      | cons hsecond _ =>
          exact ⟨_, _, List.rel_of_pairwise_cons hsorted List.mem_cons_self, hfirst, hsecond⟩

end Phase

end Directives
