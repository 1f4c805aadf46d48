/-
Phases without lines.

A phase has no lines exactly when it is hollow: it has no text to show and no words of its
own around its texts. A hollow phase takes no label. So the numbers of an example run
without a gap over the phases that are not hollow, and in a list exactly the items that are
not hollow stand under a bullet.

* `Phase.Hollow`: phases that have nothing to show.
* `Phase.block_eq_nil_iff`: these are the phases without lines.
* `Guideline.labels_pass_hollow`: what is numbered, and what stands under bullets.
-/
import Directives.Proofs.Document.Step

namespace Directives

/-! ### Blocks without lines -/

namespace Block

variable {block : Block}

@[simp] lemma ofText_eq_nil_iff {text : Text} : ofText text = [] ↔ text = [] :=
  Text.lines_eq_nil_iff

@[simp] lemma indent_eq_nil_iff {width : Nat} : indent width block = [] ↔ block = [] :=
  List.map_eq_nil_iff

@[simp] lemma labelled_ne_nil (label : Text) (block : Block) : labelled label block ≠ [] := by
  cases block <;> exact List.cons_ne_nil _ _

@[simp] lemma titled_eq_nil_iff {title : Text} : titled title block = [] ↔ block = [] := by
  cases block <;> simp [titled]

@[simp] lemma bulleted_eq_nil_iff : bulleted block = [] ↔ block = [] := by
  cases block <;> simp [bulleted]

/-- The first line of a block behind a label starts with the label, up to the blank at the
end of the label. -/
lemma exists_labelled_eq {front : Text} {c : Char} (h : isBlank c = false) (block : Block) :
    ∃ rest below, labelled (front ++ [c, ' ']) block = (front ++ c :: rest) :: below := by
  cases block with
  | nil =>
      refine ⟨[], [], ?_⟩
      rw [labelled, Text.trimEnd_append_cons h]
      rfl
  | cons first below =>
      refine ⟨Text.trimEnd (' ' :: first), indent (front ++ [c, ' ']).length below, ?_⟩
      rw [labelled, List.append_assoc, List.cons_append, Text.trimEnd_append_cons h]
      rfl

end Block

/-! ### Phases without lines -/

namespace Phase

open Block

/-- A phase that has nothing to show. Conditions, loops, ends, labels, remarks and reports
always show their own words. -/
inductive Hollow : Phase → Prop
  | leaf : Hollow (.leaf [])
  | sequence {items : List Phase} (h : ∀ item ∈ items, Hollow item) : Hollow (.sequence items)
  | parallel : Hollow (.parallel [])
  | bullets {items : List Phase} (h : ∀ item ∈ items, Hollow item) : Hollow (.bullets items)
  | output {lines : List Text} (h : ∀ line ∈ lines, line = []) : Hollow (.output lines)
  | verify {lines : List Text} (h : ∀ line ∈ lines, line = []) : Hollow (.verify lines)

/-- **A phase has no lines** exactly when it is hollow. -/
theorem block_eq_nil_iff {phase : Phase} : phase.block = [] ↔ phase.Hollow := by
  induction phase using Phase.induction with
  | leaf text =>
      rw [block, ofText_eq_nil_iff]
      exact ⟨fun h => h ▸ .leaf, fun h => by cases h; rfl⟩
  | sequence items ih =>
      rw [block, stacked_eq, List.flatMap_eq_nil_iff]
      refine ⟨fun h => .sequence fun item hitem => (ih item hitem).mp (h item hitem), ?_⟩
      intro hollow item hitem
      cases hollow with
      | sequence h => exact (ih item hitem).mpr (h item hitem)
  | ifThen condition body => exact iff_of_false (labelled_ne_nil _ _) (by rintro ⟨⟩)
  | ifElse condition body otherwise =>
      refine iff_of_false ?_ (by rintro ⟨⟩)
      rw [block]
      exact List.append_ne_nil_of_left_ne_nil (labelled_ne_nil _ _) _
  | forEach source body => exact iff_of_false (List.cons_ne_nil _ _) (by rintro ⟨⟩)
  | parallel branches =>
      cases branches with
      | nil => exact ⟨fun _ => .parallel, fun _ => rfl⟩
      | cons branch rest => exact iff_of_false (List.cons_ne_nil _ _) (by rintro ⟨⟩)
  | bullets items ih =>
      rw [block, bulletBlocks_eq, List.flatMap_eq_nil_iff]
      refine ⟨fun h => .bullets fun item hitem => ?_, ?_⟩
      · exact (ih item hitem).mp (bulleted_eq_nil_iff.mp (h item hitem))
      · intro hollow item hitem
        cases hollow with
        | bullets h => exact bulleted_eq_nil_iff.mpr ((ih item hitem).mpr (h item hitem))
  | abort => exact iff_of_false (List.cons_ne_nil _ _) (by rintro ⟨⟩)
  | abortWith message => exact iff_of_false (labelled_ne_nil _ _) (by rintro ⟨⟩)
  | output lines =>
      rw [block, titled_eq_nil_iff, List.flatMap_eq_nil_iff]
      refine ⟨fun h => .output fun line hline => ofText_eq_nil_iff.mp (h line hline), ?_⟩
      intro hollow line hline
      cases hollow with
      | output h => exact ofText_eq_nil_iff.mpr (h line hline)
  | verify lines =>
      rw [block, titled_eq_nil_iff, List.flatMap_eq_nil_iff]
      refine ⟨fun h => .verify fun line hline => ?_, ?_⟩
      · exact ofText_eq_nil_iff.mp (bulleted_eq_nil_iff.mp (h line hline))
      · intro hollow line hline
        cases hollow with
        | verify h => exact bulleted_eq_nil_iff.mpr (ofText_eq_nil_iff.mpr (h line hline))
  | skip label => exact iff_of_false (labelled_ne_nil _ _) (by rintro ⟨⟩)
  | note text => exact iff_of_false (labelled_ne_nil _ _) (by rintro ⟨⟩)
  | report text => exact iff_of_false (labelled_ne_nil _ _) (by rintro ⟨⟩)

instance : DecidablePred Hollow := fun _ => decidable_of_iff _ block_eq_nil_iff

/-- In a list, the items that are not hollow stand under bullets. -/
lemma block_bullets (items : List Phase) :
    (Phase.bullets items).block
      = (items.filter fun item => ¬ item.Hollow).flatMap fun item => labelled "- " item.block := by
  have hhollow : ∀ item ∈ items, decide (¬ item.Hollow) = false → bulleted item.block = [] :=
    fun item _ h => bulleted_eq_nil_iff.mpr
      (block_eq_nil_iff.mpr (not_not.mp (of_decide_eq_false h)))
  rw [block, bulletBlocks_eq, ← flatMap_filter hhollow]
  refine List.flatMap_congr fun item hitem => ?_
  have hne : item.block ≠ [] := fun h =>
    of_decide_eq_true (List.mem_filter.mp hitem).2 (block_eq_nil_iff.mp h)
  rw [bulleted, if_neg (by simp [hne])]

end Phase

/-! ### What takes a label -/

namespace Guideline

/-- The phases that take a label are those that are not hollow. -/
lemma steps_eq (guideline : Guideline) :
    guideline.steps
      = ((guideline.phases.filter fun phase => ¬ phase.Hollow).zipIdx 1).map
          fun (phase, number) => ⟨guideline.label number, phase⟩ := by
  have hshown : ∀ phase : Phase, phase.block ≠ [] ↔ ¬ phase.Hollow :=
    fun phase => not_congr Phase.block_eq_nil_iff
  simp only [steps, hshown]

/-- **Labels pass over hollow phases.** A phase has no lines exactly when it is hollow. Below
the opening of an example stand the phases that are not hollow, in order, numbered from one
on: the lines of each start with its number. In a list stand the items that are not hollow,
in order, and the lines of each start with a bullet. -/
theorem labels_pass_hollow :
    (∀ phase : Phase, phase.block = [] ↔ phase.Hollow)
      ∧ (∀ guideline : Guideline, guideline.isExample = true →
          let shown := guideline.phases.filter fun phase => ¬ phase.Hollow
          guideline.block = guideline.opening
              ++ ((shown.zipIdx 1).flatMap fun (phase, number) =>
                  Block.labelled (Text.ofNat number ++ ". ") phase.block)
            ∧ ∀ phase number, (phase, number) ∈ shown.zipIdx 1 → ∃ rest below,
                Block.labelled (Text.ofNat number ++ ". ") phase.block
                  = (Text.ofNat number ++ '.' :: rest) :: below)
      ∧ ∀ items : List Phase,
          let shown := items.filter fun item => ¬ item.Hollow
          (Phase.bullets items).block = (shown.flatMap fun item => Block.labelled "- " item.block)
            ∧ ∀ item ∈ shown, ∃ rest below,
                Block.labelled "- " item.block = ('-' :: rest) :: below := by
  refine ⟨fun _ => Phase.block_eq_nil_iff, fun guideline hexample => ⟨?_, ?_⟩,
    fun items => ⟨Phase.block_bullets items, ?_⟩⟩
  · rw [block_steps, steps_eq, List.flatMap_map]
    refine congrArg (guideline.opening ++ ·) (List.flatMap_congr fun step _ => ?_)
    simp only [Step.block, label, hexample, if_true]
  · intro phase number _
    exact Block.exists_labelled_eq (by decide) phase.block
  · intro item _
    exact @Block.exists_labelled_eq [] '-' (by decide) item.block

/-- An example in which the second, the third and the fourth phase are hollow; its last phase
is a list, and the second item of the list is hollow. -/
theorem labels_pass_hollow_checks :
    let items : List Phase := [.leaf "build", .leaf [], .note []]
    let guideline : Guideline :=
      { key := "checks", isExample := true,
        phases := [.leaf "Read.", .bullets [], .sequence [.output [], .verify [[]]], .parallel [],
          .bullets items] }
    let shown := guideline.phases.filter fun phase => ¬ phase.Hollow
    guideline.isExample = true
      ∧ guideline.block
        = (["=== GUIDELINE: checks ===", "1. Read.", "2. - build", "   - NOTE:"] :
            List String).map String.toList
      ∧ (.bullets items, 2) ∈ shown.zipIdx 1
      ∧ (∃ rest below,
        Block.labelled "2. " (Phase.bullets items).block = ('2' :: '.' :: rest) :: below)
      ∧ .note [] ∈ items.filter (fun item => ¬ item.Hollow)
      ∧ ∃ rest below, Block.labelled "- " (Phase.note []).block = ('-' :: rest) :: below := by
  intro items guideline shown
  have hexample : guideline.isExample = true := rfl
  have hshown : (.bullets items, 2) ∈ shown.zipIdx 1 := .tail _ (.head _)
  have hitem : .note [] ∈ items.filter fun item => ¬ item.Hollow := .tail _ (.head _)
  obtain ⟨-, hnumbers, hbullets⟩ := labels_pass_hollow
  obtain ⟨hblock, hfirst⟩ := hnumbers guideline hexample
  exact ⟨hexample, hblock.trans (by decide), hshown, hfirst _ _ hshown, hitem,
    (hbullets items).2 _ hitem⟩

end Guideline

end Directives
