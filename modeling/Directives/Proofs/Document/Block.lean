/-
The markers of a block.

Taking a text apart into lines, putting labels, numbers and bullets in front of
them and moving them to the right neither makes markers nor takes them apart: the
markers of the block of a phase are those of its payloads in visiting order.

* `Block.markers`: the markers of the lines of a block.
* `Block.markers_ofText`: the lines of a text.
* `Block.markers_labelled`, `Block.markers_indent`, `Block.markers_titled`,
  `Block.markers_bulleted`, `Block.markers_branch`: what is put around a block.
* `Phase.markers_block`: the lines of a phase.
-/
import Directives.Proofs.Document.Built
import Directives.Proofs.Store.Marker

namespace Directives

/-- The names in the markers of the lines of a block. -/
def Block.markers (block : Block) : List Text := block.flatMap Marker.find

namespace Block

@[simp] lemma markers_nil : markers [] = [] := rfl

@[simp] lemma markers_cons (line : Text) (rest : Block) :
    markers (line :: rest) = Marker.find line ++ markers rest := rfl

@[simp] lemma markers_append (above below : Block) :
    markers (above ++ below) = markers above ++ markers below :=
  List.flatMap_append

lemma markers_flatMap {α : Type} (f : α → Block) (parts : List α) :
    markers (parts.flatMap f) = parts.flatMap fun part => markers (f part) :=
  List.flatMap_assoc

/-- The lines of a block, joined again, have the markers of the block. -/
lemma find_join_lines (block : Block) : Marker.find (Text.join "\n" block) = markers block :=
  Marker.find_join (by decide) (by decide) block

/-! ### The lines of a text -/

/-- **The markers of a text** are those of its lines. -/
theorem markers_ofText (text : Text) : markers (ofText text) = Marker.find text := by
  rw [ofText]
  induction text using Text.lines_induction with
  | nil => rfl
  | line line _ => exact List.append_nil (Marker.find line)
  | cut front ending back _ hending ih =>
      have hblank : ending ≠ [] ∧ ending.isBlankText = true := by
        rcases hending with rfl | rfl <;> decide
      rw [markers_cons, ih, Marker.find_append_blank hblank.1 hblank.2]

/-! ### What is put around a block -/

/-- Moving a block to the right keeps its markers. -/
@[simp] lemma markers_indent (width : Nat) (block : Block) :
    markers (indent width block) = markers block := by
  have hline : ∀ line : Text, Marker.find (shift width line) = Marker.find line := by
    intro line
    rw [shift]
    split_ifs
    · rfl
    · refine Marker.find_skip (fun hmem => ?_) line
      exact absurd (List.eq_of_mem_replicate hmem) (by decide)
  rw [indent, markers, List.flatMap_map]
  exact List.flatMap_congr fun line _ => hline line

/-- A label that ends in a space adds its own markers to those of the block. -/
lemma markers_labelled (label : Text) (block : Block) :
    markers (labelled (label ++ [' ']) block) = Marker.find label ++ markers block := by
  have hspace : ∀ back : Text,
      Marker.find (label ++ [' '] ++ back) = Marker.find label ++ Marker.find back := by
    intro back
    rw [List.append_assoc]
    exact Marker.find_append_blank (by decide) (by decide) label back
  cases block with
  | nil =>
      rw [labelled, markers_cons, Marker.find_trimEnd, ← List.append_nil (label ++ [' ']), hspace,
        Marker.find_nil, List.append_nil]
  | cons first rest =>
      rw [labelled, markers_cons, Marker.find_trimEnd, hspace, markers_indent, List.append_assoc,
        markers_cons]

/-- A label without an opening brace adds no markers. -/
lemma markers_labelled_of_braceless {label : Text} (hlabel : label.getLast? = some ' ')
    (h : '{' ∉ label) (block : Block) : markers (labelled label block) = markers block := by
  obtain ⟨front, rfl⟩ := List.getLast?_eq_some_iff.mp hlabel
  rw [markers_labelled, Marker.find_of_braceless (fun hmem => h (List.mem_append_left _ hmem)),
    List.nil_append]

/-- An optional text behind a label. -/
lemma markers_labelled_option {label : Text} (hlabel : label.getLast? = some ' ')
    (h : '{' ∉ label) (text : Option Text) :
    markers ((text.map fun text => labelled label (ofText text)).getD [])
      = text.toList.flatMap Marker.find := by
  cases text with
  | none => rfl
  | some text =>
      rw [Option.map_some, Option.getD_some, markers_labelled_of_braceless hlabel h,
        markers_ofText, Option.toList_some, List.flatMap_singleton]

/-- A title without an opening brace adds no markers. -/
lemma markers_titled {title : Text} (h : '{' ∉ title) (block : Block) :
    markers (titled title block) = markers block := by
  rw [titled]
  split_ifs with hempty
  · rw [List.isEmpty_iff.mp hempty]
  · rw [markers_cons, markers_indent, Marker.find_of_braceless h, List.nil_append]

lemma markers_bulleted (block : Block) : markers (bulleted block) = markers block := by
  rw [bulleted]
  split_ifs with hempty
  · rw [List.isEmpty_iff.mp hempty]
  · exact markers_labelled_of_braceless (by decide) (by decide) block

/-- A numeral has no brace. -/
lemma braceless_ofNat (n : Nat) : '{' ∉ Text.ofNat n := by
  intro hmem
  have hdigit := Nat.isDigit_of_mem_toDigits (by decide) (by decide) hmem
  exact absurd hdigit (by decide)

lemma markers_branch (number : Nat) (block : Block) :
    markers (branch number block) = markers block := by
  rw [branch, markers_indent]
  refine markers_labelled_of_braceless ?_ ?_ block
  · rw [List.getLast?_append]
    rfl
  · rw [List.mem_append, List.mem_append, not_or, not_or]
    exact ⟨⟨by decide, braceless_ofNat number⟩, by decide⟩

end Block

/-! ### The lines of a phase -/

namespace Phase

open Block

/-- The markers of the payloads of phases, when those of each phase are known. -/
lemma flatMap_markers {items : List Phase}
    (hitems : ∀ item ∈ items, markers item.block = item.payloads.flatMap Marker.find) :
    items.flatMap (fun item => markers item.block)
      = (payloadsAll items).flatMap Marker.find := by
  rw [payloadsAll_eq, List.flatMap_assoc]
  exact List.flatMap_congr hitems

/-- A condition stands between blanks. -/
lemma markers_condition (condition : Text) (block : Block) :
    markers (labelled (("IF " : Text) ++ condition ++ " THEN ") block)
      = Marker.find condition ++ markers block := by
  have hlabel : ("IF " : Text) ++ condition ++ " THEN "
      = ("IF " : Text) ++ (condition ++ ([' '] ++ "THEN")) ++ [' '] := by
    simp
  have hthen : Marker.find "THEN" = [] := Marker.find_of_braceless (by decide)
  rw [hlabel, markers_labelled, Marker.find_skip (by decide),
    Marker.find_append_blank (by decide) (by decide), hthen, List.append_nil]

/-- **The markers of a phase's lines** are those of its payloads in visiting order. -/
theorem markers_block (phase : Phase) :
    markers phase.block = phase.payloads.flatMap Marker.find := by
  have hlabelled : ∀ {label : Text}, label.getLast? = some ' ' → '{' ∉ label → ∀ text,
      markers (labelled label (ofText text)) = [text].flatMap Marker.find := by
    intro label hlabel h text
    rw [markers_labelled_of_braceless hlabel h, markers_ofText, List.flatMap_singleton]
  induction phase using Phase.induction with
  | leaf text => rw [block, markers_ofText, payloads, List.flatMap_singleton]
  | sequence items ih =>
      rw [block, stacked_eq, markers_flatMap, flatMap_markers ih, payloads]
  | ifThen condition body ih =>
      rw [block, markers_condition, ih, payloads, List.flatMap_cons]
  | ifElse condition body otherwise ihBody ihOtherwise =>
      rw [block, markers_append, markers_condition, markers_labelled_of_braceless (by decide)
        (by decide), ihBody, ihOtherwise, payloads, List.flatMap_cons, List.flatMap_append,
        List.append_assoc]
  | forEach source body ih =>
      have hcolon : Marker.find ([':'] : Text) = [] := rfl
      have hheader :
          Marker.find (("FOR EACH " : Text) ++ source ++ [':']) = Marker.find source := by
        rw [List.append_assoc, Marker.find_skip (by decide), Marker.find_append, hcolon,
          List.append_nil]
        exact Marker.apart_nil.cons (by decide)
      rw [block, markers_cons, markers_indent, hheader, ih, payloads, List.flatMap_cons]
  | parallel branches ih =>
      have htitle : Marker.find "PARALLEL:" = [] := Marker.find_of_braceless (by decide)
      have hnote : Marker.find concurrencyNote = [] := Marker.find_of_braceless (by decide)
      have hbranches :
          markers (branchBlocks 1 branches) = (payloadsAll branches).flatMap Marker.find := by
        simp only [branchBlocks_eq, markers_flatMap, markers_branch]
        rw [flatMap_zipIdx (fun item : Phase => markers item.block), flatMap_markers ih]
      cases branches with
      | nil => rfl
      | cons item rest =>
          rw [block, List.isEmpty_cons, if_neg (by decide), markers_append, markers_cons,
            hbranches, htitle, markers_cons, hnote, payloads]
          simp
  | bullets items ih =>
      simp only [block, bulletBlocks_eq, markers_flatMap, markers_bulleted, payloads]
      exact flatMap_markers ih
  | abort => rfl
  | abortWith message => exact hlabelled (by decide) (by decide) message
  | output lines =>
      rw [block, markers_titled (by decide), markers_flatMap, payloads]
      exact List.flatMap_congr fun line _ => markers_ofText line
  | verify lines =>
      rw [block, markers_titled (by decide), markers_flatMap, payloads]
      exact List.flatMap_congr fun line _ => (markers_bulleted _).trans (markers_ofText line)
  | skip label => exact hlabelled (by decide) (by decide) label
  | note text => exact hlabelled (by decide) (by decide) text
  | report text => exact hlabelled (by decide) (by decide) text

end Phase

end Directives
