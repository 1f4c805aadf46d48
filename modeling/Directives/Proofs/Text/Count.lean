/-
How often a text occurs in another.

An occurrence of a text can start within what stands in front of another text only if the
two overlap there. Where they do not, the occurrences in two texts that stand side by side
are those in each. So blanks at an end and line feeds add none, and take none away.

* `Text.occurrences`: the number of places at which a text occurs.
* `Text.Overlaps`, `Text.Parted`: a text can start within another; neither of two can.
* `Text.occurrences_append_of_apart`: texts side by side.
* `Text.occurrences_front`, `Text.occurrences_parted`: words in front of a text and between texts.
* `Text.occurrences_trimEnd`, `Text.occurrences_join`, `Text.sum_occurrences_lines`: trimming,
  joining, and taking apart into lines.
-/
import Directives.Proofs.Text

namespace Directives.Text

/-- The number of places at which the pattern occurs in the text. -/
def occurrences (pattern text : Text) : Nat := text.tails.countP (startsWith pattern)

/-- The text `next` can start within `text`: from some place of `text` on, one of the two goes
on as the other. -/
def Overlaps (text next : Text) : Prop :=
  ∃ rest ∈ text.tails, rest ≠ [] ∧ (rest <+: next ∨ next <+: rest)

instance (text next : Text) : Decidable (text.Overlaps next) :=
  inferInstanceAs (Decidable (∃ rest ∈ text.tails, _))

/-- Neither of the texts can start within the other. -/
def Parted (pattern words : Text) : Prop := ¬ pattern.Overlaps words ∧ ¬ words.Overlaps pattern

instance (pattern words : Text) : Decidable (pattern.Parted words) :=
  inferInstanceAs (Decidable (_ ∧ _))

variable {pattern front back text words : Text}

lemma startsWith_iff : startsWith pattern text = true ↔ pattern <+: text :=
  List.isPrefixOf_iff_prefix

lemma occurrences_eq_zero_iff : occurrences pattern text = 0 ↔ ¬ pattern <:+: text := by
  rw [occurrences, List.countP_eq_zero, List.infix_iff_prefix_suffix]
  simp only [List.mem_tails, startsWith_iff, not_exists, not_and]
  exact forall_congr' fun _ => ⟨fun h hpattern hsuffix => h hsuffix hpattern,
    fun h hsuffix hpattern => h hpattern hsuffix⟩

lemma occurrences_cons (c : Char) (text : Text) :
    occurrences pattern (c :: text)
      = occurrences pattern text + if startsWith pattern (c :: text) then 1 else 0 := by
  rw [occurrences, List.tails_cons, List.countP_cons, occurrences]

lemma occurrences_nil (h : pattern ≠ []) : occurrences pattern [] = 0 :=
  occurrences_eq_zero_iff.mpr fun hinfix => h (List.infix_nil.mp hinfix)

/-! ### Texts side by side -/

/-- An occurrence does not go on into a text that starts with no end of the pattern. -/
theorem occurrences_append_of_apart (h : pattern ≠ [])
    (hapart : ∀ rest ∈ pattern.tails, rest ≠ [] → ¬ rest <+: back) (front : Text) :
    occurrences pattern (front ++ back) = occurrences pattern front + occurrences pattern back := by
  induction front with
  | nil => rw [List.nil_append, occurrences_nil h, Nat.zero_add]
  | cons c front ih =>
      have hstart : pattern <+: c :: front ++ back ↔ pattern <+: c :: front := by
        refine ⟨fun hpattern => ?_, fun hpattern => hpattern.trans (List.prefix_append _ _)⟩
        rcases List.prefix_or_prefix_of_prefix hpattern (List.prefix_append _ _) with h | h
        · exact h
        -- otherwise an end of the pattern is left over for `back` to start with
        · obtain ⟨rest, rfl⟩ := h
          rw [List.prefix_append_right_inj] at hpattern
          have hrest : rest = [] := by_contra fun hne =>
            hapart rest ((List.mem_tails _ _).mpr (List.suffix_append _ _)) hne hpattern
          rw [hrest, List.append_nil]
      rw [List.cons_append, occurrences_cons, ih, occurrences_cons]
      simp only [startsWith_iff, ← List.cons_append, hstart]
      omega

/-- No occurrence starts within a text that the pattern does not overlap. -/
lemma occurrences_front (h : ¬ front.Overlaps pattern) (back : Text) :
    occurrences pattern (front ++ back) = occurrences pattern back := by
  induction front with
  | nil => rfl
  | cons c front ih =>
      have hfront : ¬ Overlaps front pattern := fun ⟨rest, hrest, hoverlap⟩ =>
        h ⟨rest, List.mem_cons_of_mem _ hrest, hoverlap⟩
      have hstart : ¬ startsWith pattern (c :: (front ++ back)) = true := by
        intro hpattern
        have hprefix : c :: front <+: c :: (front ++ back) := ⟨back, rfl⟩
        refine h ⟨c :: front, List.mem_cons_self, List.cons_ne_nil _ _, ?_⟩
        exact List.prefix_or_prefix_of_prefix hprefix (startsWith_iff.mp hpattern)
      rw [List.cons_append, occurrences_cons, ih hfront, if_neg hstart, Nat.add_zero]

/-- A text overlaps another only where it has the character that the other starts with. -/
lemma Overlaps.mem_of_cons {c : Char} (h : front.Overlaps (c :: back)) : c ∈ front := by
  obtain ⟨rest, hrest, hne, hoverlap⟩ := h
  obtain ⟨d, rest, rfl⟩ := List.exists_cons_of_ne_nil hne
  have hsuffix : d :: rest <:+ front := (List.mem_tails _ _).mp hrest
  rcases hoverlap with hprefix | hprefix
  all_goals
    obtain ⟨rfl, -⟩ := List.cons_prefix_cons.mp hprefix
    exact hsuffix.subset List.mem_cons_self

/-- **Words that do not overlap the pattern**, on either side, part the texts around them. -/
theorem occurrences_parted (h : pattern ≠ []) (hparted : Parted pattern words) (front back : Text) :
    occurrences pattern (front ++ (words ++ back))
      = occurrences pattern front + occurrences pattern back := by
  obtain ⟨hpattern, hwords⟩ := hparted
  rw [occurrences_append_of_apart h (fun rest hrest hne hprefix => ?_), occurrences_front hwords]
  exact hpattern ⟨rest, hrest, hne,
    List.prefix_or_prefix_of_prefix hprefix (List.prefix_append words back)⟩

/-! ### Trimming -/

/-- Trimming takes no occurrence away where no end of the pattern has blanks only. -/
lemma occurrences_trimEnd (hend : ∀ rest ∈ pattern.tails, rest ≠ [] → isBlankText rest = false)
    (h : pattern ≠ []) (text : Text) :
    occurrences pattern text.trimEnd = occurrences pattern text := by
  let blanks : Text := text.rtakeWhile isBlank
  have hblanks : ∀ rest ∈ pattern.tails, rest ≠ [] → ¬ rest <:+: blanks := by
    intro rest hrest hne hwithin
    have hblank : isBlankText rest = true := List.all_eq_true.mpr fun c hc =>
      List.mem_rtakeWhile_imp (hwithin.subset hc)
    rw [hend rest hrest hne] at hblank
    exact absurd hblank (by decide)
  have hnone : occurrences pattern blanks = 0 :=
    occurrences_eq_zero_iff.mpr (hblanks pattern ((List.mem_tails _ _).mpr List.suffix_rfl) h)
  have happend := occurrences_append_of_apart h
    (fun rest hrest hne hprefix => hblanks rest hrest hne hprefix.isInfix) text.trimEnd
  rwa [hnone, trimEnd_append_rtakeWhile, Nat.add_zero, eq_comm] at happend

/-! ### Lines -/

/-- The occurrences in lines are those in their text. -/
lemma occurrences_join (h : pattern ≠ []) (hfeed : Parted pattern "\n") (lines : List Text) :
    occurrences pattern (join "\n" lines) = (lines.map (occurrences pattern)).sum := by
  induction lines with
  | nil => exact occurrences_nil h
  | cons line rest ih =>
      cases rest with
      | nil => rfl
      | cons next rest =>
          rw [join_cons (List.cons_ne_nil _ _), List.append_assoc, occurrences_parted h hfeed, ih]
          rfl

/-- Taking a text apart into lines takes no occurrence apart. -/
lemma sum_occurrences_lines (h : pattern ≠ []) (hfeed : Parted pattern "\n")
    (hreturn : Parted pattern "\r\n") (text : Text) :
    (text.lines.map (occurrences pattern)).sum = occurrences pattern text := by
  induction text using lines_induction with
  | nil => exact (occurrences_nil h).symm
  | line line _ => exact Nat.add_zero _
  | cut front ending back _ hending ih =>
      have hparted : Parted pattern ending := by
        rcases hending with rfl | rfl
        exacts [hfeed, hreturn]
      rw [List.map_cons, List.sum_cons, ih, occurrences_parted h hparted]

end Directives.Text
