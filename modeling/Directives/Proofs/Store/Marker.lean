/-
Which markers a text holds.

A marker holds no blank and no second opening brace, so a text can be cut wherever
the second part does not complete a marker begun in the first. What a document is
put together from is cut at blanks and at opening braces.

* `Marker.Apart`: the text completes no marker that was begun before it.
* `Marker.find_append`, `Marker.find_join`: the markers of a text that is cut.
* `Marker.find_marker`, `Marker.find_token`: the markers a reference leaves.
* `Marker.find_eq_nil_of_unmarked`: a text without the mark has no markers.
* `Marker.find_trimEnd`: trimming takes no markers away.
-/
import Mathlib.Data.List.TakeWhile
import Mathlib.Tactic
import Directives.Store.Marker

namespace Directives.Marker

@[simp] lemma find_nil : find [] = [] := rfl

/-! ### Cutting a text -/

/-- The text completes no marker that was begun before it: it does not get to a
closing brace by characters that a marker may hold. -/
def Apart (text : Text) : Prop := (text.dropWhile isInner).head? ≠ some '}'

/-- A blank stands in no marker. -/
lemma not_isInner_of_isBlank {c : Char} (h : isBlank c = true) : isInner c = false := by
  simp [isInner, h]

lemma apart_nil : Apart [] := by
  simp [Apart]

/-- Only a closing brace completes a marker. -/
lemma Apart.cons {c : Char} {text : Text} (h : Apart text) (hc : c ≠ '}') : Apart (c :: text) := by
  unfold Apart
  cases hinner : isInner c
  · rw [List.dropWhile_cons_of_neg (by simp [hinner])]
    simpa using hc
  · rwa [List.dropWhile_cons_of_pos hinner]

lemma Apart.append {front back : Text} (h : Apart back) (hfront : '}' ∉ front) :
    Apart (front ++ back) := by
  induction front with
  | nil => exact h
  | cons c rest ih =>
      rw [List.mem_cons, not_or] at hfront
      exact (ih hfront.2).cons (Ne.symm hfront.1)

/-- A text that starts with a blank completes no marker. -/
lemma apart_of_isBlank {c : Char} (h : isBlank c = true) (text : Text) : Apart (c :: text) := by
  unfold Apart
  rw [List.dropWhile_cons_of_neg (by simp [not_isInner_of_isBlank h])]
  rintro hbrace
  obtain rfl : c = '}' := by simpa using hbrace
  exact absurd h (by decide)

/-- A text that starts with an opening brace completes no marker. -/
lemma apart_brace (text : Text) : Apart ('{' :: text) := by
  unfold Apart
  rw [List.dropWhile_cons_of_neg (by decide)]
  simp

/-- What completes no marker is not looked at when one is completed. -/
lemma close?_append {back : Text} (apart : Apart back) (front : Text) :
    close? (front ++ back) = close? front := by
  unfold close?
  rw [List.dropWhile_append, List.takeWhile_append]
  by_cases hall : ∀ c ∈ front, isInner c = true
  · -- the marker is left open at the end of the front
    have hdrop : front.dropWhile isInner = [] := List.dropWhile_eq_nil_iff.mpr hall
    rw [hdrop, List.isEmpty_nil, if_pos rfl, if_neg apart]
    rfl
  · have hdrop : front.dropWhile isInner ≠ [] := fun h => hall (List.dropWhile_eq_nil_iff.mp h)
    have htake : (front.takeWhile isInner).length ≠ front.length := fun h =>
      hall (List.takeWhile_eq_self_iff.mp ((List.takeWhile_prefix isInner).eq_of_length h))
    obtain ⟨c, rest, hcons⟩ := List.exists_cons_of_ne_nil hdrop
    rw [if_neg htake]
    simp [hcons]

/-- **A text is cut** where the second part completes no marker of the first. -/
theorem find_append {back : Text} (apart : Apart back) (front : Text) :
    find (front ++ back) = find front ++ find back := by
  induction front with
  | nil => rfl
  | cons c rest ih =>
      rw [List.cons_append, find, find, close?_append apart, ih]
      by_cases hc : c = '{'
      · rw [if_pos hc, if_pos hc]
        cases close? rest <;> rfl
      · rw [if_neg hc, if_neg hc]

/-- Text without an opening brace is passed over. -/
lemma find_skip {front : Text} (h : '{' ∉ front) (back : Text) :
    find (front ++ back) = find back := by
  induction front with
  | nil => rfl
  | cons c rest ih =>
      rw [List.mem_cons, not_or] at h
      rw [List.cons_append, find, if_neg (Ne.symm h.1), ih h.2]

lemma find_of_braceless {text : Text} (h : '{' ∉ text) : find text = [] := by
  rw [← List.append_nil text, find_skip h, find_nil]

/-- Blanks are no braces. -/
lemma braceless_of_isBlankText {blanks : Text} (h : blanks.isBlankText = true) : '{' ∉ blanks :=
  fun hmem => absurd (List.all_eq_true.mp h '{' hmem) (by decide)

/-- Blanks complete no marker, whatever follows them. -/
lemma apart_of_isBlankText {blanks : Text} (hne : blanks ≠ []) (h : blanks.isBlankText = true)
    (text : Text) : Apart (blanks ++ text) := by
  obtain ⟨c, rest, rfl⟩ := List.exists_cons_of_ne_nil hne
  exact apart_of_isBlank (List.all_eq_true.mp h c (by simp)) (rest ++ text)

/-- A text is cut at blanks. -/
lemma find_append_blank {blanks : Text} (hne : blanks ≠ []) (h : blanks.isBlankText = true)
    (front back : Text) : find (front ++ (blanks ++ back)) = find front ++ find back := by
  rw [find_append (apart_of_isBlankText hne h back), find_skip (braceless_of_isBlankText h)]

/-- The markers of texts joined by blanks are those of each in turn. -/
theorem find_join {separator : Text} (hne : separator ≠ []) (h : separator.isBlankText = true)
    (parts : List Text) :
    find (Text.join separator parts) = parts.flatMap find := by
  induction parts with
  | nil => rfl
  | cons part rest ih =>
      cases rest with
      | nil => simp [Text.join]
      | cons next rest =>
          rw [Text.join, List.append_assoc, find_append_blank hne h, ih, ← List.flatMap_cons]

/-- A text ends in blanks that trimming takes off. -/
lemma exists_trimEnd (text : Text) :
    ∃ blanks : Text, blanks.isBlankText = true ∧ text.trimEnd ++ blanks = text := by
  refine ⟨(text.reverse.takeWhile isBlank).reverse, List.all_eq_true.mpr ?_, ?_⟩
  · intro c hc
    exact List.mem_takeWhile_imp (List.mem_reverse.mp hc)
  · rw [Text.trimEnd, ← List.reverse_append, List.takeWhile_append_dropWhile, List.reverse_reverse]

/-- Trimming takes no markers away, and gives none. -/
lemma find_trimEnd (text : Text) : find text.trimEnd = find text := by
  obtain ⟨blanks, hblanks, htext⟩ := exists_trimEnd text
  conv_rhs => rw [← htext]
  cases blanks with
  | nil => rw [List.append_nil]
  | cons c rest =>
      have hcut := find_append_blank (List.cons_ne_nil c rest) hblanks text.trimEnd []
      rw [List.append_nil, find_nil, List.append_nil] at hcut
      exact hcut.symm

/-! ### Markers, tokens and other text -/

/-- What stands between braces, if it may stand in a marker, decides whether there
is one. -/
lemma close?_inside {inside : Text} (h : ∀ c ∈ inside, isInner c = true) (back : Text) :
    close? (inside ++ '}' :: back) = name? inside := by
  have hbrace : isInner '}' = false := by decide
  rw [close?, List.dropWhile_append_of_pos h, List.takeWhile_append_of_pos h,
    List.dropWhile_cons_of_neg (by simp [hbrace]), List.takeWhile_cons_of_neg (by simp [hbrace]),
    List.append_nil]
  rfl

lemma name?_append_mark {name : Text} (hne : name ≠ []) :
    name? (name ++ Name.unresolvedMark) = some name := by
  obtain ⟨c, rest, rfl⟩ := List.exists_cons_of_ne_nil hne
  have hsuffix : List.isSuffixOf Name.unresolvedMark (c :: rest ++ Name.unresolvedMark) = true :=
    List.isSuffixOf_iff_suffix.mpr (List.suffix_append _ _)
  rw [name?, Text.dropEnd?, if_pos hsuffix, List.length_append, Nat.add_sub_cancel,
    List.take_left]

/-- A name in a marker stands before the mark. -/
lemma mark_suffix_of_name? {inside name : Text} (h : name? inside = some name) :
    Name.unresolvedMark <:+ inside := by
  by_contra hsuffix
  rw [name?, Text.dropEnd?, if_neg (by rwa [List.isSuffixOf_iff_suffix])] at h
  cases h

/-- A name that may stand in a marker may stand there with the mark. -/
lemma isInner_append_mark {name : Text} (h : ∀ c ∈ name, isInner c = true) :
    ∀ c ∈ name ++ Name.unresolvedMark, isInner c = true := by
  have hmark : Name.unresolvedMark.all isInner = true := by decide
  exact List.forall_mem_append.mpr ⟨h, List.all_eq_true.mp hmark⟩

/-- What may stand in a marker has no opening brace, nor has the brace behind it. -/
lemma braceless_inside {inside : Text} (h : ∀ c ∈ inside, isInner c = true) :
    '{' ∉ inside ++ ['}'] := by
  have hinside : '{' ∉ inside := fun hmem => absurd (h '{' hmem) (by decide)
  exact List.not_mem_append hinside (by decide)

/-- A marker is completed behind its brace. -/
lemma close?_marker {name : Text} (hne : name ≠ []) (h : ∀ c ∈ name, isInner c = true)
    (back : Text) : close? (name ++ Name.unresolvedMark ++ ['}'] ++ back) = some name := by
  rw [List.append_assoc, List.singleton_append, close?_inside (isInner_append_mark h),
    name?_append_mark hne]

/-- The marker of a name is found, and the search goes on behind it. -/
lemma find_marker {name : Text} (hne : name ≠ []) (h : ∀ c ∈ name, isInner c = true)
    (back : Text) : find (Name.marker name ++ back) = name :: find back := by
  rw [Name.marker, List.cons_append, find, if_pos rfl, close?_marker hne h,
    find_skip (braceless_inside (isInner_append_mark h))]

/-- The token of a name without a question mark is no marker. -/
lemma find_token {name : Text} (h : ∀ c ∈ name, isInner c = true) (hmark : '?' ∉ name)
    (back : Text) : find (Name.token name ++ back) = find back := by
  have hclose : close? (name ++ ['}'] ++ back) = none := by
    rw [List.append_assoc, List.singleton_append, close?_inside h,
      Option.eq_none_iff_forall_ne_some]
    intro other hname
    exact hmark ((mark_suffix_of_name? hname).subset (by decide))
  rw [Name.token, List.cons_append, find, if_pos rfl, hclose, find_skip (braceless_inside h)]

/-- The mark stands in front of every marker's closing brace. -/
lemma mark_infix_of_close? {text name : Text} (h : close? text = some name) :
    Name.unresolvedMark <:+: text := by
  rw [close?] at h
  split_ifs at h
  exact (mark_suffix_of_name? h).isInfix.trans (List.takeWhile_prefix isInner).isInfix

/-- A text without the mark has no markers. -/
lemma find_eq_nil_of_unmarked {text : Text} (h : ¬ Name.unresolvedMark <:+: text) :
    find text = [] := by
  induction text with
  | nil => rfl
  | cons c rest ih =>
      have hrest : ¬ Name.unresolvedMark <:+: rest :=
        fun hmark => h (hmark.trans (List.suffix_cons c rest).isInfix)
      have hclose : close? rest = none :=
        Option.eq_none_iff_forall_ne_some.mpr fun name hname => hrest (mark_infix_of_close? hname)
      by_cases hc : c = '{'
      · rw [find, if_pos hc, hclose, ih hrest]
      · rw [find, if_neg hc, ih hrest]

end Directives.Marker
