/-
Texts of whole lines.

A text is cut where a line feed ends. What stands in front of the cut is empty or ends in a
line feed, so nothing that is put behind it changes its lines, and it has as many lines as
line feeds. Every text is whole lines with one more line behind them that has no ending.

* `Text.Whole`: the text is empty or ends in a line feed.
* `Text.Whole.lines_append`, `Text.Whole.length_lines`: its lines.
* `Text.wholeLines`, `Text.lastLine`: the line without an ending, and those in front of it.
* `Text.exists_whole_of_lines`: a text is cut in front of any of its lines.
-/
import Directives.Proofs.Text

namespace Directives.Text

variable {front back line : Text}

/-- The text is empty or ends in a line feed: what is put behind it starts a new line. -/
def Whole (text : Text) : Prop := ∀ c ∈ text.getLast?, c = '\n'

lemma whole_nil : Whole [] := nofun

lemma whole_concat (text : Text) : Whole (text ++ ['\n']) := by
  simp [Whole]

/-- What stands behind the first character of whole lines are whole lines. -/
lemma Whole.tail {c : Char} {rest : Text} (h : Whole (c :: rest)) : Whole rest := by
  cases rest with
  | nil => exact whole_nil
  | cons d rest => rwa [Whole, List.getLast?_cons_cons] at h

/-- A character that is no line feed has more behind it. -/
lemma Whole.ne_nil {c : Char} {rest : Text} (h : Whole (c :: rest)) (hfeed : c ≠ '\n') :
    rest ≠ [] := by
  rintro rfl
  exact hfeed (h c rfl)

lemma Whole.append (hfront : front.Whole) (hback : back.Whole) : Whole (front ++ back) := by
  cases back with
  | nil => rwa [List.append_nil]
  | cons c rest => rwa [Whole, List.getLast?_append_of_ne_nil _ (List.cons_ne_nil c rest)]

/-! ### Lines in front -/

lemma onFirstLine_append {c : Char} {lines more : List Text} (h : lines ≠ []) :
    onFirstLine c (lines ++ more) = onFirstLine c lines ++ more := by
  cases lines with
  | nil => exact absurd rfl h
  | cons first rest => rfl

lemma length_onFirstLine {c : Char} {lines : List Text} (h : lines ≠ []) :
    (onFirstLine c lines).length = lines.length := by
  cases lines with
  | nil => exact absurd rfl h
  | cons first rest => rfl

/-- **Whole lines** stay the lines they are in front of another text. -/
theorem Whole.lines_append (h : front.Whole) (back : Text) :
    (front ++ back).lines = front.lines ++ back.lines := by
  induction front using lines.induct with
  | case1 => rfl
  | case2 rest ih => rw [List.cons_append, lines, lines, ih h.tail, List.cons_append]
  | case3 rest ih =>
      rw [List.cons_append, List.cons_append, lines, lines, ih h.tail.tail, List.cons_append]
  | case4 c rest hfeed hreturn ih =>
      obtain ⟨d, rest, rfl⟩ := List.exists_cons_of_ne_nil (h.ne_nil hfeed)
      have hreturn' : ∀ tail, c = '\r' → d :: rest ++ back = '\n' :: tail → False := by
        intro tail hc htail
        exact hreturn rest hc (by rw [(List.cons.inj htail).1])
      rw [List.cons_append, lines.eq_4 c _ hfeed hreturn', lines.eq_4 c _ hfeed hreturn,
        ih h.tail, onFirstLine_append (lines_eq_nil_iff.not.mpr (List.cons_ne_nil d rest))]

/-- Whole lines are as many as their line feeds. -/
theorem Whole.length_lines (h : front.Whole) : front.lines.length = front.count '\n' := by
  induction front using lines.induct with
  | case1 => rfl
  | case2 rest ih => rw [lines, List.length_cons, ih h.tail, List.count_cons_self]
  | case3 rest ih =>
      rw [lines, List.length_cons, ih h.tail.tail, List.count_cons_of_ne (by decide),
        List.count_cons_self]
  | case4 c rest hfeed hreturn ih =>
      have hlines : lines rest ≠ [] := lines_eq_nil_iff.not.mpr (h.ne_nil hfeed)
      rw [lines.eq_4 c rest hfeed hreturn, length_onFirstLine hlines, ih h.tail,
        List.count_cons_of_ne hfeed]

/-! ### The line without an ending -/

/-- A text without line feeds is one line, unless it is empty. -/
lemma lines_of_unbroken (h : '\n' ∉ line) (hne : line ≠ []) : line.lines = [line] := by
  induction line with
  | nil => exact absurd rfl hne
  | cons c rest ih =>
      rw [List.mem_cons, not_or] at h
      have hreturn : c = '\r' → rest.head? ≠ some '\n' := by
        rintro - hhead
        exact h.2 (List.mem_of_mem_head? hhead)
      have hlines : lines (c :: rest) = onFirstLine c (lines rest) := by
        refine lines.eq_4 c rest (Ne.symm h.1) ?_
        rintro tail hc rfl
        exact hreturn hc rfl
      cases rest with
      | nil => rw [hlines]; rfl
      | cons d rest => rw [hlines, ih h.2 (List.cons_ne_nil d rest)]; rfl

/-- A text is cut behind the last place of a character. -/
lemma cut_spec (c : Char) (text : Text) :
    text.rdropWhile (· != c) ++ text.rtakeWhile (· != c) = text
      ∧ (∀ d ∈ (text.rdropWhile (· != c)).getLast?, d = c) ∧ c ∉ text.rtakeWhile (· != c) := by
  refine ⟨List.rdropWhile_append_rtakeWhile, fun d hd => ?_, fun hc => ?_⟩
  · obtain ⟨hne, rfl⟩ := List.mem_getLast?_eq_getLast hd
    simpa using List.rdropWhile_last_not (· != c) text hne
  · simpa using List.mem_rtakeWhile_imp hc

/-- The line at the end of a text that has no ending, or nothing. -/
def lastLine (text : Text) : Text := text.rtakeWhile (· != '\n')

/-- The lines of a text in front of the one without an ending. -/
def wholeLines (text : Text) : Text := text.rdropWhile (· != '\n')

/-- **Every text** is whole lines with one line behind them that has no ending. -/
theorem wholeLines_append_lastLine (text : Text) : text.wholeLines ++ text.lastLine = text :=
  (cut_spec '\n' text).1

lemma whole_wholeLines (text : Text) : text.wholeLines.Whole := (cut_spec '\n' text).2.1

lemma unbroken_lastLine (text : Text) : '\n' ∉ text.lastLine := (cut_spec '\n' text).2.2

/-- **A text is cut** in front of any of its lines, behind whole lines. -/
theorem exists_whole_of_lines {text : Text} {before behind : List Text}
    (h : text.lines = before ++ line :: behind) :
    ∃ front back : Text, text = front ++ back ∧ front.Whole ∧ front.lines = before
      ∧ back.lines = line :: behind := by
  induction before generalizing text with
  | nil => exact ⟨[], text, rfl, whole_nil, rfl, h⟩
  | cons first before ih =>
      have hbroken : '\n' ∈ text := by
        by_contra hunbroken
        have hne : text ≠ [] := by
          rintro rfl
          cases h
        rw [lines_of_unbroken hunbroken hne] at h
        simp at h
      -- the text up to its first line feed is one whole line
      obtain ⟨own, rest, rfl, hown⟩ := List.eq_append_cons_of_mem hbroken
      have hwhole : Whole (own ++ ['\n']) := whole_concat own
      have hcount : (lines (own ++ ['\n'])).length = 1 := by
        rw [hwhole.length_lines, List.count_append, List.count_eq_zero_of_not_mem hown]
        rfl
      obtain ⟨single, hsingle⟩ := List.length_eq_one_iff.mp hcount
      rw [List.append_cons, hwhole.lines_append, hsingle] at h
      obtain ⟨rfl, hrest⟩ := List.cons.inj h
      obtain ⟨front, back, rfl, hfront, hbefore, hback⟩ := ih hrest
      refine ⟨own ++ ['\n'] ++ front, back, ?_, hwhole.append hfront, ?_, hback⟩
      · simp
      · rw [hwhole.lines_append, hsingle, hbefore]
        rfl

end Directives.Text
