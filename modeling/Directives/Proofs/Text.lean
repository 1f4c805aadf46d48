/-
Texts that are looked through, trimmed, joined and cut.

* `Text.before_iff_lt`: the order of texts is the lexicographic one.
* `Text.contains_iff`: looking for a text.
* `Text.trimEnd_append`, `Text.trimEnd_append_cons`, `Text.trimEnd_trimEnd`, `Text.trim_trim`,
  `Text.trim_append_append`, `Text.exists_trim`: trimming.
* `Text.join_append`, `Text.join_eq_intercalate`, `Text.infix_join`: joining.
* `Text.append_cons_inj`: cutting at the first place of a character.
* `Text.lines_induction`: from the text behind a line to the text.
* `Text.unbroken_of_mem_lines`, `Text.unbroken_of_mem_splitOn`: what a text is cut into
  has no line feeds.
-/
import Mathlib.Data.Char
import Mathlib.Data.List.DropRight
import Mathlib.Data.List.Lex
import Mathlib.Tactic
import Directives.Text.Blank
import Directives.Text.Lines

namespace Directives.Text

/-! ### The order of texts -/

/-- The order of code points is the lexicographic order. -/
lemma before_iff_lt {a b : Text} : before a b = true ↔ a < b := by
  induction a generalizing b with
  | nil => cases b <;> simp [before]
  | cons c a ih =>
      cases b with
      | nil => simp [before]
      | cons d b => simp [before, ih, List.cons_lt_cons_iff]

/-! ### Looking for a text -/

lemma contains_iff {pattern text : Text} : contains pattern text = true ↔ pattern <:+: text := by
  induction text with
  | nil => rw [contains, List.isEmpty_iff, List.infix_nil]
  | cons c rest ih =>
      rw [contains, Bool.or_eq_true, ih, startsWith, List.isPrefixOf_iff_prefix,
        List.infix_cons_iff]

/-! ### Trimming -/

lemma trimEnd_prefix (text : Text) : text.trimEnd <+: text :=
  List.rdropWhile_prefix isBlank text

@[simp] lemma trimEnd_trimEnd (text : Text) : text.trimEnd.trimEnd = text.trimEnd :=
  List.rdropWhile_idempotent isBlank text

lemma unbroken_trimEnd {text : Text} (h : '\n' ∉ text) : '\n' ∉ text.trimEnd := by
  have hpart : text.trimEnd <+: text := trimEnd_prefix text
  exact fun hmem => h (hpart.subset hmem)

/-- Trimming takes a text to nothing when it has blanks only. -/
lemma trimEnd_eq_nil_iff {text : Text} : text.trimEnd = [] ↔ ∀ c ∈ text, isBlank c = true :=
  List.rdropWhile_eq_nil_iff

/-- Trimming goes on in front of a text that it takes to nothing. -/
lemma trimEnd_append (front back : Text) :
    (front ++ back).trimEnd
      = if back.trimEnd = [] then front.trimEnd else front ++ back.trimEnd := by
  simp only [trimEnd, List.reverse_append, List.dropWhile_append, List.isEmpty_iff,
    List.reverse_eq_nil_iff]
  split_ifs with h
  · rfl
  · rw [List.reverse_append, List.reverse_reverse]

/-- Trimming stops at a character that is no blank. -/
lemma trimEnd_append_cons {c : Char} (h : isBlank c = false) (front back : Text) :
    (front ++ c :: back).trimEnd = front ++ c :: back.trimEnd := by
  have hc : trimEnd [c] = [c] := by simp [trimEnd, h]
  rw [trimEnd_append, ← List.singleton_append, trimEnd_append]
  by_cases hback : back.trimEnd = []
  · rw [if_pos hback, hc, if_neg (List.cons_ne_nil c []), hback]
  · rw [if_neg hback, if_neg (by simp), List.singleton_append]

/-- Where a text starts that was trimmed in front, there is nothing to trim in front. -/
lemma trimStart_eq_self_of_prefix {front text : Text} (h : front <+: text.trimStart) :
    front.trimStart = front := by
  cases front with
  | nil => rfl
  | cons c rest =>
      obtain ⟨back, hback⟩ := h
      have hkept : (c :: (rest ++ back)).dropWhile isBlank = c :: (rest ++ back) := by
        rw [← List.cons_append, hback]
        exact List.dropWhile_idempotent isBlank text
      have hc := List.dropWhile_eq_self_iff.mp hkept (Nat.succ_pos _)
      exact List.dropWhile_cons_of_neg hc

@[simp] lemma trim_trim (text : Text) : text.trim.trim = text.trim := by
  have hfront : text.trim <+: text.trimStart := trimEnd_prefix text.trimStart
  rw [trim, trimStart_eq_self_of_prefix hfront, trim, trimEnd_trimEnd]

/-- Blanks on either side are trimmed. -/
lemma trim_append_append {before after : Text} (hbefore : ∀ c ∈ before, isBlank c = true)
    (hafter : ∀ c ∈ after, isBlank c = true) (text : Text) :
    (before ++ text ++ after).trim = text.trim := by
  have hnothing : after.trimEnd = [] := trimEnd_eq_nil_iff.mpr hafter
  rw [List.append_assoc, trim, trimStart, List.dropWhile_append_of_pos hbefore,
    List.dropWhile_append]
  split_ifs with hempty
  · -- there are blanks only
    rw [List.isEmpty_iff] at hempty
    rw [List.dropWhile_eq_nil_iff.mpr hafter, trim, trimStart, hempty]
  · rw [trimEnd_append, if_pos hnothing, trim, trimStart]

/-- Where a text starts with a character that is no blank, only its end is trimmed. -/
lemma trim_cons {c : Char} (h : isBlank c = false) (rest : Text) :
    trim (c :: rest) = c :: rest.trimEnd := by
  rw [trim, trimStart, List.dropWhile_cons_of_neg (by simp [h])]
  exact trimEnd_append_cons h [] rest

/-- A text ends in blanks behind what is left when its end is trimmed. -/
lemma trimEnd_append_rtakeWhile (text : Text) : text.trimEnd ++ text.rtakeWhile isBlank = text :=
  List.rdropWhile_append_rtakeWhile

lemma trim_trimEnd (text : Text) : text.trimEnd.trim = text.trim := by
  have hblanks : ∀ c ∈ text.rtakeWhile isBlank, isBlank c = true :=
    fun c hc => List.mem_rtakeWhile_imp hc
  have h := trim_append_append (List.forall_mem_nil (isBlank · = true)) hblanks text.trimEnd
  rw [List.nil_append, trimEnd_append_rtakeWhile] at h
  exact h.symm

/-- A text has blanks on either side of what is left when it is trimmed. -/
lemma exists_trim (text : Text) :
    ∃ before after : Text, (∀ c ∈ before, isBlank c = true) ∧ (∀ c ∈ after, isBlank c = true)
      ∧ text = before ++ text.trim ++ after := by
  refine ⟨text.takeWhile isBlank, text.trimStart.rtakeWhile isBlank,
    fun c hc => List.mem_takeWhile_imp hc, fun c hc => List.mem_rtakeWhile_imp hc, ?_⟩
  rw [List.append_assoc, trim, trimEnd_append_rtakeWhile, trimStart,
    List.takeWhile_append_dropWhile]

lemma trim_sublist (text : Text) : List.Sublist text.trim text := by
  have hfront : text.trim <+: text.trimStart := trimEnd_prefix text.trimStart
  exact hfront.sublist.trans (List.dropWhile_sublist isBlank)

/-! ### Joining -/

lemma join_cons {separator part : Text} {rest : List Text} (h : rest ≠ []) :
    join separator (part :: rest) = part ++ separator ++ join separator rest := by
  cases rest with
  | nil => exact absurd rfl h
  | cons next rest => rfl

lemma join_append {separator : Text} {before after : List Text} (hbefore : before ≠ [])
    (hafter : after ≠ []) :
    join separator (before ++ after)
      = join separator before ++ separator ++ join separator after := by
  induction before with
  | nil => exact absurd rfl hbefore
  | cons part rest ih =>
      cases rest with
      | nil => exact join_cons hafter
      | cons next rest =>
          have hrest : next :: rest ≠ [] := List.cons_ne_nil next rest
          calc join separator (part :: (next :: rest ++ after))
              = part ++ separator ++ join separator (next :: rest ++ after) := join_cons (by simp)
            _ = part ++ separator
                  ++ (join separator (next :: rest) ++ separator ++ join separator after) := by
                rw [ih hrest]
            _ = join separator (part :: next :: rest) ++ separator ++ join separator after := by
                rw [join_cons hrest]
                simp only [List.append_assoc]

lemma mem_join {separator : Text} {parts : List Text} {c : Char} (h : c ∈ join separator parts) :
    c ∈ separator ∨ ∃ part ∈ parts, c ∈ part := by
  induction parts with
  | nil => cases h
  | cons part rest ih =>
      by_cases hrest : rest = []
      · rw [hrest, join] at h
        exact .inr ⟨part, List.mem_cons_self, h⟩
      · rw [join_cons hrest, List.mem_append, List.mem_append] at h
        obtain (hpart | hseparator) | hlater := h
        · exact .inr ⟨part, List.mem_cons_self, hpart⟩
        · exact .inl hseparator
        · refine (ih hlater).imp_right ?_
          rintro ⟨other, hother, hc⟩
          exact ⟨other, List.mem_cons_of_mem part hother, hc⟩

lemma join_eq_intercalate (separator : Text) (parts : List Text) :
    join separator parts = List.intercalate separator parts := by
  induction parts with
  | nil => rfl
  | cons part rest ih =>
      cases rest with
      | nil => exact List.intercalate_singleton.symm
      | cons next rest => rw [join_cons (by simp), ih, List.intercalate_cons_cons]

/-- Parts that follow one another stand, joined, in the text of all parts. -/
lemma infix_join {separator : Text} {some all : List Text} (hsome : some ≠ [])
    (h : some <:+: all) : join separator some <:+: join separator all := by
  obtain ⟨before, after, rfl⟩ := h
  have hfront : join separator some <:+: join separator (before ++ some) := by
    cases before with
    | nil => exact List.infix_rfl
    | cons part rest =>
        rw [join_append (by simp) hsome]
        exact (List.suffix_append _ _).isInfix
  cases after with
  | nil => rwa [List.append_nil]
  | cons part rest =>
      rw [join_append (by simp [hsome]) (by simp), List.append_assoc]
      exact hfront.trans (List.prefix_append _ _).isInfix

/-- A part stands in the text of all parts. -/
lemma infix_join_of_mem {separator part : Text} {all : List Text} (h : part ∈ all) :
    part <:+: join separator all := by
  obtain ⟨before, after, rfl⟩ := List.append_of_mem h
  have hpart : [part] <:+: before ++ part :: after := ⟨before, after, by simp⟩
  exact infix_join (by simp) hpart

/-- A text is its lines with line feeds between. -/
lemma join_splitOn (text : Text) : join "\n" (text.splitOn '\n') = text := by
  rw [join_eq_intercalate]
  exact List.intercalate_splitOn '\n'

/-- Lines that are joined by line feeds, with one more in front. -/
lemma cons_join {lines : List Text} (h : lines ≠ []) :
    '\n' :: join "\n" lines = lines.flatMap ('\n' :: ·) := by
  induction lines with
  | nil => exact absurd rfl h
  | cons line rest ih =>
      cases rest with
      | nil => simp [join]
      | cons next rest =>
          rw [join_cons (by simp), List.flatMap_cons, ← ih (by simp)]
          simp

/-! ### Cutting -/

/-- There is one way to cut a text at the first place of a character. -/
lemma append_cons_inj {c : Char} {front other behind rest : Text} (h : c ∉ front)
    (hother : c ∉ other) (heq : front ++ c :: behind = other ++ c :: rest) :
    front = other ∧ behind = rest := by
  induction front generalizing other with
  | nil =>
      cases other with
      | nil => exact ⟨rfl, (List.cons.inj heq).2⟩
      | cons d other => exact absurd (List.cons.inj heq).1 (List.ne_of_not_mem_cons hother)
  | cons d front ih =>
      cases other with
      | nil => exact absurd (List.cons.inj heq).1.symm (List.ne_of_not_mem_cons h)
      | cons e other =>
          obtain ⟨rfl, hbehind⟩ := List.cons.inj heq
          obtain ⟨rfl, rfl⟩ := ih (List.not_mem_of_not_mem_cons h)
            (List.not_mem_of_not_mem_cons hother) hbehind
          exact ⟨rfl, rfl⟩

/-- A numeral has no line feed. -/
lemma unbroken_ofNat (n : Nat) : '\n' ∉ ofNat n := by
  intro hmem
  have hdigit := Nat.isDigit_of_mem_toDigits (by decide) (by decide) hmem
  exact absurd hdigit (by decide)

/-- What a text is cut into at its line feeds has none. -/
lemma unbroken_of_mem_splitOn {text line : Text} (h : line ∈ text.splitOn '\n') :
    '\n' ∉ line := by
  induction text generalizing line with
  | nil =>
      rw [List.splitOn_nil, List.mem_singleton] at h
      simp [h]
  | cons c rest ih =>
      obtain ⟨first, others, hcut⟩ := List.exists_cons_of_ne_nil (List.splitOn_ne_nil '\n' rest)
      rw [List.splitOn_cons_eq_if_modifyHead] at h
      split_ifs at h with hbreak
      · rcases List.mem_cons.mp h with rfl | h
        · exact List.not_mem_nil
        · exact ih h
      · rw [hcut] at h ih
        have hfeed : '\n' ≠ c := fun hfeed => hbreak (beq_iff_eq.mpr hfeed.symm)
        rcases List.mem_cons.mp h with rfl | h
        · exact List.not_mem_cons_of_ne_of_not_mem hfeed (ih List.mem_cons_self)
        · exact ih (List.mem_cons_of_mem first h)

/-! ### Lines -/

/-- A text has lines unless it is empty. -/
lemma lines_eq_nil_iff {text : Text} : text.lines = [] ↔ text = [] := by
  refine ⟨fun h => ?_, fun h => h ▸ rfl⟩
  induction text using lines.induct with
  | case1 => rfl
  | case2 rest => simp [lines] at h
  | case3 rest => simp [lines] at h
  | case4 c rest hfeed hreturn =>
      rw [lines.eq_4 c rest hfeed hreturn] at h
      cases hrest : lines rest <;> simp [hrest, onFirstLine] at h

/-- Lines with more text in front of the first. -/
def inFront (front : Text) : List Text → List Text
  | [] => [front]
  | first :: rest => (front ++ first) :: rest

lemma inFront_onFirstLine (front : Text) (c : Char) (lines : List Text) :
    inFront front (onFirstLine c lines) = inFront (front ++ [c]) lines := by
  cases lines with
  | nil => rfl
  | cons first rest => simp [inFront, onFirstLine]

/-- **Induction over the lines of a text**: a text has no lines, or it is one line, or a line
stands in front of a line ending and a text. -/
@[elab_as_elim]
theorem lines_induction {P : Text → List Text → Prop} (nil : P [] [])
    (line : ∀ line, '\n' ∉ line → P line [line])
    (cut : ∀ front ending back : Text, '\n' ∉ front → ending = ['\n'] ∨ ending = ['\r', '\n'] →
      P back back.lines → P (front ++ (ending ++ back)) (front :: back.lines))
    (text : Text) : P text text.lines := by
  have hself : ∀ back : Text, P back (inFront [] back.lines) → P back back.lines := by
    intro back h
    cases hlines : back.lines with
    | nil => rwa [lines_eq_nil_iff.mp hlines]
    | cons first rest => rwa [hlines] at h
  have hfront : ∀ front : Text, '\n' ∉ front → P (front ++ text) (inFront front text.lines) := by
    induction text using lines.induct with
    | case1 => exact fun front h => (List.append_nil front).symm ▸ line front h
    | case2 rest ih =>
        intro front h
        rw [lines, inFront, List.append_nil]
        exact cut front ['\n'] rest h (.inl rfl) (hself rest (ih [] List.not_mem_nil))
    | case3 rest ih =>
        intro front h
        rw [lines, inFront, List.append_nil]
        exact cut front ['\r', '\n'] rest h (.inr rfl) (hself rest (ih [] List.not_mem_nil))
    | case4 c rest hfeed hreturn ih =>
        intro front h
        rw [lines.eq_4 c rest hfeed hreturn, inFront_onFirstLine, List.append_cons]
        exact ih (front ++ [c]) (by simp [h, Ne.symm hfeed])
  exact hself text (hfront [] List.not_mem_nil)

/-- The lines of a text have no line feeds. -/
lemma unbroken_of_mem_lines {text line : Text} (h : line ∈ text.lines) : '\n' ∉ line := by
  have hlines : ∀ text : Text, ∀ line ∈ text.lines, '\n' ∉ line := by
    intro text
    induction text using lines_induction with
    | nil => exact List.forall_mem_nil _
    | line line h => exact List.forall_mem_singleton.mpr h
    | cut front ending back h _ ih => exact List.forall_mem_cons.mpr ⟨h, ih⟩
  exact hlines text line h

end Directives.Text
