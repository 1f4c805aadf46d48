/-
Patterns with slashes for their backslashes.

A scan trims its patterns and reads a slash for every backslash, so what a pattern escapes
is not escaped for it. Trimming makes no difference to a text without backslashes. Slashes
make none as long as no bracket or brace is escaped and every range keeps its order. But a
backslash at the end, which escapes nothing, is no fault any more.

* `Glob.slashed`: a slash for a backslash.
* `Glob.Slashable`: the slashes change no meaning.
* `Glob.Standing.run_slashed`: where a text leads to with slashes for its backslashes.
* `Glob.Standing.accepts_trim`: trimming a text without backslashes.
* `Glob.isOk_parse_patternText`, `Glob.isOk_parse_slashed`: what a scan takes for a pattern.
-/
import Directives.Proofs.Glob.Accepted
import Directives.Proofs.Text
import Directives.Scan

namespace Directives.Glob

/-- A slash for a backslash. -/
def slashed (c : Char) : Char := if c = '\\' then '/' else c

lemma slashed_ne_backslash (c : Char) : slashed c ≠ '\\' := by
  unfold slashed
  split
  · decide
  · assumption

/-- Other characters than slashes and backslashes are not told apart anew. -/
lemma slashed_eq_iff {c d : Char} (hd : d ≠ '\\' ∧ d ≠ '/') : slashed c = d ↔ c = d := by
  unfold slashed
  split
  · next h => simp [h, hd.1.symm, hd.2.symm]
  · rfl

lemma isBlank_slashed (c : Char) : isBlank (slashed c) = isBlank c := by
  unfold slashed
  split
  · next h => rw [h]; decide
  · rfl

namespace Standing

/-! ### Steps with slashes -/

/-- Where a text leads to whose backslashes escape nothing. -/
def settle : Standing → Standing
  | escape depth => outside depth
  | inside depth low hyphen => inside depth (slashed low) hyphen
  | s => s

lemma settle_eq_outside_iff {s : Standing} {depth : Nat} :
    s.settle = outside depth ↔ s = outside depth ∨ s = escape depth := by
  cases s <;> simp [settle]

/-- What a backslash escapes is no bracket or brace, and a slash for a backslash does not
change the order of the ends of a range. -/
def Keeps : Standing → Char → Prop
  | escape _, c => c ≠ '[' ∧ c ≠ '{' ∧ c ≠ '}'
  | inside _ low true, c => c < low ↔ slashed c < slashed low
  | _, _ => True

instance (s : Standing) (c : Char) : Decidable (s.Keeps c) := by
  unfold Keeps
  split <;> infer_instance

/-- A character with a slash for a backslash leads where the character leads. -/
lemma step_slashed {s : Standing} {c : Char} (h : s.Keeps c) :
    s.settle.step (slashed c) = (s.step c).map settle := by
  cases s with
  | outside depth =>
      by_cases hc : c = '\\'
      · rw [hc]
        rfl
      · have hslashed : slashed c = c := if_neg hc
        simp only [settle, hslashed, step, hc, if_false]
        split_ifs <;> rfl
  | escape depth =>
      simp [settle, step, slashed_ne_backslash, slashed_eq_iff, h.1, h.2.1, h.2.2]
  | opened depth =>
      simp only [settle, step, slashed_eq_iff (show '!' ≠ '\\' ∧ '!' ≠ '/' by decide),
        slashed_eq_iff (show '^' ≠ '\\' ∧ '^' ≠ '/' by decide)]
      split_ifs <;> rfl
  | first depth => rfl
  | inside depth low hyphen =>
      have hclose : slashed c = ']' ↔ c = ']' := slashed_eq_iff (by decide)
      have hdash : slashed c = '-' ↔ c = '-' := slashed_eq_iff (by decide)
      cases hyphen with
      | false =>
          simp only [settle, step, hclose, hdash, Bool.false_eq_true, if_false]
          split_ifs <;> rfl
      | true =>
          have horder : c < low ↔ slashed c < slashed low := h
          simp only [settle, step, hclose, ← horder]
          split_ifs <;> rfl

/-! ### Runs with slashes -/

/-- Slashes for the backslashes of a text change no meaning. -/
def Slashable (s : Standing) : Text → Prop
  | [] => True
  | c :: rest => s.Keeps c ∧ ∀ s' ∈ s.step c, s'.Slashable rest

instance decidableSlashable : (s : Standing) → (text : Text) → Decidable (s.Slashable text)
  | _, [] => .isTrue trivial
  | s, c :: rest =>
      have (s' : Standing) : Decidable (s'.Slashable rest) := decidableSlashable s' rest
      inferInstanceAs (Decidable (s.Keeps c ∧ ∀ s' ∈ s.step c, s'.Slashable rest))

/-- **A text with slashes** for its backslashes leads where the text leads. -/
theorem run_slashed {s : Standing} {text : Text} (h : s.Slashable text) :
    s.settle.run (text.map slashed) = (s.run text).map settle := by
  induction text generalizing s with
  | nil => rfl
  | cons c rest ih =>
      rw [List.map_cons, run_cons, run_cons, step_slashed h.1]
      cases hstep : s.step c with
      | none => rfl
      | some s' => exact ih (h.2 s' hstep)

/-- Where no backslash was read, slashes change nothing. -/
lemma keeps_of_settle {s : Standing} (hs : s.settle = s) {c : Char} (hc : c ≠ '\\') :
    s.Keeps c := by
  have hslashed : slashed c = c := if_neg hc
  cases s with
  | escape depth => exact Standing.noConfusion hs
  | inside depth low hyphen =>
      have hlow : slashed low = low := (Standing.inside.inj hs).2.1
      cases hyphen with
      | false => trivial
      | true => rw [Keeps, hslashed, hlow]
  | outside depth => trivial
  | opened depth => trivial
  | first depth => trivial

lemma slashable_of_notMem {s : Standing} (hs : s.settle = s) {text : Text} (h : '\\' ∉ text) :
    s.Slashable text := by
  induction text generalizing s with
  | nil => trivial
  | cons c rest ih =>
      have hc : c ≠ '\\' := fun hc => h (hc ▸ List.mem_cons_self)
      have hkeeps : s.Keeps c := keeps_of_settle hs hc
      refine ⟨hkeeps, fun s' hstep => ih ?_ fun hrest => h (List.mem_cons_of_mem c hrest)⟩
      have hsettle := step_slashed hkeeps
      rw [hs, slashed, if_neg hc, Option.mem_def.mp hstep] at hsettle
      exact (Option.some.inj hsettle).symm

/-! ### Where a backslash escapes nothing -/

/-- A reader comes to stand behind a backslash by reading one. -/
lemma step_eq_escape_iff {s : Standing} {c : Char} {depth : Nat} :
    s.step c = some (escape depth) ↔ s = outside depth ∧ c = '\\' := by
  constructor
  · intro h
    cases s with
    | outside outer =>
        by_cases hc : c = '\\'
        · rw [step, if_pos hc] at h
          cases h
          exact ⟨rfl, hc⟩
        · rw [step, if_neg hc] at h
          split_ifs at h <;> cases h
    | escape outer => cases h
    | opened outer =>
        rw [step] at h
        split_ifs at h <;> cases h
    | first outer => cases h
    | inside outer low hyphen =>
        rw [step] at h
        split_ifs at h <;> cases h
  · rintro ⟨rfl, rfl⟩
    rfl

lemma run_eq_escape_iff {s : Standing} (hs : ∀ depth, s ≠ .escape depth) {text : Text}
    {depth : Nat} :
    s.run text = some (escape depth)
      ↔ ∃ front, text = front ++ ['\\'] ∧ s.run front = some (outside depth) := by
  constructor
  · intro h
    rcases List.eq_nil_or_concat text with rfl | ⟨front, c, rfl⟩
    · exact (hs depth (Option.some.inj h)).elim
    · rw [List.concat_eq_append, run_append] at h
      obtain ⟨s', hfront, hstep⟩ := Option.bind_eq_some_iff.mp h
      rw [run_cons] at hstep
      obtain ⟨s'', hstep, hlast⟩ := Option.bind_eq_some_iff.mp hstep
      obtain rfl := Option.some.inj hlast
      obtain ⟨rfl, rfl⟩ := step_eq_escape_iff.mp hstep
      exact ⟨front, List.concat_eq_append, hfront⟩
  · rintro ⟨front, rfl, hfront⟩
    rw [run_append, hfront]
    rfl

/-! ### Blanks at the ends -/

lemma step_blank_outside {c : Char} (h : isBlank c = true) (depth : Nat) :
    (outside depth).step c = some (outside depth) := by
  have hne : ∀ d, isBlank d = false → c ≠ d := fun d hd hc => by simp [← hc, h] at hd
  simp [step, hne '\\' (by decide), hne '[' (by decide), hne '{' (by decide),
    hne '}' (by decide)]

lemma run_blanks_outside {blanks : Text} (h : ∀ c ∈ blanks, isBlank c = true) (depth : Nat) :
    (outside depth).run blanks = some (outside depth) := by
  induction blanks with
  | nil => rfl
  | cons c rest ih =>
      obtain ⟨hc, hrest⟩ := List.forall_mem_cons.mp h
      rw [run_cons, step_blank_outside hc]
      exact ih hrest

/-- A blank closes no class. -/
lemma step_blank {s s' : Standing} (hs : ∀ depth, s ≠ escape depth) {c : Char}
    (h : isBlank c = true) (hstep : s.step c = some s') :
    (∀ depth, s' ≠ escape depth) ∧ (s' = outside 0 ↔ s = outside 0) := by
  have hclose : c ≠ ']' := by
    rintro rfl
    revert h
    decide
  cases s with
  | outside depth =>
      rw [step_blank_outside h] at hstep
      obtain rfl := Option.some.inj hstep
      exact ⟨hs, Iff.rfl⟩
  | escape depth => exact (hs depth rfl).elim
  | opened depth =>
      simp only [step] at hstep
      split_ifs at hstep <;> simp [← Option.some.inj hstep]
  | first depth => simp [← Option.some.inj hstep]
  | inside depth low hyphen =>
      simp only [step, hclose, if_false] at hstep
      split_ifs at hstep <;> simp [← Option.some.inj hstep]

/-- Blanks make a pattern whole where it is whole without them. -/
lemma accepts_blanks {s : Standing} (hs : ∀ depth, s ≠ escape depth) {blanks : Text}
    (h : ∀ c ∈ blanks, isBlank c = true) : s.accepts blanks = true ↔ s = outside 0 := by
  induction blanks generalizing s with
  | nil => simp [accepts]
  | cons c rest ih =>
      obtain ⟨hc, hrest⟩ := List.forall_mem_cons.mp h
      cases hstep : s.step c with
      | none =>
          rw [accepts_of_step_none hstep]
          refine ⟨fun hfalse => Bool.noConfusion hfalse, ?_⟩
          rintro rfl
          simp [step_blank_outside hc] at hstep
      | some s' =>
          obtain ⟨hs', hwhole⟩ := step_blank hs hc hstep
          rw [accepts_of_step hstep, ih hs' hrest, hwhole]

/-- **Trimming** makes no difference to a pattern without backslashes. -/
theorem accepts_trim {text : Text} (h : '\\' ∉ text) :
    (outside 0).accepts text.trim = (outside 0).accepts text := by
  obtain ⟨before, after, hbefore, hafter, htext⟩ := Text.exists_trim text
  have hsplit : (outside 0).run text = ((outside 0).run text.trim).bind (·.run after) := by
    conv_lhs => rw [htext]
    rw [run_append, run_append, run_blanks_outside hbefore]
    rfl
  rw [Bool.eq_iff_iff, accepts_iff, accepts_iff, hsplit]
  cases hrun : (outside 0).run text.trim with
  | none => rfl
  | some s =>
      have hs : ∀ depth, s ≠ escape depth := by
        rintro depth rfl
        obtain ⟨front, hfront, -⟩ := (run_eq_escape_iff fun _ => Standing.noConfusion).mp hrun
        have hmem : '\\' ∈ text.trim := by simp [hfront]
        exact h ((Text.trim_sublist text).subset hmem)
      rw [Option.bind_some, ← accepts_iff, accepts_blanks hs hafter, Option.some_inj]

end Standing

/-- Slashes for the backslashes of a pattern change no meaning: no bracket or brace is
escaped, and no range has a backslash at one end whose place among the characters matters. -/
def Slashable (pattern : Text) : Prop := (Standing.outside 0).Slashable pattern

instance (pattern : Text) : Decidable (Slashable pattern) :=
  Standing.decidableSlashable (.outside 0) pattern

lemma slashable_of_notMem {pattern : Text} (h : '\\' ∉ pattern) : Slashable pattern :=
  Standing.slashable_of_notMem rfl h

/-! ### The pattern of a scan -/

/-- A pattern may be trimmed before or after its backslashes are replaced. -/
lemma patternText_eq (pattern : Text) :
    ScanReport.patternText pattern = Text.trim (pattern.map slashed) := by
  have hblank : isBlank ∘ slashed = isBlank := funext isBlank_slashed
  rw [Text.trim, Text.trimStart, Text.trimEnd, List.dropWhile_map, hblank, ← List.map_reverse,
    List.dropWhile_map, hblank, ← List.map_reverse]
  rfl

/-- A scan takes a text for a pattern if it is one with slashes for its backslashes. -/
theorem isOk_parse_patternText (pattern : Text) :
    (parse (ScanReport.patternText pattern)).isOk = (parse (pattern.map slashed)).isOk := by
  have hnone : '\\' ∉ pattern.map slashed := by
    rw [List.mem_map]
    rintro ⟨c, -, hc⟩
    exact slashed_ne_backslash c hc
  rw [patternText_eq, isOk_parse, isOk_parse, Standing.accepts_trim hnone]

/-- **Where slashes change no meaning** a scan takes the patterns for patterns, and also
those that only lack what their last backslash escapes. -/
theorem isOk_parse_slashed {pattern : Text} (h : Slashable pattern) :
    (parse (pattern.map slashed)).isOk = true
      ↔ (parse pattern).isOk = true
        ∨ ∃ front, pattern = front ++ ['\\'] ∧ (parse front).isOk = true := by
  have hrun : (Standing.outside 0).run (pattern.map slashed)
      = ((Standing.outside 0).run pattern).map Standing.settle := Standing.run_slashed h
  have hescape : (Standing.outside 0).run pattern = some (.escape 0)
      ↔ ∃ front, pattern = front ++ ['\\'] ∧ (Standing.outside 0).run front = some (.outside 0) :=
    Standing.run_eq_escape_iff fun _ => Standing.noConfusion
  simp only [isOk_parse, Standing.accepts_iff, ← hescape, hrun, Option.map_eq_some_iff,
    Standing.settle_eq_outside_iff, and_or_left, exists_or, exists_eq_right]

/-- A text without backslashes is a pattern for a scan if it is one. -/
lemma isOk_parse_patternText_of_notMem {pattern : Text} (h : '\\' ∉ pattern) :
    (parse (ScanReport.patternText pattern)).isOk = (parse pattern).isOk := by
  have hnone : ¬ ∃ front, pattern = front ++ ['\\'] ∧ (parse front).isOk = true := by
    rintro ⟨front, rfl, -⟩
    exact h (by simp)
  rw [isOk_parse_patternText, Bool.eq_iff_iff, isOk_parse_slashed (slashable_of_notMem h),
    or_iff_left hnone]

end Directives.Glob
