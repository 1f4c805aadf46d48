/-
Which texts are patterns.

Whether a text is a pattern does not depend on the parts it is read into, only on where a
reader stands: inside how many groups, behind a backslash, or inside a class, behind which
character and perhaps a hyphen. So a small machine tells which texts are patterns, and the
reader agrees with it.

* `Glob.Standing`, `Glob.Standing.step`: where a reader stands, and each step.
* `Glob.Standing.run`, `Glob.Standing.accepts`: where a text leads to, and whether it makes a
  pattern whole.
* `Glob.isOk_readParts`: the reader agrees.
* `Glob.isOk_parse`: the patterns.
-/
import Mathlib.Tactic
import Directives.Glob.Basic

namespace Directives.Glob

/-! ### The machine -/

/-- Where a reader of a pattern stands. -/
inductive Standing
  /-- Outside of classes, and inside so many groups. -/
  | outside (depth : Nat)
  /-- Behind a backslash. -/
  | escape (depth : Nat)
  /-- Behind the bracket that opens a class. -/
  | opened (depth : Nat)
  /-- In front of the first character of a class. -/
  | first (depth : Nat)
  /-- Inside a class, behind a range that starts with `low`, and perhaps a hyphen. -/
  | inside (depth : Nat) (low : Char) (hyphen : Bool)
  deriving DecidableEq

namespace Standing

/-- Where a character leads to, if the pattern may go on with it. -/
def step : Standing → Char → Option Standing
  | outside depth, c =>
      if c = '\\' then some (escape depth)
      else if c = '[' then some (opened depth)
      else if c = '{' then some (outside (depth + 1))
      else if c = '}' then if depth = 0 then none else some (outside (depth - 1))
      else some (outside depth)
  | escape depth, _ => some (outside depth)
  | opened depth, c => if c = '!' ∨ c = '^' then some (first depth) else some (inside depth c false)
  | first depth, c => some (inside depth c false)
  | inside depth low hyphen, c =>
      if c = ']' then some (outside depth)
      else if hyphen then if c < low then none else some (inside depth low false)
      else if c = '-' then some (inside depth low true)
      else some (inside depth c false)

/-- Where a text leads to, if a pattern may go on with it. -/
def run (s : Standing) (text : Text) : Option Standing := text.foldlM step s

/-- The text makes a pattern whole. -/
def accepts (s : Standing) (text : Text) : Bool := s.run text = some (outside 0)

@[simp] lemma run_nil (s : Standing) : s.run [] = some s := rfl

lemma run_cons (s : Standing) (c : Char) (rest : Text) :
    s.run (c :: rest) = (s.step c).bind (·.run rest) := rfl

lemma run_append (s : Standing) (front back : Text) :
    s.run (front ++ back) = (s.run front).bind (·.run back) :=
  List.foldlM_append

lemma accepts_iff {s : Standing} {text : Text} :
    s.accepts text = true ↔ s.run text = some (outside 0) :=
  decide_eq_true_iff

lemma accepts_of_step {s s' : Standing} {c : Char} (h : s.step c = some s') (rest : Text) :
    s.accepts (c :: rest) = s'.accepts rest := by
  rw [accepts, run_cons, h]
  rfl

lemma accepts_of_step_none {s : Standing} {c : Char} (h : s.step c = none) (rest : Text) :
    s.accepts (c :: rest) = false := by
  rw [accepts, run_cons, h]
  rfl

/-- Outside of classes most characters change nothing. -/
lemma accepts_plain {c : Char} (h : c ≠ '\\' ∧ c ≠ '[' ∧ c ≠ '{' ∧ c ≠ '}') (depth : Nat)
    (rest : Text) : (outside depth).accepts (c :: rest) = (outside depth).accepts rest :=
  accepts_of_step (by simp [step, h]) rest

end Standing

/-! ### The reader -/

section Open

variable (o : Open) (part : Part)

@[simp] lemma groups_push : (o.push part).groups = o.groups := rfl

@[simp] lemma groups_replaceSlash : (o.replaceSlash part).groups = o.groups := by
  unfold Open.replaceSlash
  split <;> rfl

@[simp] lemma length_groups_comma : o.comma.groups.length = o.groups.length := by
  unfold Open.comma
  split <;> simp [*]

@[simp] lemma length_groups_openGroup : o.openGroup.groups.length = o.groups.length + 1 := rfl

end Open

/-- A group is closed where one is open. -/
lemma closeGroup_spec (o : Open) :
    (o.groups.length = 0 ∧ ∃ cause, o.closeGroup = .error cause)
      ∨ ∃ closed, o.closeGroup = .ok closed ∧ o.groups.length = closed.groups.length + 1 := by
  unfold Open.closeGroup
  cases hgroups : o.groups with
  | nil => exact .inl ⟨rfl, _, rfl⟩
  | cons group outer => exact .inr ⟨_, rfl, rfl⟩

/-- A character is a range of its own. -/
lemma add_single {r : Ranges} (h : r.hyphen = false) (c : Char) :
    r.add c = .ok { r with ranges := (c, c) :: r.ranges, hyphen := false } := by
  unfold Ranges.add
  rw [h]

/-- Behind a hyphen it is the end of the last range, if it does not lie before its start. -/
lemma add_end {r : Ranges} (h : r.hyphen = true) {low high : Char} {more : List (Char × Char)}
    (hranges : r.ranges = (low, high) :: more) (c : Char) :
    r.add c = if c < low then .error (.invalidRange low c)
      else .ok { r with ranges := (low, c) :: more, hyphen := false } := by
  unfold Ranges.add
  rw [h, hranges]

/-- A character that neither closes the class nor is a hyphen for a range is added as the
machine steps. -/
lemma isOk_add (o : Open) {r : Ranges} {low high : Char} {more : List (Char × Char)}
    (hranges : r.ranges = (low, high) :: more) {c : Char} (hclose : c ≠ ']')
    (hc : c = '-' → r.hyphen = true) (rest : Text)
    (hread : ∀ added low high more, added.ranges = (low, high) :: more →
      (readRanges o added rest).isOk
        = (Standing.inside o.groups.length low added.hyphen).accepts rest) :
    (do readRanges o (← r.add c) rest).isOk
      = (Standing.inside o.groups.length low r.hyphen).accepts (c :: rest) := by
  cases hhyphen : r.hyphen with
  | false =>
      have hne : c ≠ '-' := by
        intro hc'
        simp [hc hc'] at hhyphen
      have hstep : (Standing.inside o.groups.length low false).step c
          = some (.inside o.groups.length c false) := by
        simp [Standing.step, hclose, hne]
      rw [Standing.accepts_of_step hstep, add_single hhyphen c]
      exact hread _ c c r.ranges rfl
  | true =>
      rw [add_end hhyphen hranges]
      by_cases hlow : c < low
      · rw [Standing.accepts_of_step_none (by simp [Standing.step, hclose, hlow]), if_pos hlow]
        rfl
      · have hstep : (Standing.inside o.groups.length low true).step c
            = some (.inside o.groups.length low false) := by
          simp [Standing.step, hclose, hlow]
        rw [Standing.accepts_of_step hstep, if_neg hlow]
        exact hread _ low c more rfl

/-- Behind its bracket a class has a first character, unless a sign negates the class. -/
lemma accepts_opened (depth : Nat) {rest : Text}
    (hbang : ∀ more, rest = '!' :: more → False) (hcaret : ∀ more, rest = '^' :: more → False) :
    (Standing.outside depth).accepts ('[' :: rest) = (Standing.first depth).accepts rest := by
  rw [Standing.accepts_of_step rfl]
  cases rest with
  | nil => rfl
  | cons c rest =>
      have hsign : ¬ (c = '!' ∨ c = '^') := by
        rintro (rfl | rfl)
        · exact hbang rest rfl
        · exact hcaret rest rfl
      have hstep : (Standing.opened depth).step c = some (.inside depth c false) := if_neg hsign
      rw [Standing.accepts_of_step hstep, Standing.accepts_of_step rfl]

mutual

/-- **The reader agrees** with the machine. -/
theorem isOk_readParts (previous : Option Char) (o : Open) (rest : Text) :
    (readParts previous o rest).isOk = (Standing.outside o.groups.length).accepts rest := by
  rw [readParts.eq_def]
  split
  · cases o.groups <;> rfl
  · next rest => rw [isOk_readParts, groups_push, Standing.accepts_plain (by decide)]
  · next rest =>
    -- Whatever two stars are read as, and with a slash or without it, no group is opened.
    rw [Standing.accepts_plain (by decide), Standing.accepts_plain (by decide)]
    repeat' split
    all_goals
      rw [isOk_readParts]
      simp only [groups_push, groups_replaceSlash]
    all_goals rw [Standing.accepts_plain (by decide)]
  · next rest _ => rw [isOk_readParts, groups_push, Standing.accepts_plain (by decide)]
  · next rest =>
    rw [isOk_readClass o _ rfl rest]
    rfl
  · next rest =>
    rw [isOk_readClass o _ rfl rest]
    rfl
  · next rest hbang hcaret =>
    rw [isOk_readClass o _ rfl rest, accepts_opened _ hbang hcaret]
  · next rest =>
    rw [isOk_readParts, length_groups_openGroup]
    rfl
  · next rest =>
    rcases closeGroup_spec o with ⟨hdepth, cause, hclose⟩ | ⟨closed, hclose, hdepth⟩
    · rw [hclose, hdepth]
      rfl
    · have hread : (readParts (some '}') closed rest).isOk
          = (Standing.outside closed.groups.length).accepts rest := isOk_readParts _ _ _
      have hstep : (Standing.outside (closed.groups.length + 1)).step '}'
          = some (.outside closed.groups.length) := rfl
      rw [hdepth, Standing.accepts_of_step hstep, ← hread, hclose]
      rfl
  · next rest =>
    rw [isOk_readParts, length_groups_comma, Standing.accepts_plain (by decide)]
  · rfl
  · next c rest =>
    rw [isOk_readParts, groups_push]
    rfl
  · next c rest _ _ _ _ _ hbracket hopen hclose _ hlast hescape =>
    have hbackslash : c ≠ '\\' := by
      rintro rfl
      cases rest with
      | nil => exact hlast rfl rfl
      | cons c rest => exact hescape c rest rfl rfl
    rw [isOk_readParts, groups_push,
      Standing.accepts_plain ⟨hbackslash, hbracket, hopen, hclose⟩]
termination_by rest.length

/-- They agree at the first character of a class. -/
theorem isOk_readClass (o : Open) (r : Ranges) (h : r.hyphen = false) (rest : Text) :
    (readClass o r rest).isOk = (Standing.first o.groups.length).accepts rest := by
  rw [readClass.eq_def]
  cases rest with
  | nil => rfl
  | cons c rest =>
      have hread := isOk_readRanges o { r with ranges := (c, c) :: r.ranges, hyphen := false } rfl
        rest
      rw [Standing.accepts_of_step rfl, ← hread]
      simp only [add_single h c]
      rfl
termination_by rest.length

/-- They agree inside a class. -/
theorem isOk_readRanges (o : Open) (r : Ranges) {low high : Char} {more : List (Char × Char)}
    (h : r.ranges = (low, high) :: more) (rest : Text) :
    (readRanges o r rest).isOk = (Standing.inside o.groups.length low r.hyphen).accepts rest := by
  rw [readRanges.eq_def]
  split
  · rfl
  · next rest =>
    rw [isOk_readParts, groups_push]
    rfl
  · next rest =>
    by_cases hhyphen : r.hyphen = true
    · rw [if_pos hhyphen]
      exact isOk_add o h (by decide) (fun _ => hhyphen) rest
        fun added _ _ _ h => isOk_readRanges o added h rest
    · have hread := isOk_readRanges o { r with hyphen := true } h rest
      rw [if_neg hhyphen, Bool.eq_false_of_not_eq_true hhyphen, Standing.accepts_of_step rfl,
        ← hread]
  · next c rest hclose hhyphen =>
    exact isOk_add o h hclose (fun hc => (hhyphen hc).elim) rest
      fun added _ _ _ h => isOk_readRanges o added h rest
termination_by rest.length

end

/-- **The patterns** are the texts that make a pattern whole. -/
theorem isOk_parse (pattern : Text) :
    (parse pattern).isOk = (Standing.outside 0).accepts pattern := by
  have hread := isOk_readParts none {} pattern
  rw [show (0 : Nat) = ({} : Open).groups.length from rfl, ← hread]
  unfold parse
  cases readParts none {} pattern <;> rfl

end Directives.Glob
