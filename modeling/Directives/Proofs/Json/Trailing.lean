/-
Nothing stands behind a value.

The tokens of a text stay its tokens when a punctuation character is put behind it, and the
grammar has one value in a text. So no text that is a value is one with another value behind
it, as is the case on a line to which a second record is put. In front of a value spaces are
passed over, and any other character that starts no token is not.

* `Json.tokens_append`: the tokens in front of a punctuation character.
* `Written.read_behind`: no tokens stand behind those of a value.
* `Written.parse?_append`: no punctuation stands behind the text of a value.
* `Written.parse?_spaces`: spaces in front of a value.
-/
import Mathlib.Tactic
import Directives.Json.Written
import Directives.Text.Blank

namespace Directives

namespace Json

/-! ### Tokens -/

variable {c : Char} {token : Token} {tokens' : List Token} {rest : Text}

/-- A punctuation character ends words, literals and spaces. -/
lemma punctuation_spec (h : punctuation? c = some token) :
    isSpace c = false ∧ c ≠ '"' ∧ isBare c = false := by
  unfold punctuation? at h
  split at h
  all_goals first | decide | cases h

lemma tokens_punctuation (h : punctuation? c = some token) (rest : Text) :
    tokens (c :: rest) = (tokens rest).map (token :: ·) := by
  obtain ⟨hspace, hquote, hbare⟩ := punctuation_spec h
  rw [tokens, hspace, if_neg (by simp), if_neg hquote, hbare, if_neg (by simp), h]
  cases tokens rest <;> rfl

mutual

/-- **The tokens of a text** stay its tokens in front of a punctuation character. -/
theorem tokens_append (hc : punctuation? c = some token) (rest : Text) :
    ∀ {front : Text} {all : List Token}, tokens front = some all →
      tokens (front ++ c :: rest) = (tokens rest).map (all ++ token :: ·)
  | [], all, h => by
      rw [tokens, Option.some.injEq] at h
      rw [List.nil_append, tokens_punctuation hc, ← h]
      rfl
  | d :: front, all, h => by
      rw [tokens] at h
      rw [List.cons_append, tokens]
      split_ifs at h ⊢ with hspace hquote hbare
      · exact tokens_append hc rest h
      · exact quotedTokens_append hc rest h
      · exact bareTokens_append hc rest h
      · obtain ⟨first, hfirst, hlater⟩ := Option.bind_eq_some_iff.mp h
        obtain ⟨others, hothers, hall⟩ := Option.bind_eq_some_iff.mp hlater
        obtain rfl : first :: others = all := Option.some.inj hall
        rw [hfirst, tokens_append hc rest hothers]
        cases tokens rest <;> rfl

/-- So do the tokens of a text that begins inside a bare word. -/
theorem bareTokens_append (hc : punctuation? c = some token) (rest : Text) {run : Text} :
    ∀ {front : Text} {all : List Token}, bareTokens run front = some all →
      bareTokens run (front ++ c :: rest) = (tokens rest).map (all ++ token :: ·)
  | [], all, h => by
      obtain ⟨hspace, -, hbare⟩ := punctuation_spec hc
      rw [bareTokens] at h
      obtain ⟨first, hfirst, hall⟩ := Option.bind_eq_some_iff.mp h
      obtain rfl : [first] = all := Option.some.inj hall
      rw [List.nil_append, bareTokens, hbare, if_neg Bool.false_ne_true, hspace,
        if_neg Bool.false_ne_true, hfirst, hc]
      cases tokens rest <;> rfl
  | d :: front, all, h => by
      rw [bareTokens] at h
      rw [List.cons_append, bareTokens]
      split_ifs at h ⊢ with hbare hspace
      · exact bareTokens_append hc rest h
      · obtain ⟨first, hfirst, hlater⟩ := Option.bind_eq_some_iff.mp h
        obtain ⟨others, hothers, hall⟩ := Option.bind_eq_some_iff.mp hlater
        obtain rfl : first :: others = all := Option.some.inj hall
        rw [hfirst, tokens_append hc rest hothers]
        cases tokens rest <;> rfl
      · obtain ⟨first, hfirst, hlater⟩ := Option.bind_eq_some_iff.mp h
        obtain ⟨mark, hmark, hmore⟩ := Option.bind_eq_some_iff.mp hlater
        obtain ⟨others, hothers, hall⟩ := Option.bind_eq_some_iff.mp hmore
        obtain rfl : first :: mark :: others = all := Option.some.inj hall
        rw [hfirst, hmark, tokens_append hc rest hothers]
        cases tokens rest <;> rfl

/-- And so do those of a text that begins inside quotes. -/
theorem quotedTokens_append (hc : punctuation? c = some token) (rest : Text) {units : List Nat} :
    ∀ {front : Text} {all : List Token}, quotedTokens units front = some all →
      quotedTokens units (front ++ c :: rest) = (tokens rest).map (all ++ token :: ·)
  | [], all, h => by cases h
  | d :: front, all, h => by
      unfold quotedTokens at h
      split at h
      · cases h
      · next back heq =>
          obtain ⟨rfl, rfl⟩ := List.cons.inj heq
          obtain ⟨others, hothers, hall⟩ := Option.bind_eq_some_iff.mp h
          obtain rfl : _ :: others = all := Option.some.inj hall
          rw [List.cons_append, quotedTokens, tokens_append hc rest hothers]
          cases tokens rest <;> rfl
      · next x y z w back heq =>
          obtain ⟨rfl, rfl⟩ := List.cons.inj heq
          obtain ⟨unit, hunit, hback⟩ := Option.bind_eq_some_iff.mp h
          simp only [List.cons_append]
          rw [quotedTokens, hunit]
          exact quotedTokens_append hc rest hback
      · next e back _ heq =>
          obtain ⟨rfl, rfl⟩ := List.cons.inj heq
          obtain ⟨unit, hunit, hback⟩ := Option.bind_eq_some_iff.mp h
          have hletter : e ≠ 'u' := by
            rintro rfl
            cases hunit
          rw [List.cons_append, List.cons_append, quotedTokens.eq_4, hunit]
          · exact quotedTokens_append hc rest hback
          · exact fun _ _ _ _ _ he _ => hletter he
      · next e back hquote _ _ heq =>
          obtain ⟨rfl, rfl⟩ := List.cons.inj heq
          split_ifs at h with hplain
          have hslash : d ≠ '\\' := by
            rintro rfl
            exact hplain (by decide)
          rw [List.cons_append, quotedTokens.eq_5, if_neg hplain]
          · exact quotedTokens_append hc rest h
          · exact hquote
          · exact fun _ _ _ _ _ hd _ => hslash hd
          · exact fun _ _ hd _ => hslash hd

end

/-- Spaces in front are passed over. -/
lemma tokens_spaces {spaces : Text} (h : ∀ d ∈ spaces, isSpace d = true) (rest : Text) :
    tokens (spaces ++ rest) = tokens rest := by
  induction spaces with
  | nil => rfl
  | cons d spaces ih =>
      obtain ⟨hd, hspaces⟩ := List.forall_mem_cons.mp h
      rw [List.cons_append, tokens, if_pos hd, ih hspaces]

/-- What starts a token is an ASCII character that is not a control character. -/
lemma isBare_bounds (h : isBare c = true) : 33 ≤ c.toNat ∧ c.toNat ≤ 126 := by
  simp only [isBare, Text.isLetter, Text.isDigit, Bool.or_eq_true, Bool.and_eq_true,
    decide_eq_true_eq, beq_iff_eq, Char.le_def, UInt32.le_iff_toNat_le] at h
  obtain (((((h | h) | h) | rfl) | rfl) | rfl) := h
  · exact ⟨le_trans (by decide) h.1, le_trans h.2 (by decide)⟩
  · exact ⟨le_trans (by decide) h.1, le_trans h.2 (by decide)⟩
  · exact ⟨le_trans (by decide) h.1, le_trans h.2 (by decide)⟩
  all_goals decide

lemma punctuation_bounds (h : punctuation? c = some token) : 33 ≤ c.toNat ∧ c.toNat ≤ 126 := by
  unfold punctuation? at h
  split at h
  all_goals first | decide | cases h

/-- A blank that is no space starts no token. -/
lemma tokens_blank (hblank : isBlank c = true) (hspace : isSpace c = false) (rest : Text) :
    tokens (c :: rest) = none := by
  have hsize : ¬ (33 ≤ c.toNat ∧ c.toNat ≤ 126) := by
    simp only [isBlank, Bool.or_eq_true, Bool.and_eq_true, decide_eq_true_eq, beq_iff_eq] at hblank
    omega
  have hquote : c ≠ '"' := by
    rintro rfl
    exact hsize (by decide)
  have hbare : isBare c = false := Bool.eq_false_iff.mpr fun h => hsize (isBare_bounds h)
  have hmark : punctuation? c = none :=
    Option.eq_none_iff_forall_ne_some.mpr fun _ h => hsize (punctuation_bounds h)
  rw [tokens, hspace, if_neg Bool.false_ne_true, if_neg hquote, hbare,
    if_neg Bool.false_ne_true, hmark]
  rfl

/-- Blanks in front have tokens behind them when they are spaces only. -/
lemma tokens_blanks {blanks : Text} (h : ∀ d ∈ blanks, isBlank d = true)
    (hspaces : ¬ ∀ d ∈ blanks, isSpace d = true) (rest : Text) :
    tokens (blanks ++ rest) = none := by
  induction blanks with
  | nil => exact absurd (List.forall_mem_nil _) hspaces
  | cons d blanks ih =>
      obtain ⟨hd, hblanks⟩ := List.forall_mem_cons.mp h
      rw [List.cons_append]
      by_cases hspace : isSpace d = true
      · rw [tokens, if_pos hspace]
        exact ih hblanks fun hall => hspaces (List.forall_mem_cons.mpr ⟨hspace, hall⟩)
      · exact tokens_blank hd (Bool.eq_false_iff.mpr hspace) _

end Json

namespace Written

open Json (Token)

/-! ### Values -/

/-- **No tokens stand behind** those of a value, nor behind what goes on after one. -/
theorem read_behind {more : List Token} (hmore : more ≠ []) :
    (∀ stack all, (readValue stack all).isSome → readValue stack (all ++ more) = none)
      ∧ ∀ stack value all, (readNext stack value all).isSome →
          readNext stack value (all ++ more) = none := by
  refine readValue.mutual_induct
    (fun stack all => (readValue stack all).isSome → readValue stack (all ++ more) = none)
    (fun stack value all => (readNext stack value all).isSome →
      readNext stack value (all ++ more) = none)
    ?null ?bool ?number ?text ?emptyArray ?array ?emptyObject ?object ?noValue
    ?finish ?item ?closeArray ?field ?closeObject ?noNext
  case null | bool | number | text | emptyArray | emptyObject | object | item | closeArray | field
      | closeObject =>
    intros
    rename_i ih h
    simp only [readValue, readNext] at h
    simp only [List.cons_append, readValue, readNext]
    exact ih h
  case array =>
    intro stack rest hopen ih h
    rw [readValue.eq_6 stack rest hopen] at h
    cases rest with
    | nil => simp [readValue] at h
    | cons first rest =>
        have hopen' : ∀ later, first :: (rest ++ more) = .closeArray :: later → False :=
          fun later heq => hopen rest (by rw [(List.cons.inj heq).1])
        simp only [List.cons_append]
        rw [readValue.eq_6 stack _ hopen']
        exact ih h
  case finish =>
    intro value _
    rw [List.nil_append]
    cases more with
    | nil => exact absurd rfl hmore
    | cons token more => simp [readNext]
  case noValue =>
    intros
    rename_i h
    simp_all [readValue]
  case noNext =>
    intros
    rename_i h
    simp_all [readNext]

/-- **No punctuation stands behind** the text of a value. -/
theorem parse?_append {front : Text} (h : (parse? front).isSome) {c : Char} {token : Token}
    (hc : Json.punctuation? c = some token) (rest : Text) : parse? (front ++ c :: rest) = none := by
  unfold parse? at h ⊢
  cases hfront : Json.tokens front with
  | none => simp [hfront] at h
  | some all =>
      rw [hfront] at h
      rw [Json.tokens_append hc rest hfront]
      cases Json.tokens rest with
      | none => rfl
      | some others => exact (read_behind (List.cons_ne_nil token others)).1 [] all h

/-- Spaces in front of a value are passed over. -/
theorem parse?_spaces {spaces : Text} (h : ∀ d ∈ spaces, Json.isSpace d = true) (rest : Text) :
    parse? (spaces ++ rest) = parse? rest := by
  rw [parse?, Json.tokens_spaces h, parse?]

/-- Blanks in front of a value must be spaces. -/
theorem parse?_blanks {blanks : Text} (h : ∀ d ∈ blanks, isBlank d = true)
    (hspaces : ¬ ∀ d ∈ blanks, Json.isSpace d = true) (rest : Text) :
    parse? (blanks ++ rest) = none := by
  rw [parse?, Json.tokens_blanks h hspaces]
  rfl

end Written

end Directives
