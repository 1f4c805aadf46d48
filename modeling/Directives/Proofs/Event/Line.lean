/-
Events stand on one line.

A JSON text without spaces has no line feed: one in a text is escaped, and numerals have
none. The line of an event is such a text, in braces, so it ends in no carriage return
and is not blank.

* `Json.unbroken_compact`: the text of a value has no line feed.
* `Event.exists_line_eq`: the line of an event.
-/
import Mathlib.Tactic
import Directives.Event.Basic
import Directives.Proofs.Text

namespace Directives

/-! ### Numerals -/

namespace Number

lemma unbroken_integerText (value : Int) : '\n' ∉ integerText value := by
  unfold integerText
  split_ifs <;> simp [Text.unbroken_ofNat]

lemma unbroken_exponentText (exponent : Int) : '\n' ∉ exponentText exponent := by
  unfold exponentText
  split_ifs <;> simp [unbroken_integerText]

lemma unbroken_decimalText (d : Decimal) : '\n' ∉ decimalText d := by
  have htake : ∀ n, '\n' ∉ (Text.ofNat d.digits).take n :=
    fun n hmem => Text.unbroken_ofNat _ (List.mem_of_mem_take hmem)
  have hdrop : ∀ n, '\n' ∉ (Text.ofNat d.digits).drop n :=
    fun n hmem => Text.unbroken_ofNat _ (List.mem_of_mem_drop hmem)
  have htail : '\n' ∉ (Text.ofNat d.digits).tail :=
    fun hmem => Text.unbroken_ofNat _ (List.mem_of_mem_tail hmem)
  unfold decimalText
  dsimp only
  split_ifs <;>
    simp [Text.unbroken_ofNat, unbroken_exponentText, htake, hdrop, htail, List.mem_replicate]

/-- A number has no line feed. -/
lemma unbroken_text (n : Number) : '\n' ∉ n.text := by
  cases n with
  | integer value => exact unbroken_integerText value
  | double value =>
      have hsign : ∀ body : Text, '\n' ∉ body →
          '\n' ∉ if value.toBits.toNat < Nat.pow 2 63 then body else '-' :: body := by
        intro body hbody
        split_ifs
        · exact hbody
        · exact List.not_mem_cons_of_ne_of_not_mem (by decide) hbody
      rw [text, doubleText]
      refine hsign _ ?_
      cases Binary.ofFloat? value with
      | none => decide
      | some b => exact unbroken_decimalText b.shortest

end Number

/-! ### Values -/

namespace Json

lemma hexDigit_ne_lineFeed : ∀ n < 16, hexDigit n ≠ '\n' := by
  decide

/-- A line feed is escaped. -/
lemma unbroken_quoteChar (c : Char) : '\n' ∉ quoteChar c := by
  unfold quoteChar
  split_ifs with _ _ hbreak _ _ _ _ hcontrol
  · decide
  · decide
  · decide
  · decide
  · decide
  · decide
  · decide
  · have hhigh := hexDigit_ne_lineFeed (c.toNat / 16) (by omega)
    have hlow := hexDigit_ne_lineFeed (c.toNat % 16) (by omega)
    simp only [List.mem_cons, List.not_mem_nil, or_false, not_or]
    exact ⟨by decide, by decide, by decide, by decide, hhigh.symm, hlow.symm⟩
  · rw [List.mem_singleton]
    exact Ne.symm hbreak

lemma unbroken_quote (text : Text) : '\n' ∉ quote text := by
  simp [quote, unbroken_quoteChar]

mutual

/-- **The text of a value** stands on one line. -/
theorem unbroken_compact : ∀ value : Json, '\n' ∉ value.compact
  | null => by decide
  | bool true => by decide
  | bool false => by decide
  | number n => n.unbroken_text
  | text t => unbroken_quote t
  | array items => by simp [compact, unbroken_compactItems items]
  | object fields => by simp [compact, unbroken_compactFields fields]

/-- The items of an array stand on one line. -/
theorem unbroken_compactItems : ∀ items : List Json, '\n' ∉ compactItems items
  | [] => by simp [compactItems]
  | [item] => unbroken_compact item
  | item :: next :: rest => by
      simp [compactItems, unbroken_compact item, unbroken_compactItems (next :: rest)]

/-- The fields of an object stand on one line. -/
theorem unbroken_compactFields : ∀ fields : List (Text × Json), '\n' ∉ compactFields fields
  | [] => by simp [compactFields]
  | [(key, value)] => by simp [compactFields, unbroken_quote, unbroken_compact value]
  | (key, value) :: next :: rest => by
      simp [compactFields, unbroken_quote, unbroken_compact value,
        unbroken_compactFields (next :: rest)]

end

end Json

/-! ### The line of an event -/

namespace Event

lemma unbroken_line (e : Event) : '\n' ∉ e.line := e.toJson.unbroken_compact

/-- The line of an event stands in braces. -/
lemma exists_line_eq (e : Event) : ∃ inside : Text, e.line = '{' :: (inside ++ ['}']) :=
  ⟨_, rfl⟩

end Event

end Directives
