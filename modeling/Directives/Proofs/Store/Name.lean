/-
Tokens as spellings of names.

The token of a name is its spelling in one pair of braces, so it refers back to the name
when there is no more to take off from what the braces hold. Names are trimmed, and have a
dollar in front only where a spelling had more dollars than are taken off. A token of such a
name refers to another name, with fewer dollars.

* `Name.normalize_token`: the name that a token refers to.
* `Name.stripDollar_eq_self`, `Name.count_stripDollar_lt`: what is taken off from a name.
* `Name.count_token`, `Name.count_marker`: the dollars in what is written for a name.
-/
import Directives.Proofs.Text
import Directives.Store.Name

namespace Directives.Name

/-! ### What is taken off from a token -/

lemma trim_token (name : Text) : (token name).trim = token name := by
  have hfront : (token name).trimStart = token name := List.dropWhile_cons_of_neg (by decide)
  rw [Text.trim, hfront]
  exact List.rdropWhile_concat_neg isBlank ('{' :: name) '}' (by decide)

lemma stripBraces_token (name : Text) : stripBraces (token name) = name := by
  rw [token, stripBraces, if_pos (List.getLast?_concat ..), List.dropLast_concat]

/-- **The name that a token refers to**: a token loses its braces, and what they hold a
dollar. -/
theorem normalize_token (name : Text) : normalize (token name) = stripDollar name := by
  have hdollar : stripDollar (token name) = token name := by
    rw [stripDollar, trim_token]
    exact trim_token name
  rw [normalize, hdollar, stripBraces_token]

/-! ### What is taken off from a name -/

lemma trim_stripDollar (raw : Text) : (stripDollar raw).trim = stripDollar raw := by
  rw [stripDollar]
  split
  · exact Text.trim_trim _
  · exact Text.trim_trim _

/-- A name has no blanks around it. -/
lemma trim_normalize (raw : Text) : (normalize raw).trim = normalize raw :=
  trim_stripDollar _

/-- Nothing is taken off from a trimmed text without a dollar in front. -/
lemma stripDollar_eq_self {name : Text} (trimmed : name.trim = name)
    (h : name.head? ≠ some '$') : stripDollar name = name := by
  rw [stripDollar, trimmed]
  split
  · exact absurd rfl h
  · exact trimmed

/-- A dollar is taken off where there is one in front. -/
lemma count_stripDollar_lt {name : Text} (trimmed : name.trim = name)
    (h : name.head? = some '$') : (stripDollar name).count '$' < name.count '$' := by
  obtain ⟨rest, rfl⟩ := List.head?_eq_some_iff.mp h
  rw [stripDollar, trimmed, List.count_cons_self]
  exact Nat.lt_succ_of_le ((Text.trim_sublist rest).count_le '$')

/-! ### What is written for a name -/

lemma count_token (name : Text) : (token name).count '$' = name.count '$' := by
  simp [token]

lemma count_marker (name : Text) : (marker name).count '$' = name.count '$' := by
  have hmark : unresolvedMark.count '$' = 0 := by decide
  simp [marker, hmark]

end Directives.Name
