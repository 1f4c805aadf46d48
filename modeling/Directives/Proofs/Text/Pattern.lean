/-
What a pattern matches, and what a search for it finds.

A text fits a row of classes when it has one part for each class. What is read fits, and
wherever a text that fits stands something is read, since a class gives back the characters
that those behind it need. A search steps over a character where nothing is read and over
the whole match where something is.

* `Pattern.Item.Fits`: the parts that a class takes.
* `Pattern.longest?_eq_some`, `Pattern.exists_longest?`: a class that repeats.
* `Pattern.read?_eq_some`, `Pattern.exists_read?`: what is read, and when.
* `Pattern.searchFrom_match`, `Pattern.searchFrom_cons`: the steps of a search.
-/
import Mathlib.Tactic
import Directives.Text.Pattern

namespace Directives.Pattern

/-- What a class takes: one character that is in it, or any number of them. -/
def Item.Fits : Item → Text → Prop
  | .once p, part => ∃ c, part = [c] ∧ p c = true
  | .many p, part => ∀ c ∈ part, p c = true

/-! ### Reading a match -/

section Longest

variable {α : Type} {p : Char → Bool} {next : Text → Option α}

/-- A class that takes no character leaves the text as it is. -/
lemma fewest_eq_some {text part : Text} {answer : α}
    (h : (next text).map (fun answer => (([] : Text), answer)) = some (part, answer)) :
    part = [] ∧ next text = some answer := by
  obtain ⟨_, hnext, heq⟩ := Option.map_eq_some_iff.mp h
  obtain ⟨rfl, rfl⟩ := Prod.mk.inj heq
  exact ⟨rfl, hnext⟩

/-- Characters of the class were taken, and there is an answer on the text behind them. -/
lemma longest?_eq_some {text part : Text} {answer : α}
    (h : longest? p next text = some (part, answer)) :
    (∀ c ∈ part, p c = true) ∧ ∃ rest, part ++ rest = text ∧ next rest = some answer := by
  induction text generalizing part with
  | nil =>
      obtain ⟨rfl, hnext⟩ := fewest_eq_some h
      exact ⟨by simp, [], rfl, hnext⟩
  | cons c rest ih =>
      rw [longest?] at h
      split at h
      · next hc =>
        split at h
        · next more _ hmore =>
          obtain ⟨rfl, rfl⟩ := Prod.mk.inj (Option.some.inj h)
          obtain ⟨hclass, back, hrest, hnext⟩ := ih hmore
          exact ⟨List.forall_mem_cons.mpr ⟨hc, hclass⟩, back, congrArg (c :: ·) hrest, hnext⟩
        · obtain ⟨rfl, hnext⟩ := fewest_eq_some h
          exact ⟨by simp, c :: rest, rfl, hnext⟩
      · obtain ⟨rfl, hnext⟩ := fewest_eq_some h
        exact ⟨by simp, c :: rest, rfl, hnext⟩

/-- Where characters of the class leave a text on which there is an answer, some are
taken. -/
lemma exists_longest? {part rest : Text} (hpart : ∀ c ∈ part, p c = true)
    (h : ∃ answer, next rest = some answer) :
    ∃ out, longest? p next (part ++ rest) = some out := by
  induction part with
  | nil =>
      obtain ⟨answer, hanswer⟩ := h
      cases rest with
      | nil => exact ⟨_, by rw [List.append_nil, longest?, hanswer, Option.map_some]⟩
      | cons c rest =>
          rw [List.nil_append, longest?, hanswer, Option.map_some]
          split
          · split <;> exact ⟨_, rfl⟩
          · exact ⟨_, rfl⟩
  | cons c more ih =>
      obtain ⟨hc, hmore⟩ := List.forall_mem_cons.mp hpart
      obtain ⟨⟨part, answer⟩, hout⟩ := ih hmore
      exact ⟨(c :: part, answer), by rw [List.cons_append, longest?, if_pos hc, hout]⟩

end Longest

/-- The parts that were read fit the items, and stand in front of the rest. -/
lemma readItems?_eq_some {items : List Item} {text rest : Text} {parts : List Text}
    (h : readItems? items text = some (parts, rest)) :
    List.Forall₂ Item.Fits items parts ∧ parts.flatten ++ rest = text := by
  induction items generalizing text parts with
  | nil =>
      obtain ⟨rfl, rfl⟩ := Prod.mk.inj (Option.some.inj h)
      exact ⟨.nil, rfl⟩
  | cons item items ih =>
      cases item with
      | once p =>
          cases text with
          | nil => cases h
          | cons c text =>
              rw [readItems?] at h
              split_ifs at h with hc
              obtain ⟨⟨more, _⟩, hmore, heq⟩ := Option.map_eq_some_iff.mp h
              obtain ⟨rfl, rfl⟩ := Prod.mk.inj heq
              obtain ⟨hfits, htext⟩ := ih hmore
              exact ⟨.cons ⟨c, rfl, hc⟩ hfits, congrArg (c :: ·) htext⟩
      | many p =>
          obtain ⟨⟨part, more, _⟩, hlongest, heq⟩ := Option.map_eq_some_iff.mp h
          obtain ⟨rfl, rfl⟩ := Prod.mk.inj heq
          obtain ⟨hpart, back, rfl, hmore⟩ := longest?_eq_some hlongest
          obtain ⟨hfits, rfl⟩ := ih hmore
          exact ⟨.cons hpart hfits, by rw [List.flatten_cons, List.append_assoc]⟩

/-- Where parts that fit the items stand in front, something is read. -/
lemma exists_readItems? {items : List Item} {parts : List Text}
    (h : List.Forall₂ Item.Fits items parts) (rest : Text) :
    ∃ out, readItems? items (parts.flatten ++ rest) = some out := by
  induction h with
  | nil => exact ⟨_, rfl⟩
  | @cons item part items parts hpart _ ih =>
      rw [List.flatten_cons, List.append_assoc]
      cases item with
      | once p =>
          obtain ⟨c, rfl, hc⟩ := hpart
          obtain ⟨out, hout⟩ := ih
          exact ⟨_, by rw [List.singleton_append, readItems?, if_pos hc, hout, Option.map_some]⟩
      | many p =>
          obtain ⟨out, hout⟩ := exists_longest? hpart ih
          exact ⟨_, by rw [readItems?, hout, Option.map_some]⟩

section Search

variable {pattern : Pattern} {text rest : Text} {parts : List Text}

/-- **What is read** fits the pattern, and stands in front of the rest. -/
theorem read?_eq_some (h : pattern.read? text = some (parts, rest)) :
    List.Forall₂ Item.Fits pattern.row parts ∧ parts.flatten ++ rest = text :=
  readItems?_eq_some h

/-- **Something is read** where a text that fits stands. -/
theorem exists_read? (h : List.Forall₂ Item.Fits pattern.row parts) (rest : Text) :
    ∃ out, pattern.read? (parts.flatten ++ rest) = some out :=
  exists_readItems? h rest

/-! ### Searching -/

/-- The characters of a match are passed over. -/
lemma searchFrom_append (front rest : Text) (start : Nat) :
    pattern.searchFrom front.length start (front ++ rest)
      = pattern.searchFrom 0 (start + front.length) rest := by
  induction front generalizing start with
  | nil => rfl
  | cons c front ih =>
      rw [List.length_cons, List.cons_append, searchFrom, ih]
      congr 1
      omega

/-- A search goes on behind what is read. -/
lemma searchFrom_match (start : Nat) (h : pattern.read? text = some (parts, rest)) :
    pattern.searchFrom 0 start text
      = ⟨start, parts⟩ :: pattern.searchFrom 0 (start + parts.flatten.length) rest := by
  obtain ⟨hfits, rfl⟩ := read?_eq_some h
  obtain ⟨c, front, hparts⟩ : ∃ c front, parts.flatten = c :: front := by
    rcases hfits with _ | ⟨⟨c, rfl, -⟩, _⟩
    exact ⟨c, _, rfl⟩
  rw [hparts, List.cons_append] at h
  rw [hparts, List.cons_append, searchFrom, h]
  simp only [hparts, List.length_cons, Nat.add_sub_cancel, searchFrom_append]
  rw [Nat.add_assoc, Nat.add_comm 1]

/-- A search goes on behind a character at which nothing is read. -/
lemma searchFrom_cons {c : Char} (start : Nat) (h : pattern.read? (c :: rest) = none) :
    pattern.searchFrom 0 start (c :: rest) = pattern.searchFrom 0 (start + 1) rest := by
  rw [searchFrom, h]

end Search

end Directives.Pattern
