/-
A search for references finds the pieces of a text.

What fits the pattern of references is the text of a reference, part by part, and there is
one way only to read it. A search therefore finds the references that stand in a text, in
their places, and the walk over its matches writes what the pieces of the text are written
as. Where a text has no `{$` there is no match, so nothing is lost by not searching.

* `Occurrence.parts`: the text of a reference, one part for each class of the pattern.
* `Occurrence.read?_pattern`: a match is a reference.
* `Occurrence.searchFrom_pattern`: the matches are the references among the pieces.
* `Store.writeMatches_search`, `Store.resolveBy_eq`: the walk over the matches.
* `Store.resolve_occurrences`: what resolving a text does.
-/
import Directives.Proofs.Store.Span
import Directives.Proofs.Text
import Directives.Proofs.Text.Pattern
import Directives.Store.Search

namespace Directives

namespace Occurrence

/-! ### Matches of the pattern -/

/-- The parts of a reference, one for each class of the pattern. -/
def parts (o : Occurrence) : List Text :=
  [['{'], ['$'], o.before, o.name.take 1, o.name.drop 1, o.after, ['}']]

lemma flatten_parts (o : Occurrence) : o.parts.flatten = o.source := by
  calc o.parts.flatten
      = '{' :: '$' :: (o.before ++ (o.name.take 1 ++ o.name.drop 1) ++ o.after ++ ['}']) := by
        simp only [parts, List.flatten_cons, List.flatten_nil, List.append_nil, List.append_assoc,
          List.singleton_append]
    _ = o.source := by rw [List.take_append_drop, source]

lemma matchedName_parts (o : Occurrence) (start : Nat) :
    matchedName ⟨start, o.parts⟩ = o.name := by
  calc matchedName ⟨start, o.parts⟩
      = o.name.take 1 ++ (o.name.drop 1 ++ []) := rfl
    _ = o.name := by rw [List.append_nil, List.take_append_drop]

/-- What fits the pattern are the parts of a reference. -/
lemma fits_pattern_iff {parts : List Text} :
    List.Forall₂ Pattern.Item.Fits pattern.row parts
      ↔ ∃ o : Occurrence, o.Valid ∧ parts = o.parts := by
  constructor
  · intro h
    -- the classes of the pattern in order
    obtain ⟨_, _, ⟨_, rfl, hopen⟩, h₁, rfl⟩ := List.forall₂_cons_left_iff.mp h
    obtain ⟨_, _, ⟨_, rfl, hdollar⟩, h₂, rfl⟩ := List.forall₂_cons_left_iff.mp h₁
    obtain ⟨before, _, hbefore, h₃, rfl⟩ := List.forall₂_cons_left_iff.mp h₂
    obtain ⟨_, _, ⟨c, rfl, hc⟩, h₄, rfl⟩ := List.forall₂_cons_left_iff.mp h₃
    obtain ⟨more, _, hmore, h₅, rfl⟩ := List.forall₂_cons_left_iff.mp h₄
    obtain ⟨after, _, hafter, h₆, rfl⟩ := List.forall₂_cons_left_iff.mp h₅
    obtain ⟨_, _, ⟨_, rfl, hclose⟩, h₇, rfl⟩ := List.forall₂_cons_left_iff.mp h₆
    obtain rfl := List.forall₂_nil_left_iff.mp h₇
    obtain ⟨rfl, rfl, rfl⟩ : _ = '{' ∧ _ = '$' ∧ _ = '}' :=
      ⟨eq_of_beq hopen, eq_of_beq hdollar, eq_of_beq hclose⟩
    have hname : ∀ d ∈ c :: more, isNamePart d = true :=
      List.forall_mem_cons.mpr ⟨by simp [isNamePart, hc], hmore⟩
    exact ⟨⟨before, c :: more, after⟩, ⟨hbefore, by simpa using hc, hname, hafter⟩, rfl⟩
  · rintro ⟨⟨before, name, after⟩, valid, rfl⟩
    obtain ⟨c, more, rfl⟩ := List.exists_cons_of_ne_nil valid.name_ne_nil
    have hstart : isNameStart c = true := by simpa using valid.start
    have hmore : ∀ d ∈ more, isNamePart d = true := (List.forall_mem_cons.mp valid.name).2
    exact .cons ⟨_, rfl, rfl⟩ (.cons ⟨_, rfl, rfl⟩ (.cons valid.before (.cons ⟨c, rfl, hstart⟩
      (.cons hmore (.cons valid.after (.cons ⟨_, rfl, rfl⟩ .nil))))))

/-- **A match of the pattern is a reference**, part by part. -/
theorem read?_pattern (text : Text) :
    pattern.read? text = (read? text).map fun (o, rest) => (o.parts, rest) := by
  -- a match is the reference that is read
  have hsound : ∀ {parts rest}, pattern.read? text = some (parts, rest) →
      ∃ o : Occurrence, read? text = some (o, rest) ∧ parts = o.parts := by
    intro parts rest h
    obtain ⟨hfits, htext⟩ := Pattern.read?_eq_some h
    obtain ⟨o, valid, rfl⟩ := fits_pattern_iff.mp hfits
    rw [← htext, flatten_parts]
    exact ⟨o, valid.read?_source rest, rfl⟩
  cases h : read? text with
  | none =>
      rw [Option.map_none, Option.eq_none_iff_forall_ne_some]
      rintro ⟨parts, rest⟩ hmatch
      obtain ⟨o, hread, -⟩ := hsound hmatch
      rw [h] at hread
      cases hread
  | some out =>
      obtain ⟨o, rest⟩ := out
      obtain ⟨valid, htext⟩ := read?_eq_some h
      obtain ⟨⟨parts, rest'⟩, hmatch⟩ :=
        Pattern.exists_read? (fits_pattern_iff.mpr ⟨o, valid, rfl⟩) rest
      rw [flatten_parts, ← htext] at hmatch
      obtain ⟨o', hread, rfl⟩ := hsound hmatch
      obtain ⟨rfl, rfl⟩ := Prod.mk.inj (Option.some.inj (h.symm.trans hread))
      exact hmatch

/-- The match at the place of a reference. -/
def matched : Nat × Occurrence → Pattern.Match
  | (place, o) => ⟨place, o.parts⟩

/-- **A search finds the references among the pieces**, each in its place. -/
theorem searchFrom_pattern (start : Nat) (text : Text) :
    pattern.searchFrom 0 start text = (Piece.spans start (Piece.split text)).map matched := by
  induction text using Piece.induction generalizing start with
  | nil => rw [Piece.split_nil]; rfl
  | occurrence o rest valid hread ih =>
      have hmatch : pattern.read? (o.source ++ rest) = some (o.parts, rest) := by
        rw [read?_pattern, hread, Option.map_some]
      rw [Pattern.searchFrom_match start hmatch, ih, flatten_parts, Piece.split_of_read? hread,
        Piece.spans, List.map_cons, matched]
  | plain c rest hread ih =>
      have hmatch : pattern.read? (c :: rest) = none := by
        rw [read?_pattern, hread, Option.map_none]
      rw [Pattern.searchFrom_cons start hmatch, ih, Piece.split_plain hread, Piece.spans]

end Occurrence

namespace Store

/-! ### The walk over the matches -/

/-- The walk over the matches behind the text `front` writes what stands there as the pieces
are written. The first `last` characters were written before. -/
lemma writeMatches_spans (pieces : List Piece) (front : Text) {last : Nat}
    (hlast : last ≤ front.length) (s : Store) :
    writeMatches reference (front ++ pieces.flatMap Piece.source) last s
        ((Piece.spans front.length pieces).map Occurrence.matched)
      = (front.drop last ++ (s.write pieces).1, (s.write pieces).2) := by
  induction pieces generalizing front last s with
  | nil =>
      simp only [List.flatMap_nil, List.append_nil, Piece.spans, List.map_nil, writeMatches, write]
  | cons piece rest ih =>
      cases piece with
      | plain c =>
          have hlonger : last ≤ (front ++ [c]).length :=
            hlast.trans (List.prefix_append front [c]).length_le
          have hrest := ih (front ++ [c]) hlonger s
          rw [List.length_append, List.length_singleton, List.append_assoc,
            List.drop_append_of_le_length hlast] at hrest
          rw [List.flatMap_cons, Piece.source, Piece.spans, hrest, write, List.append_assoc]
          rfl
      | occurrence o =>
          have hrest := ih (front ++ o.source) le_rfl (s.reference o.name).2
          rw [List.append_assoc, List.drop_length, List.nil_append, List.length_append] at hrest
          simp only [List.flatMap_cons, Piece.source, Piece.spans, List.map_cons,
            Occurrence.matched, writeMatches, Occurrence.matchedName_parts, Pattern.Match.stop,
            Occurrence.flatten_parts, hrest, List.take_left, write, List.append_assoc]

/-- The walk over the matches in a text resolves it. -/
lemma writeMatches_search (s : Store) (text : Text) :
    writeMatches reference text 0 s (Occurrence.pattern.search text) = s.resolve text := by
  have h := writeMatches_spans (Piece.split text) [] le_rfl s
  rw [List.nil_append, Piece.flatMap_source] at h
  exact (congrArg _ (Occurrence.searchFrom_pattern 0 text)).trans h

/-- **Searching resolves a text**, and a text without `{$` needs no search. -/
theorem resolveBy_eq (s : Store) (text : Text) : resolveBy reference s text = s.resolve text := by
  rw [resolveBy]
  split_ifs with hstart
  · exact s.writeMatches_search text
  · exact (s.resolve_of_not_contains hstart).symm

/-! ### References one by one -/

/-- What a piece is replaced by: a reference to `N` by `{N}` or `{N?unresolved}`. -/
def replaced (s : Store) : Piece → Text
  | .plain c => [c]
  | .occurrence o => if s.declares o.name then Name.token o.name else Name.marker o.name

/-- The lint that a piece leaves: one for a reference to a name that is not declared. -/
def leftLint? (s : Store) : Piece → Option Lint
  | .plain _ => none
  | .occurrence o =>
      if s.declares o.name then none else some ⟨o.name, Name.marker o.name, s.trail⟩

/-- The name of a reference is in normal form, so it is looked up as it stands. -/
lemma written_eq_replaced (s : Store) {text : Text} {piece : Piece} (h : piece ∈ Piece.split text) :
    Piece.written s piece = s.replaced piece
      ∧ (Piece.missed s piece).map s.lint = (s.leftLint? piece).toList := by
  cases piece with
  | plain c => exact ⟨rfl, rfl⟩
  | occurrence o =>
      have hname := (Piece.valid_of_mem_split h).normalize_name
      rw [Piece.written, Piece.missed, reference_fst, missed, hname, replaced, leftLint?]
      split_ifs
      · exact ⟨rfl, rfl⟩
      · exact ⟨rfl, rfl⟩

/-- Resolving a text replaces its pieces one by one, and leaves their lints in order. -/
lemma resolve_eq_replaced (s : Store) (text : Text) :
    s.resolve text = ((Piece.split text).flatMap s.replaced,
      { s with lints := s.lints ++ (Piece.split text).filterMap s.leftLint? }) := by
  have htext : s.resolved text = (Piece.split text).flatMap s.replaced :=
    List.flatMap_congr fun piece h => (s.written_eq_replaced h).1
  have hlints : (s.dangling text).map s.lint = (Piece.split text).filterMap s.leftLint? := by
    rw [dangling, List.map_flatMap, List.filterMap_eq_flatMap_toList]
    exact List.flatMap_congr fun piece h => (s.written_eq_replaced h).2
  rw [resolve_eq, htext, addLints, hlints]

/-- **What resolving a text does.** References do not overlap. A text is cut into pieces, which
are its references in their places and single characters. Each reference to a name `N` gives
way to `{N}` if the name is declared and to `{N?unresolved}` if not, each other character
stays, one lint is added for each reference that is not declared, from left to right, and
nothing else changes. A search for the pattern of references comes to the same, with and
without the look for `{$` in front of it. -/
theorem resolve_occurrences (s : Store) (text : Text) :
    (∀ (o o' : Occurrence) (i j : Nat), o.StandsAt i text → o'.StandsAt j text →
        (i = j ∧ o = o') ∨ i + o.source.length ≤ j ∨ j + o'.source.length ≤ i)
      ∧ (Piece.split text).flatMap Piece.source = text
      ∧ (∀ (o : Occurrence) (i : Nat),
          (i, o) ∈ Piece.spans 0 (Piece.split text) ↔ o.StandsAt i text)
      ∧ s.resolve text = ((Piece.split text).flatMap s.replaced,
          { s with lints := s.lints ++ (Piece.split text).filterMap s.leftLint? })
      ∧ resolveBy reference s text = s.resolve text
      ∧ writeMatches reference text 0 s (Occurrence.pattern.search text) = s.resolve text := by
  refine ⟨fun o o' i j h h' => h.apart h', Piece.flatMap_source text, fun o i => ?_,
    s.resolve_eq_replaced text, s.resolveBy_eq text, s.writeMatches_search text⟩
  rw [Piece.mem_spans_split_iff]
  constructor
  · rintro ⟨i, rfl, h⟩
    rwa [Nat.zero_add]
  · exact fun h => ⟨i, (Nat.zero_add i).symm, h⟩

end Store

end Directives
