/-
A search for markers finds the markers of a text.

What fits the pattern of markers is the marker of a legible name, and there is one way only
to read it. A marker has one opening brace, its first character, so none starts inside
another: a search that goes on behind each marker misses none. It finds a marker wherever
one stands, and a text can be searched part by part if it is cut where no marker is.

* `Marker.pattern`, `Marker.matchedName`: the pattern of markers, and the name in a match.
* `Marker.read?_pattern_eq_some_iff`: a match is the marker of a legible name.
* `Marker.searchFrom_brace`, `Marker.searchFrom_cons`: the steps of a search.
* `Marker.find_eq_search`: the markers of a text are those of a search.
* `Marker.StandsAt`, `Marker.mem_searchFrom_iff`: a search finds what stands in a text.
* `Marker.searchFrom_append`: a text that is cut.
-/
import Directives.Proofs.Store.Alphabet

namespace Directives.Marker

/-! ### Matches of the pattern -/

/-- A marker: `{`, characters that are neither braces nor blanks, the mark, and `}`. -/
def pattern : Pattern where
  first c := c == '{'
  items := .once isInner :: .many isInner
    :: (Name.unresolvedMark ++ ['}']).map fun d => .once (· == d)

/-- The name in a match: its first character, and those it goes on with. -/
def matchedName (m : Pattern.Match) : Text := ((m.parts.drop 1).take 2).flatten

/-- The parts of the marker of a name, one for each class of the pattern. -/
def parts (name : Text) : List Text :=
  ['{'] :: name.take 1 :: name.drop 1 :: (Name.unresolvedMark ++ ['}']).map fun d => [d]

/-- The match at the place of a marker. -/
def matched (place : Nat) (name : Text) : Pattern.Match := ⟨place, parts name⟩

lemma flatten_parts (name : Text) : (parts name).flatten = Name.marker name := by
  have hmark : ((Name.unresolvedMark ++ ['}']).map fun d => [d]).flatten
      = Name.unresolvedMark ++ ['}'] := List.flatMap_singleton' _
  calc (parts name).flatten
      = '{' :: (name.take 1 ++ name.drop 1 ++ (Name.unresolvedMark ++ ['}'])) := by
        rw [parts, List.flatten_cons, List.flatten_cons, List.flatten_cons, hmark,
          List.singleton_append, List.append_assoc]
    _ = Name.marker name := by rw [List.take_append_drop, Name.marker, List.append_assoc]

lemma matchedName_matched (place : Nat) (name : Text) : matchedName (matched place name) = name :=
  calc matchedName (matched place name)
      = name.take 1 ++ (name.drop 1 ++ []) := rfl
    _ = name := by rw [List.append_nil, List.take_append_drop]

/-- What fits a row of single characters are these characters. -/
lemma fits_word_iff {word : Text} {parts : List Text} :
    List.Forall₂ Pattern.Item.Fits (word.map fun d => .once (· == d)) parts
      ↔ parts = word.map fun d => [d] := by
  induction word generalizing parts with
  | nil => exact List.forall₂_nil_left_iff
  | cons d rest ih =>
      rw [List.map_cons, List.forall₂_cons_left_iff, List.map_cons]
      constructor
      · rintro ⟨_, others, ⟨c, rfl, hc⟩, hothers, rfl⟩
        obtain rfl := eq_of_beq hc
        rw [ih.mp hothers]
      · rintro rfl
        exact ⟨[d], _, ⟨d, rfl, beq_self_eq_true d⟩, ih.mpr rfl, rfl⟩

/-- What fits the pattern are the parts of the marker of a legible name. -/
lemma fits_pattern_iff {out : List Text} :
    List.Forall₂ Pattern.Item.Fits pattern.row out
      ↔ ∃ name, Name.isLegible name = true ∧ out = parts name := by
  constructor
  · intro h
    -- the brace, the first character of the name, those it goes on with, the mark and the brace
    obtain ⟨_, _, ⟨_, rfl, hopen⟩, h₁, rfl⟩ := List.forall₂_cons_left_iff.mp h
    obtain ⟨_, _, ⟨c, rfl, hc⟩, h₂, rfl⟩ := List.forall₂_cons_left_iff.mp h₁
    obtain ⟨more, _, hmore, h₃, rfl⟩ := List.forall₂_cons_left_iff.mp h₂
    obtain rfl := fits_word_iff.mp h₃
    obtain rfl : _ = '{' := eq_of_beq hopen
    have hinner : ∀ d ∈ c :: more, isInner d = true := List.forall_mem_cons.mpr ⟨hc, hmore⟩
    exact ⟨c :: more, Name.isLegible_iff.mpr ⟨List.cons_ne_nil c more, hinner⟩, rfl⟩
  · rintro ⟨name, legible, rfl⟩
    obtain ⟨hne, hinner⟩ := Name.isLegible_iff.mp legible
    obtain ⟨c, more, rfl⟩ := List.exists_cons_of_ne_nil hne
    obtain ⟨hc, hmore⟩ := List.forall_mem_cons.mp hinner
    exact .cons ⟨_, rfl, rfl⟩ (.cons ⟨c, rfl, hc⟩ (.cons hmore (fits_word_iff.mpr rfl)))

/-! ### Reading a marker -/

/-- What stands between the braces of a marker. -/
lemma unclosed_of_isLegible {name : Text} (legible : Name.isLegible name = true) :
    '}' ∉ name ++ Name.unresolvedMark := by
  have hinside := isInner_append_mark (Name.isLegible_iff.mp legible).2
  exact fun hmem => absurd (hinside '}' hmem) (by decide)

/-- There is one way to read a marker in front of a text. -/
lemma marker_append_inj {name other rest back : Text} (legible : Name.isLegible name = true)
    (legible' : Name.isLegible other = true)
    (h : Name.marker name ++ rest = Name.marker other ++ back) : name = other ∧ rest = back := by
  simp only [Name.marker, List.cons_append, List.append_assoc _ ['}']] at h
  obtain ⟨hinside, hrest⟩ := Text.append_cons_inj (unclosed_of_isLegible legible)
    (unclosed_of_isLegible legible') (List.cons.inj h).2
  exact ⟨List.append_cancel_right hinside, hrest⟩

/-- **A match of the pattern is a marker**, part by part. -/
theorem read?_pattern_eq_some_iff {text rest : Text} {out : List Text} :
    pattern.read? text = some (out, rest)
      ↔ ∃ name, Name.isLegible name = true ∧ out = parts name
        ∧ text = Name.marker name ++ rest := by
  have hsound : ∀ {out rest}, pattern.read? text = some (out, rest) →
      ∃ name, Name.isLegible name = true ∧ out = parts name
        ∧ text = Name.marker name ++ rest := by
    intro out rest h
    obtain ⟨hfits, htext⟩ := Pattern.read?_eq_some h
    obtain ⟨name, legible, rfl⟩ := fits_pattern_iff.mp hfits
    rw [flatten_parts] at htext
    exact ⟨name, legible, rfl, htext.symm⟩
  refine ⟨hsound, ?_⟩
  rintro ⟨name, legible, rfl, htext⟩
  obtain ⟨⟨other, back⟩, hread⟩ :=
    Pattern.exists_read? (fits_pattern_iff.mpr ⟨name, legible, rfl⟩) rest
  rw [flatten_parts, ← htext] at hread
  obtain ⟨other, legible', rfl, htext'⟩ := hsound hread
  obtain ⟨rfl, rfl⟩ := marker_append_inj legible legible' (htext.symm.trans htext')
  exact hread

/-- What stands between the braces of a marker is a name and the mark. -/
lemma eq_append_mark_of_name? {inside name : Text} (h : name? inside = some name) :
    inside = name ++ Name.unresolvedMark := by
  obtain ⟨front, rfl⟩ := mark_suffix_of_name? h
  cases front with
  | nil =>
      have hnone : name? Name.unresolvedMark = none := rfl
      rw [List.nil_append, hnone] at h
      cases h
  | cons c rest =>
      rw [name?_append_mark (List.cons_ne_nil c rest)] at h
      rw [Option.some.inj h]

/-- **A marker is completed** behind its brace where the marker of a legible name stands. -/
theorem close?_eq_some_iff {text name : Text} :
    close? text = some name
      ↔ Name.isLegible name = true ∧ Name.marker name <+: '{' :: text := by
  constructor
  · intro h
    refine ⟨isLegible_of_close? h, ?_⟩
    rw [close?] at h
    split_ifs at h with hbrace
    obtain ⟨back, hback⟩ := List.head?_eq_some_iff.mp hbrace
    refine ⟨back, ?_⟩
    rw [← List.takeWhile_append_dropWhile (p := isInner) (l := text), hback,
      eq_append_mark_of_name? h, Name.marker, List.cons_append, List.append_assoc _ ['}'],
      List.singleton_append]
  · rintro ⟨legible, back, h⟩
    obtain ⟨hne, hname⟩ := Name.isLegible_iff.mp legible
    rw [← (List.cons.inj h).2]
    exact close?_marker hne hname back

/-! ### The steps of a search -/

/-- A search steps over a character that is no opening brace. -/
lemma searchFrom_cons {c : Char} (hc : c ≠ '{') (start : Nat) (rest : Text) :
    pattern.searchFrom 0 start (c :: rest) = pattern.searchFrom 0 (start + 1) rest := by
  refine Pattern.searchFrom_cons start (Option.eq_none_iff_forall_ne_some.mpr ?_)
  rintro ⟨out, back⟩ hread
  obtain ⟨name, -, -, htext⟩ := read?_pattern_eq_some_iff.mp hread
  exact hc (List.cons.inj htext).1

lemma searchFrom_skip {front : Text} (h : '{' ∉ front) (start : Nat) (back : Text) :
    pattern.searchFrom 0 start (front ++ back)
      = pattern.searchFrom 0 (start + front.length) back := by
  induction front generalizing start with
  | nil => rfl
  | cons c rest ih =>
      rw [List.mem_cons, not_or] at h
      rw [List.cons_append, searchFrom_cons (Ne.symm h.1), ih h.2, List.length_cons,
        Nat.add_right_comm, Nat.add_assoc]

/-- At an opening brace a search finds the marker that the text behind it completes. It goes on
behind the brace: what is left of the marker holds no other. -/
lemma searchFrom_brace (start : Nat) (rest : Text) :
    pattern.searchFrom 0 start ('{' :: rest)
      = ((close? rest).map (matched start)).toList ++ pattern.searchFrom 0 (start + 1) rest := by
  cases hclose : close? rest with
  | none =>
      refine Pattern.searchFrom_cons start (Option.eq_none_iff_forall_ne_some.mpr ?_)
      rintro ⟨out, back⟩ hread
      obtain ⟨name, legible, -, htext⟩ := read?_pattern_eq_some_iff.mp hread
      have hsome : close? rest = some name := close?_eq_some_iff.mpr ⟨legible, back, htext.symm⟩
      rw [hclose] at hsome
      cases hsome
  | some name =>
      obtain ⟨legible, back, htext⟩ := close?_eq_some_iff.mp hclose
      have hread := read?_pattern_eq_some_iff.mpr ⟨name, legible, rfl, htext.symm⟩
      have hrest : rest = name ++ Name.unresolvedMark ++ ['}'] ++ back :=
        (List.cons.inj htext).2.symm
      have hinside := isInner_append_mark (Name.isLegible_iff.mp legible).2
      have hskip := searchFrom_skip (braceless_inside hinside) (start + 1) back
      rw [← hrest] at hskip
      rw [Pattern.searchFrom_match start hread, flatten_parts, hskip, Name.marker, List.length_cons,
        Nat.add_right_comm, Nat.add_assoc start]
      rfl

/-- **The markers of a text are those of a search** for the pattern. -/
theorem find_eq_search (text : Text) (start : Nat) :
    find text = (pattern.searchFrom 0 start text).map matchedName := by
  induction text generalizing start with
  | nil => rfl
  | cons c rest ih =>
      rw [find]
      split_ifs with hc
      · rw [hc, searchFrom_brace, List.map_append, ← ih]
        cases close? rest with
        | none => rfl
        | some name =>
            rw [Option.map_some, Option.toList_some, List.map_singleton, matchedName_matched,
              List.singleton_append]
      · rw [searchFrom_cons hc, ← ih]

/-! ### Where markers stand -/

/-- The marker of the name stands behind the first `place` characters of the text. -/
def StandsAt (name : Text) (place : Nat) (text : Text) : Prop :=
  Name.isLegible name = true ∧ Name.marker name <+: text.drop place

/-- A marker stands in front of the end of the text. -/
lemma StandsAt.place_lt {name text : Text} {place : Nat}
    (h : StandsAt name place text) : place < text.length := by
  have hne : text.drop place ≠ [] := List.IsPrefix.ne_nil h.2 (List.cons_ne_nil '{' _)
  rwa [Ne, List.drop_eq_nil_iff, not_le] at hne

lemma standsAt_zero_cons_iff {name rest : Text} {c : Char} :
    StandsAt name 0 (c :: rest) ↔ c = '{' ∧ close? rest = some name := by
  rw [StandsAt, List.drop_zero, close?_eq_some_iff]
  constructor
  · rintro ⟨legible, h⟩
    obtain rfl : '{' = c := (List.cons_prefix_cons.mp h).1
    exact ⟨rfl, legible, h⟩
  · rintro ⟨rfl, h⟩
    exact h

/-- **A search finds the markers that stand in a text**, each in its place. -/
theorem mem_searchFrom_iff {m : Pattern.Match} {start : Nat} {text : Text} :
    m ∈ pattern.searchFrom 0 start text
      ↔ ∃ place name, m = matched (start + place) name ∧ StandsAt name place text := by
  induction text generalizing start with
  | nil =>
      refine ⟨fun h => absurd h List.not_mem_nil, ?_⟩
      rintro ⟨place, name, -, -, h⟩
      rw [List.drop_nil, List.prefix_nil] at h
      cases h
  | cons c rest ih =>
      -- a marker stands at the first character, or in the rest of the text
      have hhere : pattern.searchFrom 0 start (c :: rest)
          = (if c = '{' then ((close? rest).map (matched start)).toList else [])
            ++ pattern.searchFrom 0 (start + 1) rest := by
        split_ifs with hc
        · rw [hc, searchFrom_brace]
        · rw [searchFrom_cons hc, List.nil_append]
      have hfirst : m ∈ (if c = '{' then ((close? rest).map (matched start)).toList else [])
          ↔ ∃ name, m = matched start name ∧ StandsAt name 0 (c :: rest) := by
        simp only [standsAt_zero_cons_iff]
        split_ifs with hc
        · simp [hc, and_comm, eq_comm]
        · simp [hc]
      rw [hhere, List.mem_append, hfirst, ih]
      constructor
      · rintro (⟨name, rfl, h⟩ | ⟨place, name, rfl, h⟩)
        · exact ⟨0, name, rfl, h⟩
        · exact ⟨place + 1, name, by rw [Nat.add_assoc, Nat.add_comm 1], h⟩
      · rintro ⟨place, name, rfl, h⟩
        cases place with
        | zero => exact .inl ⟨name, rfl, h⟩
        | succ place => exact .inr ⟨place, name, by rw [Nat.add_assoc, Nat.add_comm 1], h⟩

/-- The marker of the name is found in its place exactly when it stands there. -/
lemma matched_mem_search_iff {place : Nat} {name text : Text} :
    matched place name ∈ pattern.search text ↔ StandsAt name place text := by
  rw [Pattern.search, mem_searchFrom_iff]
  constructor
  · rintro ⟨other, found, heq, h⟩
    have hplace : place = 0 + other := congrArg Pattern.Match.start heq
    have hname := congrArg matchedName heq
    rw [matchedName_matched, matchedName_matched] at hname
    rwa [hname, hplace, Nat.zero_add]
  · intro h
    exact ⟨place, name, by rw [Nat.zero_add], h⟩

/-- A search goes through a text from the left. -/
lemma searchFrom_sorted (start : Nat) (text : Text) :
    ((pattern.searchFrom 0 start text).map Pattern.Match.start).Pairwise (· < ·) := by
  induction text generalizing start with
  | nil => exact List.Pairwise.nil
  | cons c rest ih =>
      by_cases hc : c = '{'
      · rw [hc, searchFrom_brace]
        cases close? rest with
        | none => exact ih (start + 1)
        | some name =>
            refine List.pairwise_cons.mpr ⟨?_, ih (start + 1)⟩
            rw [List.forall_mem_map]
            intro m hm
            obtain ⟨place, other, rfl, -⟩ := mem_searchFrom_iff.mp hm
            show start < start + 1 + place
            omega
      · rw [searchFrom_cons hc]
        exact ih (start + 1)

/-- **A text is searched part by part** where the second part completes no marker of the
first. -/
theorem searchFrom_append {back : Text} (apart : Apart back) (front : Text) (start : Nat) :
    pattern.searchFrom 0 start (front ++ back)
      = pattern.searchFrom 0 start front ++ pattern.searchFrom 0 (start + front.length) back := by
  induction front generalizing start with
  | nil => rfl
  | cons c rest ih =>
      have hlength : start + (c :: rest).length = start + 1 + rest.length := by
        rw [List.length_cons]
        omega
      rw [List.cons_append, hlength]
      by_cases hc : c = '{'
      · rw [hc, searchFrom_brace, searchFrom_brace, close?_append apart, ih, List.append_assoc]
      · rw [searchFrom_cons hc, searchFrom_cons hc, ih]

/-- A text is searched on either side of blanks. -/
lemma searchFrom_append_blank {blanks : Text} (hne : blanks ≠ []) (h : blanks.isBlankText = true)
    (front back : Text) (start : Nat) :
    pattern.searchFrom 0 start (front ++ (blanks ++ back))
      = pattern.searchFrom 0 start front
        ++ pattern.searchFrom 0 (start + front.length + blanks.length) back := by
  rw [searchFrom_append (apart_of_isBlankText hne h back),
    searchFrom_skip (braceless_of_isBlankText h)]

end Directives.Marker
