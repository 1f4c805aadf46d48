/-
Resolved texts hold no references.

A text is settled when no reference stands anywhere in it. What is written for a
reference starts with a brace that no dollar follows, and has no other opening brace, so
no reference starts in it, and none that starts before it reaches into it. What stands
between two of these was plain in the text and is plain where it was written.

* `Settled`: no reference is left in the text.
* `Occurrence.Valid.read?_source`: a reference is read wherever it stands.
* `Settled.split`: a settled text has plain pieces only.
* `Store.prefix_of_prefix_resolved`: where no brace is, a resolved text is as it was.
* `Store.settled_resolved`: resolved texts are settled.
* `Store.resolve_resolved`: resolving a resolved text does nothing.
-/
import Directives.Proofs.Store.Resolve

namespace Directives

/-- No reference is left anywhere in the text. -/
def Settled (text : Text) : Prop := ∀ o : Occurrence, o.Valid → ¬ o.source <:+: text

/-! ### References are read wherever they stand -/

namespace Occurrence

/-- The longest run of such characters, when it ends with the next character. -/
lemma span_append {p : Char → Bool} {front : Text} (hfront : ∀ c ∈ front, p c = true)
    (back : Text) (hback : back.head?.any p = false) :
    (front ++ back).takeWhile p = front ∧ (front ++ back).dropWhile p = back := by
  have hdrop : back.dropWhile p = back := by
    cases back with
    | nil => rfl
    | cons c rest => exact List.dropWhile_cons_of_neg (by simpa using hback)
  have htake : back.takeWhile p = [] := by
    cases back with
    | nil => rfl
    | cons c rest => exact List.takeWhile_cons_of_neg (by simpa using hback)
  rw [List.takeWhile_append_of_pos hfront, List.dropWhile_append_of_pos hfront, hdrop, htake,
    List.append_nil]
  exact ⟨rfl, rfl⟩

/-- **A reference is read** where a text starts with it. -/
theorem Valid.read?_source {o : Occurrence} (h : o.Valid) (rest : Text) :
    read? (o.source ++ rest) = some (o, rest) := by
  obtain ⟨before, name, after⟩ := o
  obtain ⟨c, tail, rfl⟩ := List.exists_cons_of_ne_nil h.name_ne_nil
  have hc := isNamePart_spec (h.name c (by simp))
  have hstart : isNameStart c = true := by simpa using h.start
  -- the blanks before the name, the name, the blanks behind it
  obtain ⟨hblanks, hnamed⟩ := span_append h.before (c :: tail ++ (after ++ '}' :: rest))
    (by simpa using hc.1)
  have hbehind : (after ++ '}' :: rest).head?.any isNamePart = false := by
    cases after with
    | nil => rfl
    | cons d more =>
        have hd : isBlank d = true := h.after d (by simp)
        by_contra hpart
        have := (isNamePart_spec (c := d) (by simpa using hpart)).1
        simp [hd] at this
  obtain ⟨hname, hclosing⟩ := span_append h.name _ hbehind
  obtain ⟨hafter, hbrace⟩ := span_append h.after ('}' :: rest) rfl
  have hsource : source ⟨before, c :: tail, after⟩ ++ rest
      = '{' :: '$' :: (before ++ (c :: tail ++ (after ++ '}' :: rest))) := by
    simp [source]
  rw [hsource, read?, readInside?, hnamed, hblanks, hclosing, hname, hafter, hbrace]
  simp [hstart]

/-- The only opening brace of a reference is its first character. -/
lemma Valid.source_eq {o : Occurrence} (h : o.Valid) :
    ∃ inside : Text, o.source = '{' :: '$' :: inside ∧ '{' ∉ inside := by
  refine ⟨o.before ++ o.name ++ o.after ++ ['}'], rfl, fun hmem => ?_⟩
  have hblank : ∀ blanks : Text, (∀ c ∈ blanks, isBlank c = true) → '{' ∉ blanks :=
    fun blanks hblanks hbrace => absurd (hblanks '{' hbrace) (by decide)
  simp only [List.mem_append, List.mem_singleton] at hmem
  rcases hmem with ((hbefore | hname) | hafter) | hclose
  · exact hblank _ h.before hbefore
  · exact (isNamePart_spec (h.name '{' hname)).2.1 rfl
  · exact hblank _ h.after hafter
  · cases hclose

end Occurrence

/-! ### Settled texts -/

lemma settled_nil : Settled [] := by
  intro o valid hinfix
  obtain ⟨inside, hsource, -⟩ := valid.source_eq
  rw [List.infix_nil, hsource] at hinfix
  cases hinfix

/-- A text is settled when the rest of it is, and no reference is in front. -/
lemma Settled.cons {c : Char} {rest : Text} (h : Settled rest)
    (hread : Occurrence.read? (c :: rest) = none) : Settled (c :: rest) := by
  intro o valid hinfix
  rcases List.infix_cons_iff.mp hinfix with hprefix | hrest
  · obtain ⟨back, hback⟩ := hprefix
    rw [← hback, valid.read?_source back] at hread
    cases hread
  · exact h o valid hrest

/-- Text without an opening brace holds no start of a reference. -/
lemma Settled.append {front back : Text} (h : Settled back) (hfront : '{' ∉ front) :
    Settled (front ++ back) := by
  induction front with
  | nil => exact h
  | cons c front ih =>
      rw [List.mem_cons, not_or] at hfront
      refine (ih hfront.2).cons ?_
      rw [Occurrence.read?]
      intro inside heq
      exact hfront.1 (List.cons.inj heq).1.symm

/-- A text without `{$` is settled. -/
lemma settled_of_not_infix {text : Text} (h : ¬ ['{', '$'] <:+: text) : Settled text := by
  intro o valid hinfix
  obtain ⟨inside, hsource, -⟩ := valid.source_eq
  have hstart : ['{', '$'] <+: o.source := ⟨inside, hsource.symm⟩
  exact h (hstart.isInfix.trans hinfix)

/-- A settled text has plain pieces only. -/
lemma Settled.split {text : Text} (h : Settled text) : Piece.split text = text.map .plain := by
  induction text with
  | nil => exact Piece.split_nil
  | cons c rest ih =>
      have hrest : Settled rest := fun o valid hstands =>
        h o valid (hstands.trans (List.suffix_cons c rest).isInfix)
      have hread : Occurrence.read? (c :: rest) = none := by
        refine Option.eq_none_iff_forall_ne_some.mpr fun ⟨o, back⟩ hread => ?_
        obtain ⟨valid, htext⟩ := Occurrence.read?_eq_some hread
        exact h o valid ⟨[], back, htext.symm⟩
      rw [Piece.split_plain hread, ih hrest, List.map_cons]

namespace Store

/-! ### Resolved texts -/

/-- What is written for a reference: a name, or a name with the mark, in braces. -/
lemma reference_fst_eq (s : Store) {o : Occurrence} (valid : o.Valid) :
    ∃ (c : Char) (inside : Text), (s.reference o.name).1 = '{' :: c :: inside
      ∧ c ≠ '$' ∧ '{' ∉ c :: inside := by
  obtain ⟨c, tail, hname⟩ := List.exists_cons_of_ne_nil valid.name_ne_nil
  have hc := Occurrence.isNamePart_spec (valid.name c (by simp [hname]))
  have htail : '{' ∉ tail := fun hmem =>
    (Occurrence.isNamePart_spec (valid.name '{' (by simp [hname, hmem]))).2.1 rfl
  have hmark : '{' ∉ Name.unresolvedMark := by decide
  rw [reference_fst, valid.normalize_name]
  split_ifs
  · refine ⟨c, tail ++ ['}'], by simp [Name.token, hname], hc.2.2.2.1, ?_⟩
    simp [hc.2.1.symm, htail]
  · refine ⟨c, tail ++ Name.unresolvedMark ++ ['}'], by simp [Name.marker, hname], hc.2.2.2.1, ?_⟩
    simp [hc.2.1.symm, htail, hmark]

/-- **Where no brace is, a resolved text is as it was**: braceless text in front of it was
in front of the text. -/
theorem prefix_of_prefix_resolved (s : Store) {front text : Text} (braceless : '{' ∉ front)
    (h : front <+: s.resolved text) : front <+: text := by
  induction text using Piece.induction generalizing front with
  | nil =>
      rwa [resolved_nil] at h
  | occurrence o rest valid hread ih =>
      obtain ⟨c, inside, hwritten, -, -⟩ := s.reference_fst_eq valid
      rw [s.resolved_of_read? hread, hwritten] at h
      cases front with
      | nil => exact List.nil_prefix
      | cons d front =>
          obtain ⟨rfl, -⟩ := List.cons_prefix_cons.mp h
          simp at braceless
  | plain c rest hread ih =>
      rw [s.resolved_plain hread] at h
      cases front with
      | nil => exact List.nil_prefix
      | cons d front =>
          obtain ⟨rfl, hrest⟩ := List.cons_prefix_cons.mp h
          rw [List.mem_cons, not_or] at braceless
          exact List.cons_prefix_cons.mpr ⟨rfl, ih braceless.2 hrest⟩

/-- **Resolved texts are settled**, whatever stands next to the references: braces and
dollars of the text, and the braces of what was written for other references. -/
theorem settled_resolved (s : Store) (text : Text) : Settled (s.resolved text) := by
  induction text using Piece.induction with
  | nil =>
      rw [resolved_nil]
      exact settled_nil
  | occurrence o rest valid hread ih =>
      obtain ⟨c, inside, hwritten, hdollar, hbraceless⟩ := s.reference_fst_eq valid
      rw [s.resolved_of_read? hread, hwritten]
      refine (ih.append hbraceless).cons ?_
      rw [List.cons_append, Occurrence.read?]
      intro inner heq
      exact hdollar (List.cons.inj (List.cons.inj heq).2).1
  | plain c rest hread ih =>
      rw [s.resolved_plain hread]
      refine ih.cons ?_
      by_contra hsome
      -- a reference that starts here would have been read in the text itself
      obtain ⟨⟨o, back⟩, hback⟩ := Option.ne_none_iff_exists'.mp hsome
      obtain ⟨valid, htext⟩ := Occurrence.read?_eq_some hback
      obtain ⟨inside, hsource, hbraceless⟩ := valid.source_eq
      rw [hsource] at htext
      obtain ⟨rfl, hresolved⟩ := List.cons.inj htext
      have hprefix : '$' :: inside <+: rest :=
        s.prefix_of_prefix_resolved (by simp [hbraceless]) ⟨back, hresolved.symm⟩
      obtain ⟨behind, rfl⟩ := hprefix
      have hstands : Occurrence.read? ('{' :: '$' :: inside ++ behind) = some (o, behind) := by
        rw [← hsource]
        exact valid.read?_source behind
      rw [List.cons_append] at hstands
      rw [hstands] at hread
      cases hread

/-! ### Resolving again -/

/-- A settled text is left as it is, and so is the store. -/
lemma resolve_of_settled (s : Store) {text : Text} (h : Settled text) :
    s.resolve text = (text, s) := by
  have hwritten : (text.map Piece.plain).flatMap (Piece.written s) = text := by
    simp [List.flatMap_map, Piece.written]
  have hmissed : (text.map Piece.plain).flatMap (Piece.missed s) = [] := by
    simp [List.flatMap_eq_nil_iff, Piece.missed]
  rw [resolve_eq, resolved, dangling, h.split, hwritten, hmissed, addLints_nil]

/-- A text without `{$` is left as it is, and so is the store. -/
lemma resolve_of_not_contains (s : Store) {text : Text}
    (h : ¬ Text.contains ['{', '$'] text = true) : s.resolve text = (text, s) := by
  have hsettled : Settled text := settled_of_not_infix fun hinfix =>
    h (Text.contains_iff.mpr hinfix)
  exact s.resolve_of_settled hsettled

/-- **Resolving a text again does nothing**: what a text was resolved to is left as it is,
and no lint is added. The store may be the one it was resolved in, that store after any
further declarations, or any other. -/
theorem resolve_resolved (s later : Store) (text : Text) :
    later.resolve (s.resolve text).1 = ((s.resolve text).1, later) := by
  have hsettled : Settled (s.resolve text).1 := by
    rw [resolve_eq]
    exact s.settled_resolved text
  exact later.resolve_of_settled hsettled

end Store

end Directives
