/-
Where references stand in a text.

A reference has one opening brace, its first character, so none starts inside another. The
pieces of a text therefore hold a reference wherever one stands, and no others.

* `Occurrence.StandsAt`: a reference stands behind so many characters of a text.
* `Occurrence.StandsAt.apart`: two references in a text do not overlap.
* `Piece.spans`: the references among pieces, each with its place.
* `Piece.mem_spans_split_iff`: those among the pieces of a text are those that stand in it.
-/
import Directives.Proofs.Store.Settled

namespace Directives

namespace Occurrence

variable {o o' : Occurrence} {text : Text} {i j : Nat}

/-- The reference stands behind the first `start` characters of the text. -/
def StandsAt (o : Occurrence) (start : Nat) (text : Text) : Prop :=
  o.Valid ∧ o.source <+: text.drop start

/-- The first character of a reference is the only opening brace in it. -/
lemma Valid.eq_zero_of_brace (h : o.Valid) {k : Nat} (hk : o.source[k]? = some '{') : k = 0 := by
  obtain ⟨inside, hsource, hbraceless⟩ := h.source_eq
  cases k with
  | zero => rfl
  | succ k =>
      rw [hsource, List.getElem?_cons_succ] at hk
      have hmem : '{' ∈ '$' :: inside := List.mem_of_getElem? hk
      simp [hbraceless] at hmem

namespace StandsAt

/-- The characters of the text from where a reference stands. -/
lemma getElem?_add (h : o.StandsAt i text) {k : Nat} (hk : k < o.source.length) :
    text[i + k]? = o.source[k]? := by
  obtain ⟨back, hback⟩ := h.2
  rw [← List.getElem?_drop, ← hback, List.getElem?_append_left hk]

lemma brace (h : o.StandsAt i text) : text[i]? = some '{' := by
  obtain ⟨inside, hsource, -⟩ := h.1.source_eq
  have hfirst := h.getElem?_add (k := 0) (by simp [hsource])
  rwa [Nat.add_zero, hsource] at hfirst

/-- A reference that stands further on stands behind the whole of the first. -/
lemma add_length_le (h : o.StandsAt i text) (h' : o'.StandsAt j text) (hlt : i < j) :
    i + o.source.length ≤ j := by
  by_contra hinside
  obtain ⟨k, rfl⟩ := Nat.exists_eq_add_of_lt hlt
  have hbrace := h.getElem?_add (k := k + 1) (by omega)
  rw [← Nat.add_assoc, h'.brace] at hbrace
  exact absurd (h.1.eq_zero_of_brace hbrace.symm) (by omega)

/-- **References do not overlap**: two of them in a text are the same one, or one ends
before the other starts. -/
theorem apart (h : o.StandsAt i text) (h' : o'.StandsAt j text) :
    (i = j ∧ o = o') ∨ i + o.source.length ≤ j ∨ j + o'.source.length ≤ i := by
  rcases Nat.lt_trichotomy i j with hlt | rfl | hlt
  · exact .inr (.inl (h.add_length_le h' hlt))
  · obtain ⟨back, hback⟩ := h.2
    obtain ⟨back', hback'⟩ := h'.2
    have hread := h.1.read?_source back
    rw [hback, ← hback', h'.1.read?_source back'] at hread
    obtain ⟨rfl, -⟩ := Prod.mk.inj (Option.some.inj hread)
    exact .inl ⟨rfl, rfl⟩
  · exact .inr (.inr (h'.add_length_le h hlt))

end StandsAt

end Occurrence

namespace Piece

/-- The references among the pieces of a text are valid. -/
lemma valid_of_mem_split {text : Text} {o : Occurrence} (h : occurrence o ∈ split text) :
    o.Valid := by
  induction text using Piece.induction with
  | nil => simp [split_nil] at h
  | occurrence first rest valid hread ih =>
      rw [split_of_read? hread, List.mem_cons] at h
      rcases h with hfirst | hrest
      · cases hfirst
        exact valid
      · exact ih hrest
  | plain c rest hread ih =>
      rw [split_plain hread, List.mem_cons] at h
      rcases h with hfirst | hrest
      · cases hfirst
      · exact ih hrest

/-- The references among pieces, each with the number of characters in front of it, where
`start` characters stand in front of the first piece. -/
def spans (start : Nat) : List Piece → List (Nat × Occurrence)
  | [] => []
  | .plain _ :: rest => spans (start + 1) rest
  | .occurrence o :: rest => (start, o) :: spans (start + o.source.length) rest

/-- **The references among the pieces of a text** are those that stand in it. -/
theorem mem_spans_split_iff {text : Text} {start place : Nat} {o : Occurrence} :
    (place, o) ∈ spans start (split text) ↔ ∃ i, place = start + i ∧ o.StandsAt i text := by
  induction text using Piece.induction generalizing start with
  | nil =>
      rw [split_nil, spans]
      refine ⟨fun h => absurd h List.not_mem_nil, ?_⟩
      rintro ⟨i, -, h⟩
      simpa using h.brace
  | occurrence first rest valid hread ih =>
      rw [split_of_read? hread, spans, List.mem_cons, ih]
      have hfirst : first.StandsAt 0 (first.source ++ rest) := ⟨valid, List.prefix_append _ _⟩
      have hbehind : ∀ i, o.StandsAt (first.source.length + i) (first.source ++ rest)
          ↔ o.StandsAt i rest := by
        intro i
        rw [Occurrence.StandsAt, List.drop_length_add_append, Occurrence.StandsAt]
      constructor
      · rintro (hhere | ⟨i, rfl, h⟩)
        · obtain ⟨rfl, rfl⟩ := Prod.mk.inj hhere
          exact ⟨0, rfl, hfirst⟩
        · exact ⟨first.source.length + i, by omega, (hbehind i).mpr h⟩
      · rintro ⟨i, rfl, h⟩
        rcases hfirst.apart h with ⟨rfl, rfl⟩ | hle | hle
        · exact .inl rfl
        · obtain ⟨i, rfl⟩ := Nat.exists_eq_add_of_le hle
          rw [Nat.zero_add] at h ⊢
          exact .inr ⟨i, by omega, (hbehind i).mp h⟩
        · have hlength : 0 < o.source.length := Nat.succ_pos _
          omega
  | plain c rest hread ih =>
      rw [split_plain hread, spans, ih]
      constructor
      · rintro ⟨i, rfl, h⟩
        exact ⟨i + 1, by omega, h⟩
      · rintro ⟨i, rfl, h⟩
        cases i with
        | zero =>
            obtain ⟨valid, back, hback⟩ := h
            rw [List.drop_zero] at hback
            rw [← hback, valid.read?_source back] at hread
            cases hread
        | succ i => exact ⟨i, by omega, h⟩

end Piece

end Directives
