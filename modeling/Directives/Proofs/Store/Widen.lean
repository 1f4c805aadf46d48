/-
Stores that declare more names.

A store widens another by some names when it declares these as well. Whatever is done on both
goes alike but for these names: a reference to one of them that dangles on the narrow store
yields the token on the wide one and leaves no lint. Ordinals, descriptions and the order of
the bindings make no difference to a reference.

* `Store.Widens`: the wide store declares the extra names as well.
* `Store.freed`: what a text is written as when the references to extra names are freed of
  their marks.
* `Store.Widens.resolved`, `Store.Widens.dangling`: texts on both.
* `Store.Widens.declare`, `Store.Widens.addLints`: what is done on both.
-/
import Directives.Proofs.Store.Declared
import Directives.Proofs.Store.Resolve

namespace Directives

/-- The token of a name is not its marker. -/
lemma Name.token_ne_marker (name : Text) : token name ≠ marker name := by
  intro h
  have hlength := congrArg List.length h
  have hmark : unresolvedMark.length = 11 := rfl
  simp only [token, marker, List.length_cons, List.length_append, hmark] at hlength
  omega

/-- What a piece is written as: in the place of a reference that yields the marker of an extra
name stands its token. -/
def Piece.freed (extra : List Text) (s : Store) : Piece → Text
  | plain c => [c]
  | occurrence o =>
      let name := Name.normalize o.name
      if extra.contains name = true ∧ (s.reference o.name).1 = Name.marker name then
        Name.token name
      else (s.reference o.name).1

namespace Store

/-- The text as it is written, with the token of an extra name for each marker of it that a
reference yields. What stands in the text else stays, markers among it. -/
def freed (extra : List Text) (s : Store) (text : Text) : Text :=
  (Piece.split text).flatMap (Piece.freed extra s)

/-- The other store declares the extra names as well, and lacks the dangling references to
them. -/
structure Widens (extra : List Text) (s t : Store) : Prop where
  declares : ∀ name, t.declares name = true ↔ s.declares name = true ∨ name ∈ extra
  lints : t.lints = s.lints.filter (·.name ∉ extra)
  trail : t.trail = s.trail

lemma freed_nil (s : Store) : s.freed [] = s.resolved := by
  have hpiece : Piece.freed [] s = Piece.written s := by
    funext piece
    cases piece with
    | plain c => rfl
    | occurrence o => rw [Piece.freed, if_neg (by simp), Piece.written]
  funext text
  rw [freed, resolved, hpiece]

namespace Widens

variable {extra : List Text} {s t : Store}

lemma refl (s : Store) : s.Widens [] s where
  declares name := by simp
  lints := by simp
  trail := rfl

lemma trans {more : List Text} {u : Store} (h : s.Widens extra t) (hmore : t.Widens more u) :
    s.Widens (extra ++ more) u where
  declares name := by
    rw [hmore.declares, h.declares, List.mem_append, or_assoc]
  lints := by
    rw [hmore.lints, h.lints, List.filter_filter]
    exact List.filter_congr fun lint _ => by simp [Bool.and_comm]
  trail := hmore.trail.trans h.trail

/-- Stores that widen one store by the same names go alike. -/
lemma join {same : List Text} {u : Store} (h : s.Widens extra t) (hsame : s.Widens same u)
    (names : ∀ name, name ∈ extra ↔ name ∈ same) : t.Widens [] u where
  declares name := by
    rw [hsame.declares, h.declares, names, List.mem_nil_iff, or_false]
  lints := by
    rw [hsame.lints, h.lints, List.filter_filter]
    exact List.filter_congr fun lint _ => by simp [names]
  trail := hsame.trail.trans h.trail.symm

/-- A declaration makes a store wider that has no dangling references yet. -/
lemma of_declare (bare : s.lints = []) (spelling description : Text) :
    s.Widens [Name.normalize spelling] (s.declare spelling description).2 where
  declares name := by
    rw [declares_declare, Bool.or_eq_true, beq_iff_eq, List.mem_singleton, eq_comm (a := name)]
  lints := by
    show s.lints = _
    rw [bare, List.filter_nil]
  trail := rfl

/-! ### Texts on both -/

lemma written_eq (h : s.Widens extra t) : Piece.written t = Piece.freed extra s := by
  funext piece
  cases piece with
  | plain c => rfl
  | occurrence o =>
      have hdeclares := h.declares (Name.normalize o.name)
      rw [Piece.written, Piece.freed, reference_fst, reference_fst]
      by_cases hname : s.declares (Name.normalize o.name) = true
      · -- the name is declared on both
        rw [if_pos hname, if_pos (hdeclares.mpr (.inl hname)),
          if_neg fun hmarker => Name.token_ne_marker _ hmarker.2]
      · rw [if_neg hname]
        by_cases hextra : Name.normalize o.name ∈ extra
        · rw [if_pos (hdeclares.mpr (.inr hextra)), if_pos ⟨List.contains_iff_mem.mpr hextra, rfl⟩]
        · rw [if_neg fun hwide => (hdeclares.mp hwide).elim hname hextra,
            if_neg fun hmarker => hextra (List.contains_iff_mem.mp hmarker.1)]

/-- **A text on the wide store** is written with tokens for the markers of extra names. -/
theorem resolved (h : s.Widens extra t) : t.resolved = s.freed extra := by
  funext text
  rw [Store.resolved, freed, h.written_eq]

lemma missed (h : s.Widens extra t) (spelling : Text) :
    t.missed spelling = (s.missed spelling).filter (· ∉ extra) := by
  have hdeclares := h.declares (Name.normalize spelling)
  rw [Store.missed, Store.missed]
  by_cases hname : s.declares (Name.normalize spelling) = true
  · rw [if_pos hname, if_pos (hdeclares.mpr (.inl hname)), List.filter_nil]
  · rw [if_neg hname, List.filter_singleton]
    by_cases hextra : Name.normalize spelling ∈ extra
    · simp [hdeclares, hextra]
    · simp [hdeclares, hname, hextra]

/-- A text leaves no dangling references to extra names on the wide store. -/
theorem dangling (h : s.Widens extra t) (text : Text) :
    t.dangling text = (s.dangling text).filter (· ∉ extra) := by
  rw [Store.dangling, Store.dangling, List.filter_flatMap]
  refine List.flatMap_congr fun piece _ => ?_
  cases piece with
  | plain c => rfl
  | occurrence o => exact h.missed o.name

lemma flatMap_dangling (h : s.Widens extra t) (texts : List Text) :
    texts.flatMap t.dangling = (texts.flatMap s.dangling).filter (· ∉ extra) := by
  rw [List.filter_flatMap]
  exact List.flatMap_congr fun text _ => h.dangling text

/-! ### What is done on both -/

/-- A declaration on both, with a description each. -/
lemma declare (h : s.Widens extra t) (spelling description other : Text) :
    (s.declare spelling description).2.Widens extra (t.declare spelling other).2 where
  declares name := by
    rw [declares_declare, declares_declare, Bool.or_eq_true, Bool.or_eq_true, h.declares]
    tauto
  lints := h.lints
  trail := h.trail

/-- Dangling references that are left on both. -/
lemma addLints (h : s.Widens extra t) (names : List Text) :
    (s.addLints names).Widens extra (t.addLints (names.filter (· ∉ extra))) where
  declares := h.declares
  lints := by
    have hlint : t.lint = s.lint := by
      funext name
      rw [lint, lint, h.trail]
    rw [Store.addLints, Store.addLints, h.lints, hlint, List.filter_append, List.filter_map]
    rfl
  trail := h.trail

/-- The trail is handed to both. -/
lemma withTrail (h : s.Widens extra t) (trail : List Text) :
    Store.Widens extra { s with trail } { t with trail } :=
  ⟨h.declares, h.lints, rfl⟩

end Widens

end Store

end Directives
