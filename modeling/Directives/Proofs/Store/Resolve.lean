/-
What resolving texts writes, and what it leaves in the store.

The names a store declares do not change while texts are resolved, so every text
is written on its own. The dangling references of a text are left in the store in
the order they stand in the text, and the text that was written holds their
markers in that order, and no others.

* `Store.addLints`: a store with dangling references.
* `Store.resolved`, `Store.dangling`: what a text is written as, and the names it
  refers to that are not declared.
* `Store.resolved_of_read?`, `Store.resolved_plain`: what is written, piece by piece.
* `Store.resolved_congr`, `Store.dangling_congr`: both depend on the bindings alone.
* `Store.resolve_eq`: what resolving a text comes to.
* `Store.find_resolved`: the markers of a text that was resolved.
-/
import Directives.Proofs.Store.Marker
import Directives.Proofs.Store.Occurrence
import Directives.Store.Basic

namespace Directives

namespace Store

/-! ### Dangling references in a store -/

/-- The dangling reference to a name, made under the trail of now. -/
def lint (s : Store) (name : Text) : Lint := ⟨name, Name.marker name, s.trail⟩

/-- The store with dangling references to names, in order. -/
def addLints (s : Store) (names : List Text) : Store :=
  { s with lints := s.lints ++ names.map s.lint }

@[simp] lemma addLints_nil (s : Store) : s.addLints [] = s := by
  simp [addLints]

@[simp] lemma addLints_addLints (s : Store) (names more : List Text) :
    (s.addLints names).addLints more = s.addLints (names ++ more) := by
  simp [addLints, List.append_assoc, lint]

lemma addLints_eq_self_iff {s : Store} {names : List Text} : s.addLints names = s ↔ names = [] := by
  constructor
  · intro h
    have hlints : s.lints ++ names.map s.lint = s.lints := congrArg Store.lints h
    rwa [List.append_right_eq_self, List.map_eq_nil_iff] at hlints
  · rintro rfl
    exact s.addLints_nil

/-! ### References -/

/-- Which names are declared depends on the bindings alone. -/
lemma declares_congr {s t : Store} (h : t.bindings = s.bindings) : t.declares = s.declares := by
  funext name
  rw [declares, declares, binding?, binding?, h]

/-- The name of a reference, if it is not declared. -/
def missed (s : Store) (spelling : Text) : List Text :=
  if s.declares (Name.normalize spelling) then [] else [Name.normalize spelling]

lemma missed_eq_nil_iff {s : Store} {spelling : Text} :
    s.missed spelling = [] ↔ s.declares (Name.normalize spelling) = true := by
  by_cases h : s.declares (Name.normalize spelling) = true
  · exact iff_of_true (if_pos h) h
  · refine iff_of_false ?_ h
    rw [missed, if_neg h]
    exact List.cons_ne_nil _ _

/-- A reference leaves its name dangling if it is not declared. -/
lemma reference_snd (s : Store) (spelling : Text) :
    (s.reference spelling).2 = s.addLints (s.missed spelling) := by
  unfold reference missed
  by_cases hname : s.declares (Name.normalize spelling)
  · simp [hname]
  · simp [hname, addLints, lint]

/-- A reference is written as a token if its name is declared, else as a marker. -/
lemma reference_fst (s : Store) (spelling : Text) :
    (s.reference spelling).1 = if s.declares (Name.normalize spelling)
      then Name.token (Name.normalize spelling) else Name.marker (Name.normalize spelling) := by
  unfold reference
  by_cases hname : s.declares (Name.normalize spelling) <;> simp [hname]

end Store

/-- What a piece is written as. -/
def Piece.written (s : Store) : Piece → Text
  | plain c => [c]
  | occurrence o => (s.reference o.name).1

/-- The undeclared name a piece refers to. -/
def Piece.missed (s : Store) : Piece → List Text
  | plain _ => []
  | occurrence o => s.missed o.name

/-- What a piece is written as depends on the bindings alone. -/
lemma Piece.written_congr {s t : Store} (h : t.bindings = s.bindings) :
    Piece.written t = Piece.written s := by
  funext piece
  cases piece with
  | plain c => rfl
  | occurrence o =>
      rw [written, written, Store.reference_fst, Store.reference_fst, Store.declares_congr h]

lemma Piece.missed_congr {s t : Store} (h : t.bindings = s.bindings) :
    Piece.missed t = Piece.missed s := by
  funext piece
  cases piece with
  | plain c => rfl
  | occurrence o => rw [missed, missed, Store.missed, Store.missed, Store.declares_congr h]

namespace Store

/-! ### Texts -/

/-- What a text is written as. -/
def resolved (s : Store) (text : Text) : Text := (Piece.split text).flatMap (Piece.written s)

/-- The names that are not declared and that a text refers to, in order. -/
def dangling (s : Store) (text : Text) : List Text := (Piece.split text).flatMap (Piece.missed s)

@[simp] lemma resolved_nil (s : Store) : s.resolved [] = [] := by
  rw [resolved, Piece.split_nil, List.flatMap_nil]

@[simp] lemma dangling_nil (s : Store) : s.dangling [] = [] := by
  rw [dangling, Piece.split_nil, List.flatMap_nil]

/-- A reference that a text starts with gives way to what it yields. -/
lemma resolved_of_read? (s : Store) {text rest : Text} {o : Occurrence}
    (h : Occurrence.read? text = some (o, rest)) :
    s.resolved text = (s.reference o.name).1 ++ s.resolved rest := by
  rw [resolved, Piece.split_of_read? h, List.flatMap_cons]
  rfl

lemma dangling_of_read? (s : Store) {text rest : Text} {o : Occurrence}
    (h : Occurrence.read? text = some (o, rest)) :
    s.dangling text = s.missed o.name ++ s.dangling rest := by
  rw [dangling, Piece.split_of_read? h, List.flatMap_cons]
  rfl

/-- A character that starts no reference stays. -/
lemma resolved_plain (s : Store) {c : Char} {rest : Text}
    (h : Occurrence.read? (c :: rest) = none) : s.resolved (c :: rest) = c :: s.resolved rest := by
  rw [resolved, Piece.split_plain h, List.flatMap_cons]
  rfl

lemma dangling_plain (s : Store) {c : Char} {rest : Text}
    (h : Occurrence.read? (c :: rest) = none) : s.dangling (c :: rest) = s.dangling rest := by
  rw [dangling, Piece.split_plain h, List.flatMap_cons]
  rfl

/-- What a text is written as depends on the bindings alone. -/
lemma resolved_congr {s t : Store} (h : t.bindings = s.bindings) : t.resolved = s.resolved := by
  funext text
  rw [resolved, resolved, Piece.written_congr h]

lemma dangling_congr {s t : Store} (h : t.bindings = s.bindings) : t.dangling = s.dangling := by
  funext text
  rw [dangling, dangling, Piece.missed_congr h]

@[simp] lemma resolved_addLints (s : Store) (names : List Text) :
    (s.addLints names).resolved = s.resolved := resolved_congr rfl

@[simp] lemma dangling_addLints (s : Store) (names : List Text) :
    (s.addLints names).dangling = s.dangling := dangling_congr rfl

lemma write_eq (s : Store) (pieces : List Piece) :
    s.write pieces
      = (pieces.flatMap (Piece.written s), s.addLints (pieces.flatMap (Piece.missed s))) := by
  induction pieces generalizing s with
  | nil => simp [write]
  | cons piece rest ih =>
      cases piece with
      | plain c => simp [write, ih, Piece.written, Piece.missed]
      | occurrence o =>
          have hwritten : Piece.written (s.addLints (s.missed o.name)) = Piece.written s :=
            Piece.written_congr rfl
          have hmissed : Piece.missed (s.addLints (s.missed o.name)) = Piece.missed s :=
            Piece.missed_congr rfl
          simp [write, ih, reference_snd, Piece.written, Piece.missed, hwritten, hmissed]

/-- **Resolving a text** writes it, and leaves its dangling references. -/
theorem resolve_eq (s : Store) (text : Text) :
    s.resolve text = (s.resolved text, s.addLints (s.dangling text)) :=
  s.write_eq (Piece.split text)

/-! ### The markers of a resolved text -/

/-- What stands for an occurrence holds the marker of its name if that is not
declared, and no other. -/
lemma find_written {s : Store} {o : Occurrence} (valid : o.Valid) (back : Text) :
    Marker.find ((s.reference o.name).1 ++ back) = s.missed o.name ++ Marker.find back := by
  have hinner : ∀ c ∈ o.name, Marker.isInner c = true :=
    fun c hc => Occurrence.isInner_of_isNamePart (valid.name c hc)
  rw [reference_fst, missed, valid.normalize_name]
  by_cases hname : s.declares o.name
  · rw [if_pos hname, if_pos hname]
    refine Marker.find_token hinner (fun hmem => ?_) back
    exact (Occurrence.isNamePart_spec (valid.name '?' hmem)).2.2.2.2 rfl
  · rw [if_neg hname, if_neg hname]
    exact Marker.find_marker valid.name_ne_nil hinner back

/-- What stands for an occurrence completes no marker begun before it. -/
lemma apart_written (s : Store) (o : Occurrence) (back : Text) :
    Marker.Apart ((s.reference o.name).1 ++ back) := by
  rw [reference_fst]
  split_ifs
  · exact Marker.apart_brace _
  · exact Marker.apart_brace _

/-- **The markers of a resolved text** that did not hold the mark are those of its
dangling references, in order. -/
theorem find_resolved (s : Store) {text : Text} (unmarked : ¬ Name.unresolvedMark <:+: text) :
    Marker.find (s.resolved text) = s.dangling text := by
  -- the plain characters before the next occurrence are kept in front
  suffices h : ∀ front, ¬ Name.unresolvedMark <:+: front ++ text →
      Marker.find (front ++ s.resolved text) = s.dangling text from h [] unmarked
  clear unmarked
  induction text using Piece.induction with
  | nil =>
      intro front unmarked
      rw [resolved_nil, dangling_nil]
      exact Marker.find_eq_nil_of_unmarked unmarked
  | occurrence o rest valid hread ih =>
      intro front unmarked
      have hfront : ¬ Name.unresolvedMark <:+: front :=
        fun h => unmarked (h.trans (List.prefix_append _ _).isInfix)
      have hrest : ¬ Name.unresolvedMark <:+: rest := fun h =>
        unmarked (h.trans ((List.suffix_append _ rest).trans (List.suffix_append front _)).isInfix)
      have hih := ih [] hrest
      rw [s.resolved_of_read? hread, s.dangling_of_read? hread,
        Marker.find_append (s.apart_written o _), Marker.find_eq_nil_of_unmarked hfront,
        List.nil_append, find_written valid]
      exact congrArg _ hih
  | plain c rest hread ih =>
      intro front unmarked
      rw [s.resolved_plain hread, s.dangling_plain hread, List.append_cons]
      exact ih (front ++ [c]) (by rwa [← List.append_cons])

end Store

end Directives
