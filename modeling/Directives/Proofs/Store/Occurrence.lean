/-
What the pieces of a text are.

An occurrence that was read has a name that starts as names start and goes on as
names go on, between blanks. Such a name is its own normal form. The pieces of a
text, written one after another as they stand, give the text back.

* `Occurrence.Valid`: the occurrences that are read.
* `Occurrence.read?_eq_some`: what was read stands at the start of the text.
* `Occurrence.Valid.normalize_name`: the name of an occurrence is in normal form.
* `Piece.induction`: a property of texts goes from what stands behind a piece to
  the text.
* `Piece.flatMap_source`: the pieces give the text back.
-/
import Mathlib.Data.List.TakeWhile
import Mathlib.Tactic
import Directives.Proofs.Store.Name
import Directives.Store.Marker
import Directives.Store.Occurrence

namespace Directives

namespace Occurrence

/-! ### The characters of names -/

lemma le_toNat {a b : Char} : a ≤ b ↔ a.toNat ≤ b.toNat := Iff.rfl

/-- A character of a name is no blank, no brace, no dollar and no question mark. -/
lemma isNamePart_spec {c : Char} (h : isNamePart c = true) :
    isBlank c = false ∧ c ≠ '{' ∧ c ≠ '}' ∧ c ≠ '$' ∧ c ≠ '?' := by
  have hrange : (97 ≤ c.toNat ∧ c.toNat ≤ 122) ∨ (65 ≤ c.toNat ∧ c.toNat ≤ 90) ∨ c.toNat = 95
      ∨ (48 ≤ c.toNat ∧ c.toNat ≤ 57) ∨ c.toNat = 46 ∨ c.toNat = 45 := by
    simp only [isNamePart, isNameStart, Text.isLetter, Text.isDigit, Bool.or_eq_true,
      Bool.and_eq_true, decide_eq_true_eq, beq_iff_eq, le_toNat] at h
    rcases h with (((⟨⟨h1, h2⟩ | ⟨h1, h2⟩⟩ | rfl) | ⟨h1, h2⟩) | rfl) | rfl
    · exact .inl ⟨h1, h2⟩
    · exact .inr (.inl ⟨h1, h2⟩)
    · decide
    · exact .inr (.inr (.inr (.inl ⟨h1, h2⟩)))
    · decide
    · decide
  have hne : ∀ d : Char, c.toNat ≠ d.toNat → c ≠ d := fun d hd heq => hd (congrArg Char.toNat heq)
  refine ⟨?_, hne _ ?_, hne _ ?_, hne _ ?_, hne _ ?_⟩
  · simp only [isBlank, Bool.or_eq_false_iff, Bool.and_eq_false_iff, decide_eq_false_iff_not,
      beq_eq_false_iff_ne]
    omega
  all_goals
    simp only [show '{'.toNat = 123 from rfl, show '}'.toNat = 125 from rfl,
      show '$'.toNat = 36 from rfl, show '?'.toNat = 63 from rfl]
    omega

/-- A character of a name may stand in a marker. -/
lemma isInner_of_isNamePart {c : Char} (h : isNamePart c = true) : Marker.isInner c = true := by
  obtain ⟨hblank, hopen, hclose, _, _⟩ := isNamePart_spec h
  simp [Marker.isInner, hblank, hopen, hclose]

/-! ### Reading an occurrence -/

/-- The occurrences that are read: blanks, a name, blanks. -/
structure Valid (o : Occurrence) : Prop where
  before : ∀ c ∈ o.before, isBlank c = true
  start : o.name.head?.any isNameStart = true
  name : ∀ c ∈ o.name, isNamePart c = true
  after : ∀ c ∈ o.after, isBlank c = true

/-- What is read is valid and stands at the start of the text. -/
theorem read?_eq_some {text rest : Text} {o : Occurrence} (h : read? text = some (o, rest)) :
    o.Valid ∧ text = o.source ++ rest := by
  unfold read? at h
  split at h
  · next inside =>
    unfold readInside? at h
    simp only at h
    split at h
    · next hstart =>
      split at h
      · next behind hclosing =>
        obtain ⟨rfl, rfl⟩ : _ = o ∧ behind = rest := by simpa using h
        set named := inside.dropWhile isBlank with hnamed
        refine ⟨⟨fun c hc => List.mem_takeWhile_imp hc, ?_, fun c hc => List.mem_takeWhile_imp hc,
          fun c hc => List.mem_takeWhile_imp hc⟩, ?_⟩
        · -- a name goes on with the character it starts with
          cases hcases : named with
          | nil => simp [hcases] at hstart
          | cons c tail =>
              have hc : isNameStart c = true := by simpa [hcases] using hstart
              have hpart : isNamePart c = true := by simp [isNamePart, hc]
              simpa [List.takeWhile_cons, hpart] using hc
        · have hinside : inside = inside.takeWhile isBlank ++ named :=
            List.takeWhile_append_dropWhile.symm
          have hname : named = named.takeWhile isNamePart ++ named.dropWhile isNamePart :=
            List.takeWhile_append_dropWhile.symm
          have hafter : named.dropWhile isNamePart
              = (named.dropWhile isNamePart).takeWhile isBlank ++ '}' :: behind := by
            rw [← hclosing, List.takeWhile_append_dropWhile]
          conv_lhs => rw [hinside, hname, hafter]
          simp [source]
      · cases h
    · cases h
  · cases h

namespace Valid

variable {o : Occurrence}

lemma name_ne_nil (h : o.Valid) : o.name ≠ [] := by
  intro hname
  have hstart := h.start
  rw [hname] at hstart
  cases hstart

/-- The name of an occurrence is in normal form. -/
theorem normalize_name (h : o.Valid) : Name.normalize o.name = o.name := by
  have hblank : ∀ c ∈ o.name, isBlank c = false := fun c hc => (isNamePart_spec (h.name c hc)).1
  have hstart : o.name.trimStart = o.name := by
    rw [Text.trimStart, List.dropWhile_eq_self_iff]
    intro hpos
    simp [hblank]
  have hend : o.name.trimEnd = o.name := by
    rw [Text.trimEnd, List.dropWhile_eq_self_iff.mpr, List.reverse_reverse]
    intro hpos
    simpa using hblank _ (List.mem_reverse.mp (List.getElem_mem hpos))
  have htrim : o.name.trim = o.name := by rw [Text.trim, hstart, hend]
  obtain ⟨c, rest, hcons⟩ := List.exists_cons_of_ne_nil h.name_ne_nil
  obtain ⟨_, hopen, _, hdollar, _⟩ := isNamePart_spec (h.name c (by simp [hcons]))
  have hstrip : Name.stripDollar o.name = o.name :=
    Name.stripDollar_eq_self htrim (by simpa [hcons] using hdollar)
  have hbraces : Name.stripBraces o.name = o.name := by
    rw [hcons, Name.stripBraces]
    intro tail heq
    exact hopen (List.cons.inj heq).1
  rw [Name.normalize, hstrip, hbraces, hstrip]

end Valid

end Occurrence

namespace Piece

lemma split_nil : split [] = [] := by
  rw [split]
  split
  · next h => cases h
  · rfl

lemma split_of_read? {text rest : Text} {o : Occurrence}
    (h : Occurrence.read? text = some (o, rest)) : split text = occurrence o :: split rest := by
  rw [split]
  split
  · next heq =>
    obtain ⟨rfl, rfl⟩ : _ = o ∧ _ = rest := by simpa [h, eq_comm] using heq
    rfl
  · next heq => simp [h] at heq

lemma split_plain {c : Char} {rest : Text} (h : Occurrence.read? (c :: rest) = none) :
    split (c :: rest) = plain c :: split rest := by
  rw [split]
  split
  · next heq => simp [h] at heq
  · rfl

/-- Induction over the pieces of a text: a property goes from the text behind an
occurrence, or behind a plain character, to the text. -/
@[elab_as_elim]
theorem induction {P : Text → Prop} (nil : P [])
    (occurrence : ∀ o rest, o.Valid → Occurrence.read? (o.source ++ rest) = some (o, rest) →
      P rest → P (o.source ++ rest))
    (plain : ∀ c rest, Occurrence.read? (c :: rest) = none → P rest → P (c :: rest))
    (text : Text) : P text :=
  match h : Occurrence.read? text with
  | some (o, rest) => by
      have hread := Occurrence.read?_eq_some h
      have hlength := Occurrence.read?_length h
      rw [hread.2]
      exact occurrence o rest hread.1 (hread.2 ▸ h) (induction nil occurrence plain rest)
  | none =>
      match text with
      | [] => nil
      | c :: rest => plain c rest h (induction nil occurrence plain rest)
termination_by text.length

/-- The pieces of a text, as they stand, give the text back. -/
theorem flatMap_source (text : Text) : (split text).flatMap source = text := by
  induction text using Piece.induction with
  | nil => rw [split_nil, List.flatMap_nil]
  | occurrence o rest valid hread ih => rw [split_of_read? hread, List.flatMap_cons, ih, source]
  | plain c rest hread ih => rw [split_plain hread, List.flatMap_cons, ih]; rfl

end Piece

end Directives
