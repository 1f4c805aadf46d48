/-
The names that can be read back.

A store takes any text as a name that has no blanks around it. A text refers to a name only
if it is an identifier, and a marker is found only if its name is legible. Identifiers are
legible, so what a text leaves dangling is found. Not all names that are declared are
identifiers: a reference to another one stands in the text as it was, and leaves no lint. Not
all names that are referred to are legible: the marker of another one is not found.

* `Name.isIdentifier`, `Name.isLegible`: the names of references in texts, and of markers.
* `Name.dollared`: a name as a text refers to it.
* `Store.Reachable`: the stores that calls come to; `Store.Reachable.trim_name` is the
  invariant of their bindings.
* `Store.resolve_dollared_iff`, `Store.resolve_dollared`: when a text refers to a name.
* `Marker.isLegible_of_mem_find`, `Marker.find_marker_eq_singleton_iff`: when a marker is found.
* `Store.find_reference`: when what a dangling reference yields is found.
-/
import Directives.Proofs.Store.Declared
import Directives.Proofs.Store.Search

namespace Directives

namespace Name

/-- A text may refer to the name. -/
def isIdentifier (name : Text) : Bool :=
  name.head?.any Occurrence.isNameStart && name.all Occurrence.isNamePart

/-- The name may stand in a marker. -/
def isLegible (name : Text) : Bool := !name.isEmpty && name.all Marker.isInner

/-- The name as a text refers to it. -/
def dollared (name : Text) : Text := '{' :: '$' :: (name ++ ['}'])

/-! ### The two alphabets -/

lemma isIdentifier_iff {name : Text} :
    isIdentifier name = true ↔ (⟨[], name, []⟩ : Occurrence).Valid := by
  rw [isIdentifier, Bool.and_eq_true, List.all_eq_true]
  constructor
  · rintro ⟨hstart, hname⟩
    exact ⟨by simp, hstart, hname, by simp⟩
  · exact fun valid => ⟨valid.start, valid.name⟩

lemma isLegible_iff {name : Text} :
    isLegible name = true ↔ name ≠ [] ∧ ∀ c ∈ name, Marker.isInner c = true := by
  rw [isLegible, Bool.and_eq_true, Bool.not_eq_true', List.isEmpty_eq_false_iff, List.all_eq_true]

/-- **Identifiers are legible**: what a text leaves dangling has a marker that is found. -/
theorem isLegible_of_isIdentifier {name : Text} (h : isIdentifier name = true) :
    isLegible name = true := by
  have valid := isIdentifier_iff.mp h
  refine isLegible_iff.mpr ⟨valid.name_ne_nil, fun c hc => ?_⟩
  exact Occurrence.isInner_of_isNamePart (valid.name c hc)

end Name

/-! ### References to a name in a text -/

namespace Occurrence

variable {o : Occurrence}

lemma Valid.isIdentifier_name (h : o.Valid) : Name.isIdentifier o.name = true :=
  Name.isIdentifier_iff.mpr ⟨by simp, h.start, h.name, by simp⟩

lemma Valid.trim_name (h : o.Valid) : o.name.trim = o.name := by
  have htrim := Name.trim_normalize o.name
  rwa [h.normalize_name] at htrim

/-- The only closing brace of a reference is its last character. -/
lemma Valid.unclosed (h : o.Valid) : '}' ∉ o.before ++ o.name ++ o.after := by
  have hblank : ∀ blanks : Text, (∀ c ∈ blanks, isBlank c = true) → '}' ∉ blanks :=
    fun blanks hblanks hbrace => absurd (hblanks '}' hbrace) (by decide)
  simp only [List.mem_append, not_or]
  refine ⟨⟨hblank _ h.before, fun hname => ?_⟩, hblank _ h.after⟩
  exact (isNamePart_spec (h.name '}' hname)).2.2.1 rfl

/-- What is read in front of `{$N}` ends at the first closing brace. -/
lemma read?_dollared {name rest : Text} (h : read? (Name.dollared name) = some (o, rest)) :
    o.Valid ∧ name ++ ['}'] = o.before ++ o.name ++ o.after ++ '}' :: rest := by
  obtain ⟨valid, htext⟩ := read?_eq_some h
  refine ⟨valid, ?_⟩
  simpa [Name.dollared, source] using htext

/-- A name without a closing brace that is read from `{$N}` is an identifier. -/
lemma isIdentifier_of_read?_dollared {name rest : Text} (trimmed : name.trim = name)
    (unclosed : '}' ∉ name) (h : read? (Name.dollared name) = some (o, rest)) :
    Name.isIdentifier name = true := by
  obtain ⟨valid, hname⟩ := read?_dollared h
  obtain ⟨rfl, -⟩ := Text.append_cons_inj unclosed valid.unclosed hname
  -- the blanks around the name of the reference are blanks around the whole
  have htrim := Text.trim_append_append valid.before valid.after o.name
  rw [trimmed, valid.trim_name] at htrim
  rw [htrim]
  exact valid.isIdentifier_name

end Occurrence

namespace Store

/-! ### When a text refers to a name -/

/-- A dollar in front of a text is not made up for by what the text is resolved to. -/
lemma cons_resolved_ne (s : Store) (text : Text) : '$' :: s.resolved text ≠ text := by
  induction text using Piece.induction with
  | nil => exact List.cons_ne_nil _ _
  | occurrence o rest valid hread ih =>
      intro h
      have hbrace := (List.cons.inj h).1
      exact absurd hbrace (by decide)
  | plain c rest hread ih =>
      intro h
      rw [s.resolved_plain hread] at h
      obtain ⟨rfl, hrest⟩ := List.cons.inj h
      exact ih hrest

/-- Where no reference is read from `{$N}` the dollar stays, so it does not become `{N}`. -/
lemma resolved_dollared_ne (s : Store) {name : Text}
    (h : Occurrence.read? (Name.dollared name) = none) :
    s.resolved (Name.dollared name) ≠ Name.token name := by
  intro htext
  have hdollar : Occurrence.read? ('$' :: (name ++ ['}'])) = none := rfl
  rw [Name.dollared] at h htext
  rw [s.resolved_plain h, s.resolved_plain hdollar] at htext
  exact s.cons_resolved_ne _ (List.cons.inj htext).2

/-- Where `{$N}` becomes `{N}` there are no blanks around the name that is read from it, and
no reference is behind that. -/
lemma cut_of_resolved_dollared (s : Store) {name rest : Text} {o : Occurrence}
    (hread : Occurrence.read? (Name.dollared name) = some (o, rest))
    (hdeclares : s.declares o.name = true)
    (htext : s.resolved (Name.dollared name) = Name.token name) :
    name ++ ['}'] = o.name ++ '}' :: rest ∧ Settled rest := by
  obtain ⟨valid, hname⟩ := Occurrence.read?_dollared hread
  rw [s.resolved_of_read? hread, reference_fst, valid.normalize_name, if_pos hdeclares] at htext
  have hsame : o.name ++ '}' :: s.resolved rest
      = o.before ++ o.name ++ o.after ++ '}' :: rest := by
    calc o.name ++ '}' :: s.resolved rest
        = name ++ ['}'] := by simpa [Name.token] using htext
      _ = o.before ++ o.name ++ o.after ++ '}' :: rest := hname
  have hclose : '}' ∉ o.name := fun hmem => valid.unclosed (by simp [hmem])
  obtain ⟨hblanks, hrest⟩ := Text.append_cons_inj hclose valid.unclosed hsame
  refine ⟨?_, ?_⟩
  · rw [hname, ← hblanks]
  · rw [← hrest]
    exact s.settled_resolved rest

/-- A declared identifier up to the first closing brace is what is replaced. -/
lemma resolve_dollared_of_cut (s : Store) {name front behind : Text}
    (hfront : Name.isIdentifier front = true) (hdeclares : s.declares front = true)
    (hname : name ++ ['}'] = front ++ '}' :: behind) (hsettled : Settled behind) :
    s.resolve (Name.dollared name) = (Name.token name, s) := by
  have valid := Name.isIdentifier_iff.mp hfront
  have hread := valid.read?_source behind
  have hdollared : Name.dollared name = Occurrence.source ⟨[], front, []⟩ ++ behind := by
    simp [Name.dollared, Occurrence.source, hname]
  have hbehind := s.resolve_of_settled hsettled
  rw [resolve_eq, Prod.mk.injEq, addLints_eq_self_iff] at hbehind
  have hyielded : (s.reference front).1 = Name.token front := by
    rw [reference_fst, valid.normalize_name, if_pos hdeclares]
  have hmissed : s.missed front = [] := by
    rwa [missed_eq_nil_iff, valid.normalize_name]
  calc s.resolve (Name.dollared name)
      = ((s.reference front).1 ++ s.resolved behind,
          s.addLints (s.missed front ++ s.dangling behind)) := by
        rw [hdollared, resolve_eq, s.resolved_of_read? hread, s.dangling_of_read? hread]
    _ = (Name.token front ++ behind, s) := by
        rw [hyielded, hmissed, hbehind.1, hbehind.2, List.append_nil, addLints_nil]
    _ = (Name.token name, s) := by
        simp [Name.token, hname]

/-- **When `{$N}` in a text is resolved to `{N}`** without a lint: up to the first closing
brace there is a declared identifier, and no reference is behind it. -/
theorem resolve_dollared_iff (s : Store) (name : Text) :
    s.resolve (Name.dollared name) = (Name.token name, s)
      ↔ ∃ front behind : Text, Name.isIdentifier front = true ∧ s.declares front = true
        ∧ name ++ ['}'] = front ++ '}' :: behind ∧ Settled behind := by
  constructor
  · intro h
    rw [resolve_eq, Prod.mk.injEq, addLints_eq_self_iff] at h
    obtain ⟨htext, hdangling⟩ := h
    cases hread : Occurrence.read? (Name.dollared name) with
    | none => exact absurd htext (s.resolved_dollared_ne hread)
    | some out =>
        obtain ⟨o, rest⟩ := out
        obtain ⟨valid, -⟩ := Occurrence.read?_dollared hread
        rw [s.dangling_of_read? hread, List.append_eq_nil_iff, missed_eq_nil_iff,
          valid.normalize_name] at hdangling
        obtain ⟨hname, hsettled⟩ := s.cut_of_resolved_dollared hread hdangling.1 htext
        exact ⟨o.name, rest, valid.isIdentifier_name, hdangling.1, hname, hsettled⟩
  · rintro ⟨front, behind, hfront, hdeclares, hname, hsettled⟩
    exact s.resolve_dollared_of_cut hfront hdeclares hname hsettled

/-- A name that is no identifier, and in which no reference stands, is left with its dollar. -/
lemma resolve_dollared_of_not_isIdentifier (s : Store) {name : Text} (trimmed : name.trim = name)
    (unclosed : '}' ∉ name) (h : ¬ ['{', '$'] <:+: name) (hname : ¬ Name.isIdentifier name = true) :
    s.resolve (Name.dollared name) = (Name.dollared name, s) := by
  have hinside : ¬ ['{', '$'] <:+: name ++ ['}'] := by
    intro hinfix
    rcases List.infix_concat_iff.mp hinfix with hsuffix | hinfix
    · -- the last characters differ
      obtain ⟨front, hfront⟩ := hsuffix
      have hlast : some '$' = some '}' := by simpa using congrArg List.getLast? hfront
      exact absurd hlast (by decide)
    · exact h hinfix
  have hsettled : Settled (name ++ ['}']) := settled_of_not_infix hinside
  have hdollared : Settled ('$' :: (name ++ ['}'])) := hsettled.cons rfl
  refine s.resolve_of_settled (hdollared.cons ?_)
  refine Option.eq_none_iff_forall_ne_some.mpr fun ⟨o, rest⟩ hread => hname ?_
  exact Occurrence.isIdentifier_of_read?_dollared trimmed unclosed hread

/-- The stores that calls come to, under any libraries. -/
inductive Reachable : Store → Prop
  | new : Reachable {}
  | call {s : Store} (h : Reachable s) (call : Call) : Reachable (s.call call).2
  | under {s : Store} (h : Reachable s) (trail : List Text) : Reachable { s with trail }

namespace Reachable

variable {s : Store}

/-- The bindings of a reachable store are those of declarations. -/
lemma records (h : s.Reachable) : ∃ calls : List Call, s.Records (declarations calls) := by
  induction h with
  | new => exact ⟨[], Records.new⟩
  | call _ call ih =>
      obtain ⟨calls, hrecords⟩ := ih
      refine ⟨calls ++ [call], ?_⟩
      rw [declarations_concat]
      exact hrecords.call call
  | under _ trail ih =>
      obtain ⟨calls, hrecords⟩ := ih
      exact ⟨calls, hrecords.of_bindings_eq rfl⟩

/-- The names of the bindings in a reachable store have no blanks around them. -/
theorem trim_name (h : s.Reachable) {b : Binding} (hb : b ∈ s.bindings) : b.name.trim = b.name := by
  obtain ⟨calls, hrecords⟩ := h.records
  have hname : b.name ∈ declaredNames (declarations calls) := by
    rw [← hrecords.names]
    exact List.mem_map_of_mem hb
  rw [declaredNames, List.mem_eraseDups, List.mem_map] at hname
  obtain ⟨⟨name, description⟩, hmem, rfl⟩ := hname
  obtain ⟨call, -, hcall⟩ := List.mem_filterMap.mp hmem
  cases call with
  | declare spelling text =>
      have hnormal : Name.normalize spelling = b.name := (Prod.mk.inj (Option.some.inj hcall)).1
      rw [← hnormal]
      exact Name.trim_normalize spelling
  | reference spelling => cases hcall
  | resolve text => cases hcall

end Reachable

/-- **When a text can refer to a declared name.** In a store that calls come to, `{$N}` for the
name of a binding is resolved to its token without a lint where the name, up to the first
closing brace behind it, is a declared identifier. In particular it is where the name itself is
an identifier. Any other name, unless it holds a reference or a closing brace of its own, is
passed over: the text stays as it is, with its dollar, and no lint is left. -/
theorem resolve_dollared {s : Store} (reachable : s.Reachable) {b : Binding} (h : b ∈ s.bindings) :
    (s.resolve (Name.dollared b.name) = (b.token, s)
        ↔ ∃ front behind : Text, Name.isIdentifier front = true ∧ s.declares front = true
          ∧ b.name ++ ['}'] = front ++ '}' :: behind ∧ Settled behind)
      ∧ (Name.isIdentifier b.name = true → s.resolve (Name.dollared b.name) = (b.token, s))
      ∧ (¬ Name.isIdentifier b.name = true → '}' ∉ b.name → ¬ ['{', '$'] <:+: b.name →
        s.resolve (Name.dollared b.name) = (Name.dollared b.name, s)) := by
  have hdeclares : s.declares b.name = true := by
    rw [declares, binding?, List.find?_isSome]
    exact ⟨b, h, beq_self_eq_true b.name⟩
  have hiff := s.resolve_dollared_iff b.name
  refine ⟨hiff, fun hname => ?_, fun hname unclosed hinside => ?_⟩
  · exact hiff.mpr ⟨b.name, [], hname, hdeclares, rfl, settled_nil⟩
  · exact s.resolve_dollared_of_not_isIdentifier (reachable.trim_name h) unclosed hinside hname

/-- A text refers to a name that is an identifier. -/
theorem resolve_dollared_task :
    let s := ({} : Store).callAll [.declare "TASK" "d"]
    let b : Binding := ⟨"TASK", "d", 0⟩
    s.Reachable ∧ b ∈ s.bindings ∧ s.resolve "\x7b$TASK\x7d" = (b.token, s) := by
  intro s b
  have reachable : s.Reachable := .call .new (.declare "TASK" "d")
  have hmem : b ∈ s.bindings := by decide
  exact ⟨reachable, hmem, (resolve_dollared reachable hmem).2.1 (by decide)⟩

/-- A name with a blank is declared, and a spelling of it with a dollar refers to it. A text
does not: what looks like a reference stays in it, and leaves no lint. -/
theorem resolve_dollared_astray :
    let s := ({} : Store).callAll [.declare "TASK ID" "d"]
    let b : Binding := ⟨"TASK ID", "d", 0⟩
    s.Reachable
      ∧ b ∈ s.bindings
      ∧ s.reference (Name.dollared b.name) = (b.token, s)
      ∧ s.resolve (Name.dollared b.name) = (Name.dollared b.name, s)
      ∧ s.resolve (Name.dollared b.name) ≠ (b.token, s) := by
  intro s b
  have hresolve : s.resolve (Name.dollared b.name) = (Name.dollared b.name, s) := by
    rw [← resolveBy_eq]
    decide
  refine ⟨.call .new (.declare "TASK ID" "d"), by decide, by decide, hresolve, ?_⟩
  rw [hresolve]
  decide

end Store

/-! ### Markers of a name -/

namespace Marker

/-- The name in a marker is not empty, and stands at the start of the inside. -/
lemma name?_eq_some {inside name : Text} (h : name? inside = some name) :
    name ≠ [] ∧ name <+: inside := by
  rw [name?] at h
  split at h
  · next c rest hdrop =>
      obtain rfl := Option.some.inj h
      rw [Text.dropEnd?] at hdrop
      split_ifs at hdrop
      refine ⟨List.cons_ne_nil c rest, ?_⟩
      rw [← Option.some.inj hdrop]
      exact List.take_prefix _ inside
  · cases h

/-- The name of a marker that is completed is legible. -/
lemma isLegible_of_close? {text name : Text} (h : close? text = some name) :
    Name.isLegible name = true := by
  rw [close?] at h
  split_ifs at h
  obtain ⟨hne, hinside⟩ := name?_eq_some h
  refine Name.isLegible_iff.mpr ⟨hne, fun c hc => ?_⟩
  exact List.mem_takeWhile_imp (hinside.subset hc)

/-- **Names that are found are legible.** -/
theorem isLegible_of_mem_find {text name : Text} (h : name ∈ find text) :
    Name.isLegible name = true := by
  induction text with
  | nil => exact absurd h List.not_mem_nil
  | cons c rest ih =>
      rw [find] at h
      split_ifs at h
      · split at h
        · next found hclose =>
            rcases List.mem_cons.mp h with rfl | h
            · exact isLegible_of_close? hclose
            · exact ih h
        · exact ih h
      · exact ih h

/-- **When a marker is found**: its name is legible. -/
theorem find_marker_eq_singleton_iff {name : Text} :
    find (Name.marker name) = [name] ↔ Name.isLegible name = true := by
  constructor
  · intro h
    exact isLegible_of_mem_find (by rw [h]; exact List.mem_singleton_self name)
  · intro h
    obtain ⟨hne, hinner⟩ := Name.isLegible_iff.mp h
    have hfind := find_marker hne hinner []
    rwa [List.append_nil, find_nil] at hfind

/-- A text that completes no marker has none in front. -/
lemma Apart.close?_eq_none {text : Text} (h : Apart text) : close? text = none := if_neg h

/-- The marker of a name without braces holds no other name. -/
lemma find_marker_eq_nil {name : Text} (unopened : '{' ∉ name) (unclosed : '}' ∉ name)
    (h : ¬ Name.isLegible name = true) : find (Name.marker name) = [] := by
  have hbraceless : '{' ∉ name ++ Name.unresolvedMark ++ ['}'] := by
    have hmark : '{' ∉ Name.unresolvedMark := by decide
    simp [unopened, hmark]
  have hclose : close? (name ++ Name.unresolvedMark ++ ['}']) = none := by
    by_cases hempty : name = []
    · rw [hempty]
      decide
    · -- a blank breaks the marker off
      obtain ⟨c, hc, hinner⟩ : ∃ c ∈ name, ¬ isInner c = true := by
        by_contra hall
        push Not at hall
        exact h (Name.isLegible_iff.mpr ⟨hempty, hall⟩)
      have hopen : c ≠ '{' := fun heq => unopened (heq ▸ hc)
      have hshut : c ≠ '}' := fun heq => unclosed (heq ▸ hc)
      have hblank : isBlank c = true := by simpa [isInner, hopen, hshut] using hinner
      obtain ⟨front, behind, rfl⟩ := List.append_of_mem hc
      have hfront : '}' ∉ front := fun hmem => unclosed (List.mem_append_left _ hmem)
      rw [List.append_assoc, List.append_assoc, List.cons_append]
      exact ((apart_of_isBlank hblank _).append hfront).close?_eq_none
  rw [Name.marker, find, if_pos rfl, hclose]
  exact find_of_braceless hbraceless

end Marker

namespace Store

/-- **When what a dangling reference yields is found.** A reference that leaves a lint yields
its token, in which the name of the lint alone is found where the name is legible, and is not
where the name is empty, holds a blank or holds a brace. Without braces in the name nothing
else is found either. -/
theorem find_reference {s : Store} {spelling : Text} {l : Lint}
    (h : (s.reference spelling).2.lints = s.lints ++ [l]) :
    (s.reference spelling).1 = l.token
      ∧ l.name = Name.normalize spelling
      ∧ (Marker.find l.token = [l.name] ↔ Name.isLegible l.name = true)
      ∧ (¬ Name.isLegible l.name = true → '{' ∉ l.name → '}' ∉ l.name →
        Marker.find l.token = []) := by
  have hmissed : (s.missed spelling).map s.lint = [l] := by
    rw [reference_snd] at h
    exact List.append_cancel_left h
  rw [missed] at hmissed
  split_ifs at hmissed with hdeclares
  · cases hmissed
  · obtain rfl := List.singleton_inj.mp hmissed
    refine ⟨?_, rfl, Marker.find_marker_eq_singleton_iff,
      fun hname unopened unclosed => Marker.find_marker_eq_nil unopened unclosed hname⟩
    rw [reference_fst, if_neg hdeclares]
    rfl

/-- The marker of an identifier is found. -/
theorem find_reference_unknown :
    let (token, later) := ({} : Store).reference "$UNKNOWN"
    later.lints = [⟨"UNKNOWN", token, []⟩] ∧ Marker.find token = ["UNKNOWN"] := by
  have hlints : (({} : Store).reference "$UNKNOWN").2.lints
      = ({} : Store).lints ++ [⟨"UNKNOWN", Name.marker "UNKNOWN", []⟩] := by decide
  obtain ⟨htoken, -, hfind, -⟩ := find_reference hlints
  exact ⟨hlints, (congrArg Marker.find htoken).trans (hfind.mpr (by decide))⟩

/-- A dangling reference to a name with a blank leaves a lint, and a marker that is not found. -/
theorem find_reference_astray :
    let (token, later) := ({} : Store).reference "TASK ID"
    later.lints = [⟨"TASK ID", token, []⟩]
      ∧ token = "\x7bTASK ID?unresolved\x7d"
      ∧ Marker.find token = []
      ∧ Marker.find token ≠ ["TASK ID"] := by
  decide

end Store

end Directives
