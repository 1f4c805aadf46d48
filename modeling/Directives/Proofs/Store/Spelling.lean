/-
The spellings of a name.

A name is spelled in braces, with at most one dollar on either side of the opening brace, or
without braces, with at most two dollars in front. There may be blanks at every joint. These
are all spellings of a name that has no blanks around it and no dollar in front, so calls
that spell one name in any of these ways come to one binding and to one token.

* `Name.Spaced`: parts in order, with blanks in front of each and behind the last.
* `Name.Spells`: the spellings of a name.
* `Name.normalize_eq_iff`: they are the spellings that stand for the name.
* `Store.AltersOnly`: what calls that spell one name leave in a store.
* `Store.callAll_spelled`: one binding with one token, in any mix of spellings.
-/
import Directives.Proofs.Store.Declared

namespace Directives

namespace Name

/-- The parts in order, with blanks in front of each and behind the last. -/
def Spaced : List Text → Text → Prop
  | [], text => ∀ c ∈ text, isBlank c = true
  | part :: rest, text => ∃ blanks behind : Text,
      (∀ c ∈ blanks, isBlank c = true) ∧ Spaced rest behind ∧ text = blanks ++ part ++ behind

/-- The spellings of a name. A name that itself stands in braces loses them unless it is
spelled in braces or with two dollars in front. -/
inductive Spells (name : Text) : Text → Prop
  | braced {outer inner : Nat} {spelling : Text} : outer ≤ 1 → inner ≤ 1 →
      Spaced (List.replicate outer ['$'] ++ ['{'] ::
        (List.replicate inner ['$'] ++ [name, ['}']])) spelling → Spells name spelling
  | bare {dollars : Nat} {spelling : Text} : dollars ≤ 2 →
      ((∃ inside, name = token inside) → dollars = 2) →
      Spaced (List.replicate dollars ['$'] ++ [name]) spelling → Spells name spelling

/-! ### Parts with blanks between -/

/-- A part alone has blanks on either side. -/
lemma spaced_singleton_iff {part text : Text} :
    Spaced [part] text ↔ ∃ before after : Text, (∀ c ∈ before, isBlank c = true)
      ∧ (∀ c ∈ after, isBlank c = true) ∧ text = before ++ part ++ after := by
  constructor
  · rintro ⟨before, after, hbefore, hafter, rfl⟩
    exact ⟨before, after, hbefore, hafter, rfl⟩
  · rintro ⟨before, after, hbefore, hafter, rfl⟩
    exact ⟨before, after, hbefore, hafter, rfl⟩

/-- A part alone is trimmed as it would be without the blanks. -/
lemma Spaced.trim_eq {part text : Text} (h : Spaced [part] text) : text.trim = part.trim := by
  obtain ⟨before, after, hbefore, hafter, rfl⟩ := spaced_singleton_iff.mp h
  exact Text.trim_append_append hbefore hafter part

/-- A text is what is left of it when it is trimmed, with blanks. -/
lemma spaced_trim (text : Text) : Spaced [text.trim] text := by
  obtain ⟨before, after, hbefore, hafter, htext⟩ := text.exists_trim
  exact spaced_singleton_iff.mpr ⟨before, after, hbefore, hafter, htext⟩

/-- More blanks may stand in front and behind. -/
lemma Spaced.widen {parts : List Text} {text before after : Text} (h : Spaced parts text)
    (hbefore : ∀ c ∈ before, isBlank c = true) (hafter : ∀ c ∈ after, isBlank c = true) :
    Spaced parts (before ++ text ++ after) := by
  induction parts generalizing before text with
  | nil =>
      intro c hc
      simp only [List.mem_append] at hc
      rcases hc with (hc | hc) | hc
      · exact hbefore c hc
      · exact h c hc
      · exact hafter c hc
  | cons part rest ih =>
      obtain ⟨blanks, behind, hblanks, hbehind, rfl⟩ := h
      refine ⟨before ++ blanks, behind ++ after, ?_, ?_, by simp only [List.append_assoc]⟩
      · exact List.forall_mem_append.mpr ⟨hbefore, hblanks⟩
      · exact ih hbehind (List.forall_mem_nil (isBlank · = true))

/-- A last part may be taken apart. -/
lemma spaced_append_iff {front back : List Text} {text : Text} :
    Spaced (front ++ back) text
      ↔ ∃ last, Spaced back last ∧ Spaced (front ++ [last]) text := by
  induction front generalizing text with
  | nil =>
      constructor
      · intro h
        exact ⟨text, h, [], [], by simp, by simp [Spaced], by simp⟩
      · rintro ⟨last, hlast, h⟩
        obtain ⟨before, after, hbefore, hafter, rfl⟩ := spaced_singleton_iff.mp h
        exact hlast.widen hbefore hafter
  | cons part rest ih =>
      constructor
      · rintro ⟨blanks, behind, hblanks, hbehind, rfl⟩
        obtain ⟨last, hlast, hrest⟩ := ih.mp hbehind
        exact ⟨last, hlast, blanks, behind, hblanks, hrest, rfl⟩
      · rintro ⟨last, hlast, blanks, behind, hblanks, hrest, rfl⟩
        exact ⟨blanks, behind, hblanks, ih.mpr ⟨last, hlast, hrest⟩, rfl⟩

/-- Blanks in front of the last part go with the parts before it. -/
lemma spaced_concat_iff {parts : List Text} {part text : Text} :
    Spaced (parts ++ [part]) text ↔ ∃ front after : Text, Spaced parts front
      ∧ (∀ c ∈ after, isBlank c = true) ∧ text = front ++ part ++ after := by
  induction parts generalizing text with
  | nil => exact spaced_singleton_iff
  | cons first rest ih =>
      constructor
      · rintro ⟨blanks, behind, hblanks, hbehind, rfl⟩
        obtain ⟨front, after, hfront, hafter, rfl⟩ := ih.mp hbehind
        exact ⟨blanks ++ first ++ front, after, ⟨blanks, front, hblanks, hfront, rfl⟩, hafter,
          by simp only [List.append_assoc]⟩
      · rintro ⟨_, after, ⟨blanks, front, hblanks, hfront, rfl⟩, hafter, rfl⟩
        exact ⟨blanks, front ++ part ++ after, hblanks, ih.mpr ⟨front, after, hfront, hafter, rfl⟩,
          by simp only [List.append_assoc]⟩

/-- Parts in braces are one part, with blanks inside. -/
lemma spaced_braces_iff {parts : List Text} {text : Text} :
    Spaced (['{'] :: (parts ++ [['}']])) text
      ↔ ∃ inside, Spaced parts inside ∧ Spaced [token inside] text := by
  constructor
  · rintro ⟨blanks, behind, hblanks, hbehind, rfl⟩
    obtain ⟨inside, after, hinside, hafter, rfl⟩ := spaced_concat_iff.mp hbehind
    refine ⟨inside, hinside, spaced_singleton_iff.mpr ⟨blanks, after, hblanks, hafter, ?_⟩⟩
    simp [token]
  · rintro ⟨inside, hinside, h⟩
    obtain ⟨blanks, after, hblanks, hafter, rfl⟩ := spaced_singleton_iff.mp h
    refine ⟨blanks, inside ++ ['}'] ++ after, hblanks, ?_, by simp [token]⟩
    exact spaced_concat_iff.mpr ⟨inside, after, hinside, hafter, rfl⟩

/-! ### What is taken off from a spelling -/

/-- Blanks around a text have no bearing on what is taken off. -/
lemma stripDollar_trim (raw : Text) : stripDollar raw.trim = stripDollar raw := by
  rw [stripDollar, Text.trim_trim, stripDollar]

lemma stripDollar_of_plain {raw : Text} (h : raw.trim.head? ≠ some '$') :
    stripDollar raw = raw.trim := by
  rw [← stripDollar_trim, stripDollar_eq_self (Text.trim_trim raw) h]

/-- A dollar that has only blanks in front stays in front. -/
lemma trim_dollar {blanks : Text} (hblanks : ∀ c ∈ blanks, isBlank c = true) (behind : Text) :
    (blanks ++ ['$'] ++ behind).trim = '$' :: behind.trimEnd := by
  have h := Text.trim_append_append hblanks (List.forall_mem_nil (isBlank · = true)) ('$' :: behind)
  rw [List.append_nil, Text.trim_cons (by decide)] at h
  rw [List.append_assoc]
  exact h

/-- A dollar is taken off, with all blanks. -/
lemma stripDollar_of_dollar {blanks : Text} (hblanks : ∀ c ∈ blanks, isBlank c = true)
    (behind : Text) : stripDollar (blanks ++ ['$'] ++ behind) = behind.trim := by
  rw [stripDollar, trim_dollar hblanks]
  exact Text.trim_trimEnd behind

/-- What is left of a text with at most one dollar in front is the text. -/
lemma stripDollar_spaced {text raw : Text} (trimmed : text.trim = text)
    (plain : text.head? ≠ some '$') {dollars : Nat} (hdollars : dollars ≤ 1)
    (h : Spaced (List.replicate dollars ['$'] ++ [text]) raw) : stripDollar raw = text := by
  rcases Nat.le_one_iff_eq_zero_or_eq_one.mp hdollars with rfl | rfl
  · have htrim : raw.trim = text := h.trim_eq.trans trimmed
    rw [stripDollar_of_plain (htrim ▸ plain), htrim]
  · obtain ⟨blanks, behind, hblanks, hbehind, rfl⟩ := h
    rw [stripDollar_of_dollar hblanks, hbehind.trim_eq, trimmed]

/-- A text is what is left of it, with blanks and perhaps a dollar in front. -/
lemma spaced_stripDollar (raw : Text) :
    (raw.trim.head? ≠ some '$' ∧ Spaced [stripDollar raw] raw)
      ∨ Spaced [['$'], stripDollar raw] raw := by
  by_cases hdollar : raw.trim.head? = some '$'
  · right
    obtain ⟨rest, hrest⟩ := List.head?_eq_some_iff.mp hdollar
    have hstrip : stripDollar raw = Text.trim rest := by
      rw [stripDollar, hrest]
      rfl
    have hdollared : Spaced [['$'], Text.trim rest] raw.trim := by
      rw [hrest]
      exact ⟨[], rest, by simp, spaced_trim rest, rfl⟩
    rw [hstrip]
    show Spaced ([] ++ [['$'], Text.trim rest]) raw
    exact spaced_append_iff.mpr ⟨raw.trim, hdollared, spaced_trim raw⟩
  · left
    refine ⟨hdollar, ?_⟩
    rw [stripDollar_of_plain hdollar]
    exact spaced_trim raw

lemma exists_spaced_stripDollar (raw : Text) :
    ∃ dollars ≤ 1, Spaced (List.replicate dollars ['$'] ++ [stripDollar raw]) raw := by
  rcases spaced_stripDollar raw with ⟨-, h⟩ | h
  · exact ⟨0, by decide, h⟩
  · exact ⟨1, le_rfl, h⟩

/-- Where no braces enclose a text, none are taken off. -/
lemma stripBraces_eq_self {text : Text} (h : ¬ ∃ inside, text = token inside) :
    stripBraces text = text := by
  unfold stripBraces
  split
  · next rest =>
    rw [if_neg]
    intro hlast
    obtain ⟨inside, rfl⟩ := List.getLast?_eq_some_iff.mp hlast
    exact h ⟨inside, rfl⟩
  · rfl

/-! ### Spellings -/

/-- **A spelling of a name stands for it.** -/
theorem Spells.normalize_eq {name spelling : Text} (h : Spells name spelling)
    (trimmed : name.trim = name) (plain : name.head? ≠ some '$') : normalize spelling = name := by
  cases h with
  | @braced outer inner _ houter hinner hspaced =>
      rw [show List.replicate inner ['$'] ++ [name, ['}']]
        = List.replicate inner ['$'] ++ [name] ++ [['}']] by simp] at hspaced
      obtain ⟨last, hlast, hspaced⟩ := spaced_append_iff.mp hspaced
      obtain ⟨inside, hinside, htoken⟩ := spaced_braces_iff.mp hlast
      have houtside : stripDollar spelling = token inside :=
        stripDollar_spaced (trim_token inside) (by simp [token]) houter
          (spaced_append_iff.mpr ⟨last, htoken, hspaced⟩)
      rw [normalize, houtside, stripBraces_token]
      exact stripDollar_spaced trimmed plain hinner hinside
  | @bare dollars _ hdollars hbraces hspaced =>
      rcases Nat.le_succ_iff.mp hdollars with hone | rfl
      · have hbare : ¬ ∃ inside, name = token inside := fun h => by
          have := hbraces h
          omega
        rw [normalize, stripDollar_spaced trimmed plain hone hspaced, stripBraces_eq_self hbare,
          stripDollar_eq_self trimmed plain]
      · -- the first dollar is taken off before the braces, the second behind them
        obtain ⟨blanks, behind, hblanks, hbehind, rfl⟩ := hspaced
        have hsecond : stripBraces behind.trim = behind.trim := by
          obtain ⟨more, rest, hmore, -, rfl⟩ := hbehind
          rw [trim_dollar hmore]
          rfl
        rw [normalize, stripDollar_of_dollar hblanks, hsecond, stripDollar_trim]
        have hone : Spaced (List.replicate 1 ['$'] ++ [name]) behind := hbehind
        exact stripDollar_spaced trimmed plain le_rfl hone

/-- **Every text is a spelling** of the name it stands for. -/
theorem spells_normalize (spelling : Text) : Spells (normalize spelling) spelling := by
  by_cases hbraces : ∃ inside, stripDollar spelling = token inside
  · obtain ⟨inside, hinside⟩ := hbraces
    obtain ⟨outer, houter, houtside⟩ := exists_spaced_stripDollar spelling
    obtain ⟨inner, hinner, hspaced⟩ := exists_spaced_stripDollar inside
    have hname : normalize spelling = stripDollar inside := by
      rw [normalize, hinside, stripBraces_token]
    rw [hname]
    refine .braced houter hinner ?_
    rw [hinside] at houtside
    obtain ⟨last, htoken, houtside⟩ := spaced_append_iff.mp houtside
    have hbraced := spaced_braces_iff.mpr ⟨inside, hspaced, htoken⟩
    rw [List.append_assoc] at hbraced
    exact spaced_append_iff.mpr ⟨last, hbraced, houtside⟩
  · have hname : normalize spelling = stripDollar (stripDollar spelling) := by
      rw [normalize, stripBraces_eq_self hbraces]
    rw [hname]
    rcases spaced_stripDollar (stripDollar spelling) with ⟨hplain, -⟩ | hsecond
    · -- there is no second dollar
      have hself : stripDollar (stripDollar spelling) = stripDollar spelling := by
        rw [stripDollar_of_plain hplain, trim_stripDollar]
      rw [hself]
      obtain ⟨dollars, hdollars, hspaced⟩ := exists_spaced_stripDollar spelling
      exact .bare (hdollars.trans (by decide)) (fun h => absurd h hbraces) hspaced
    · rcases spaced_stripDollar spelling with ⟨hplain, hfirst⟩ | hfirst
      · -- a dollar that is there is taken off the first time
        obtain ⟨blanks, behind, hblanks, -, hdollar⟩ := hsecond
        rw [← stripDollar_of_plain hplain, ← trim_stripDollar, hdollar, trim_dollar hblanks]
          at hplain
        exact absurd rfl hplain
      · refine .bare le_rfl (fun _ => rfl) ?_
        show Spaced ([['$']] ++ [['$'], stripDollar (stripDollar spelling)]) spelling
        exact spaced_append_iff.mpr ⟨stripDollar spelling, hsecond, hfirst⟩

/-- **The spellings of a name** that has no blanks around it and no dollar in front are the
texts that stand for it. -/
theorem normalize_eq_iff {name spelling : Text} (trimmed : name.trim = name)
    (plain : name.head? ≠ some '$') : normalize spelling = name ↔ Spells name spelling :=
  ⟨fun h => h ▸ spells_normalize spelling, fun h => h.normalize_eq trimmed plain⟩

end Name

namespace Store

/-! ### Calls that spell one name -/

/-- The call declares the name or refers to it, in some spelling. -/
def Call.Spells (name : Text) : Call → Prop
  | .declare spelling _ => Name.Spells name spelling
  | .reference spelling => Name.Spells name spelling
  | .resolve _ => False

/-- The bindings of the later store are those of the store, that of the name apart: it may be
another, or new. -/
structure AltersOnly (name : Text) (s later : Store) : Prop where
  others : ∀ other, other ≠ name → later.binding? other = s.binding? other
  size : later.bindings.length + (if s.declares name then 1 else 0)
    = s.bindings.length + (if later.declares name then 1 else 0)

namespace AltersOnly

variable {name : Text} {s later final : Store}

lemma refl (name : Text) (s : Store) : AltersOnly name s s := ⟨fun _ _ => rfl, rfl⟩

lemma trans (h : AltersOnly name s later) (h' : AltersOnly name later final) :
    AltersOnly name s final := by
  refine ⟨fun other hother => (h'.others other hother).trans (h.others other hother), ?_⟩
  have hsize := h.size
  have hsize' := h'.size
  omega

/-- A store keeps its names when one binding is altered, and gets one more at most. -/
lemma length_le (h : AltersOnly name s later) (kept : s.declares name = true →
    later.declares name = true) : s.bindings.length ≤ later.bindings.length
      ∧ later.bindings.length ≤ s.bindings.length + 1 := by
  have hsize := h.size
  split_ifs at hsize with hs hlater hlater
  · omega
  · exact absurd (kept hs) hlater
  · omega
  · omega

end AltersOnly

section Spelled

variable {name : Text} (trimmed : name.trim = name) (plain : name.head? ≠ some '$')
include trimmed plain

/-- **One call** that spells the name alters its binding only, and the name is declared after
it if it was before, or if the call declares it. -/
theorem altersOnly_call (s : Store) {call : Call} (h : call.Spells name) :
    AltersOnly name s (s.call call).2
      ∧ ((s.call call).2.declares name = true
        ↔ s.declares name = true ∨ call.declared?.isSome = true) := by
  cases call with
  | declare spelling description =>
      have hname := h.normalize_eq trimmed plain
      have hdeclares : (s.declare spelling description).2.declares name = true := by
        rw [declares_declare, hname, beq_self_eq_true, Bool.or_true]
      refine ⟨⟨fun other hother => ?_, ?_⟩, iff_of_true hdeclares (.inr rfl)⟩
      · rw [call, binding?_declare, hname, if_neg hother.symm]
      · rw [call, length_declare, hname, hdeclares, if_pos rfl]
        split_ifs
        · rfl
        · rfl
  | reference spelling =>
      rw [call, reference_snd]
      exact ⟨⟨fun _ _ => rfl, rfl⟩, by simp [Call.declared?, addLints, declares, binding?]⟩
  | resolve text => exact h.elim

/-- Calls that spell the name, one after another. -/
theorem altersOnly_callAll (s : Store) {calls : List Call} (h : ∀ call ∈ calls, call.Spells name) :
    AltersOnly name s (s.callAll calls)
      ∧ ((s.callAll calls).declares name = true
        ↔ s.declares name = true ∨ ∃ call ∈ calls, call.declared?.isSome = true) := by
  induction calls generalizing s with
  | nil => exact ⟨.refl name s, by simp [callAll]⟩
  | cons call rest ih =>
      obtain ⟨hcall, hrest⟩ := List.forall_mem_cons.mp h
      obtain ⟨halters, hdeclares⟩ := altersOnly_call trimmed plain s hcall
      obtain ⟨hbehind, hfinal⟩ := ih (s.call call).2 hrest
      refine ⟨halters.trans hbehind, hfinal.trans ?_⟩
      rw [hdeclares, List.exists_mem_cons_iff, or_assoc]

/-- **Any mix of spellings comes to one binding with one token.** Let a name have no blanks
around it and no dollar in front. The texts that stand for it are its spellings. After
declarations and references in any of these, in any order, each spelling looks up the same
binding, each declaration yields the token of the name, and each reference too, once the name
is declared. It is declared if it was before or one of the calls declares it. All other names
have the bindings they had, and there is one binding more at most. -/
theorem callAll_spelled (s : Store) {calls : List Call} (h : ∀ call ∈ calls, call.Spells name) :
    let later := s.callAll calls
    (∀ spelling, Name.normalize spelling = name ↔ Name.Spells name spelling)
      ∧ (∀ spelling, Name.Spells name spelling →
        later.get? spelling = later.binding? name
          ∧ (∀ description, (later.declare spelling description).1 = Name.token name)
          ∧ later.reference spelling = if later.declares name then (Name.token name, later)
            else (Name.marker name, later.addLints [name]))
      ∧ (later.declares name = true
        ↔ s.declares name = true ∨ ∃ call ∈ calls, call.declared?.isSome = true)
      ∧ (∀ other, other ≠ name → later.binding? other = s.binding? other)
      ∧ s.bindings.length ≤ later.bindings.length
      ∧ later.bindings.length ≤ s.bindings.length + 1 := by
  intro later
  obtain ⟨halters, hdeclares⟩ := altersOnly_callAll trimmed plain s h
  refine ⟨fun spelling => Name.normalize_eq_iff trimmed plain, fun spelling hspelling => ?_,
    hdeclares, halters.others, halters.length_le fun hs => hdeclares.mpr (.inl hs)⟩
  have hname := hspelling.normalize_eq trimmed plain
  refine ⟨?_, fun description => ?_, ?_⟩
  · rw [get?, hname]
  · rw [declare, hname]
  · rw [reference, hname]
    rfl

end Spelled

/-- Two declarations and a reference, each in a spelling of its own, come to one binding. -/
theorem callAll_spelled_task :
    let name : Text := "TASK"
    let calls : List Call := [.declare " $ \x7b $ TASK \x7d " "first", .reference "$ $TASK",
      .declare "\x7bTASK \x7d" "second"]
    let later := ({} : Store).callAll calls
    name.trim = name
      ∧ name.head? ≠ some '$'
      ∧ (∀ call ∈ calls, call.Spells name)
      ∧ Name.Spells name "$\x7bTASK\x7d"
      ∧ later.get? "$\x7bTASK\x7d" = some ⟨name, "second", 0⟩
      ∧ later.reference "$\x7bTASK\x7d" = (Name.token name, later)
      ∧ later.bindings.length ≤ 1 := by
  intro name calls later
  have trimmed : name.trim = name := by decide
  have plain : name.head? ≠ some '$' := by decide
  have hspells : ∀ spelling : Text, Name.normalize spelling = name → Name.Spells name spelling :=
    fun _ => (Name.normalize_eq_iff trimmed plain).mp
  have hcalls : ∀ call ∈ calls, call.Spells name := by
    simp only [calls, List.forall_mem_cons, List.not_mem_nil, false_implies, implies_true, and_true]
    exact ⟨hspells _ (by decide), hspells _ (by decide), hspells _ (by decide)⟩
  have hspelling := hspells "$\x7bTASK\x7d" (by decide)
  obtain ⟨-, hone, hdeclares, -, -, hsize⟩ := callAll_spelled trimmed plain {} hcalls
  obtain ⟨hget, -, hreference⟩ := hone _ hspelling
  have hdeclared : later.declares name = true :=
    hdeclares.mpr (.inr ⟨_, List.mem_cons_self, rfl⟩)
  refine ⟨trimmed, plain, hcalls, hspelling, hget.trans (by decide), ?_, hsize⟩
  rw [hreference]
  exact if_pos hdeclared

end Store

end Directives
