/-
The bindings that calls leave in a store.

Only declarations change the bindings of a store. What they leave is read off the calls:
one binding for each name, in the order in which the names were first declared, with the
number of names before it as its ordinal, and with the description that was given last.

* `Store.binding?_declare`: what a declaration changes.
* `Store.declares_callAll`: declared names stay declared.
* `Store.reference_token_iff`: when a token refers back to its own binding.
* `Store.declarations`: the names that calls declare, with their descriptions.
* `Store.declaredNames`, `Store.lastDescription?`: what they come to.
* `Store.Records`: the bindings of a store are those of declarations.
* `Store.Records.declare`, `Store.Records.callAll`: one declaration, and any calls.
-/
import Mathlib.Data.List.Dedup
import Directives.Proofs.Store.Resolve
import Directives.Store.Program

namespace Directives.Store

/-! ### One declaration -/

/-- A binding is found under its own name. -/
lemma binding?_eq_some {s : Store} {name : Text} {b : Binding} (h : s.binding? name = some b) :
    b.name = name ∧ b ∈ s.bindings := by
  rw [binding?] at h
  have hname := List.find?_some h
  exact ⟨eq_of_beq hname, List.mem_of_find?_eq_some h⟩

/-- Where no two bindings have one name, each is found. -/
lemma binding?_of_mem {s : Store} (once : (s.bindings.map Binding.name).Nodup) {b : Binding}
    (h : b ∈ s.bindings) : s.binding? b.name = some b := by
  obtain ⟨found, hfound⟩ : ∃ found, s.binding? b.name = some found := by
    rw [← Option.isSome_iff_exists, binding?, List.find?_isSome]
    exact ⟨b, h, beq_self_eq_true _⟩
  obtain ⟨hname, hmem⟩ := binding?_eq_some hfound
  rw [hfound, List.inj_on_of_nodup_map once hmem h hname]

/-- A name that is declared takes the new description. -/
lemma bindings_declare_of_declares {s : Store} {spelling : Text}
    (h : s.declares (Name.normalize spelling) = true) (description : Text) :
    (s.declare spelling description).2.bindings
      = s.bindings.map fun b =>
          if b.name = Name.normalize spelling then { b with description } else b :=
  if_pos h

/-- A name that is not declared gets a binding behind all others. -/
lemma bindings_declare_of_not_declares {s : Store} {spelling : Text}
    (h : ¬ s.declares (Name.normalize spelling) = true) (description : Text) :
    (s.declare spelling description).2.bindings
      = s.bindings ++ [⟨Name.normalize spelling, description, s.bindings.length⟩] :=
  if_neg h

/-- **What a declaration changes**: its name gets a binding or its binding the description,
and all other names keep theirs. -/
theorem binding?_declare (s : Store) (spelling description other : Text) :
    (s.declare spelling description).2.binding? other
      = if Name.normalize spelling = other then
          match s.binding? (Name.normalize spelling) with
          | some b => some { b with description }
          | none => some ⟨Name.normalize spelling, description, s.bindings.length⟩
        else
          s.binding? other := by
  cases hb : s.binding? (Name.normalize spelling) with
  | some b =>
      have hdeclares : s.declares (Name.normalize spelling) = true := Option.isSome_of_eq_some hb
      have hkeeps : ((fun b : Binding => b.name == other) ∘ fun b =>
            if b.name = Name.normalize spelling then { b with description } else b)
          = fun b => b.name == other := by
        funext b
        rw [Function.comp_apply]
        split_ifs <;> rfl
      rw [binding?, bindings_declare_of_declares hdeclares, List.find?_map, hkeeps]
      show (s.binding? other).map _ = _
      split_ifs with hother
      · rw [← hother, hb, Option.map_some, if_pos (binding?_eq_some hb).1]
      · cases hfound : s.binding? other with
        | none => rfl
        | some found =>
            have hne : found.name ≠ Name.normalize spelling := fun heq =>
              hother (heq.symm.trans (binding?_eq_some hfound).1)
            rw [Option.map_some, if_neg hne]
  | none =>
      have hdeclares : ¬ s.declares (Name.normalize spelling) = true := by simp [declares, hb]
      rw [binding?, bindings_declare_of_not_declares hdeclares, List.find?_append,
        List.find?_singleton]
      show (s.binding? other).or _ = _
      split_ifs with hname hother hother
      · rw [← hother, hb, Option.none_or]
      · exact absurd (eq_of_beq hname) hother
      · exact absurd (beq_iff_eq.mpr hother) hname
      · exact Option.or_none

/-- A declaration adds a binding unless the name has one. -/
lemma length_declare (s : Store) (spelling description : Text) :
    (s.declare spelling description).2.bindings.length
      = if s.declares (Name.normalize spelling) then s.bindings.length
        else s.bindings.length + 1 := by
  split_ifs with h
  · rw [bindings_declare_of_declares h, List.length_map]
  · rw [bindings_declare_of_not_declares h, List.length_append, List.length_singleton]

/-! ### Declared names stay declared -/

/-- A declaration declares its name, and takes no other back. -/
lemma declares_declare (s : Store) (spelling description other : Text) :
    (s.declare spelling description).2.declares other
      = (s.declares other || Name.normalize spelling == other) := by
  rw [declares, binding?_declare, declares]
  split_ifs with hother
  · rw [beq_iff_eq.mpr hother, Bool.or_true]
    cases s.binding? (Name.normalize spelling) <;> rfl
  · rw [beq_eq_false_iff_ne.mpr hother, Bool.or_false]

lemma declares_call {s : Store} {name : Text} (h : s.declares name = true) (call : Call) :
    (s.call call).2.declares name = true := by
  cases call with
  | declare spelling description => rw [Store.call, declares_declare, h, Bool.true_or]
  | reference spelling =>
      rw [Store.call, reference_snd]
      exact h
  | resolve text =>
      rw [Store.call, resolve_eq]
      exact h

/-- **A declared name** is declared after any calls. -/
theorem declares_callAll {s : Store} {name : Text} (h : s.declares name = true)
    (calls : List Call) : (s.callAll calls).declares name = true := by
  induction calls generalizing s with
  | nil => exact h
  | cons call rest ih => exact ih (declares_call h call)

/-! ### Tokens of declared names -/

/-- What a reference yields has the dollars of the name it refers to. -/
lemma count_reference (s : Store) (spelling : Text) :
    (s.reference spelling).1.count '$' = (Name.normalize spelling).count '$' := by
  rw [reference_fst]
  split_ifs
  · exact Name.count_token _
  · exact Name.count_marker _

/-- **When a token refers back to its own binding**: after a declaration and any calls, a
reference to the token that was handed out yields the token and leaves no lint, unless the
name has a dollar in front. What the token refers to is the name without that dollar. -/
theorem reference_token_iff (s : Store) (spelling description : Text) (calls : List Call) :
    let (token, declared) := s.declare spelling description
    let later := declared.callAll calls
    Name.normalize token = Name.stripDollar (Name.normalize spelling)
      ∧ (later.reference token = (token, later)
          ↔ (Name.normalize spelling).head? ≠ some '$') := by
  have trimmed := Name.trim_normalize spelling
  set name := Name.normalize spelling with hname
  set later := (s.declare spelling description).2.callAll calls
  refine ⟨Name.normalize_token name, ?_⟩
  show later.reference (Name.token name) = (Name.token name, later) ↔ _
  constructor
  · -- what is yielded else has a dollar less than the token
    intro h hdollar
    have hcount := later.count_reference (Name.token name)
    rw [h, Name.count_token, Name.normalize_token] at hcount
    exact (Name.count_stripDollar_lt trimmed hdollar).ne' hcount
  · intro hdollar
    have hnormal : Name.normalize (Name.token name) = name := by
      rw [Name.normalize_token, Name.stripDollar_eq_self trimmed hdollar]
    have hdeclared : later.declares name = true := by
      refine declares_callAll ?_ calls
      rw [declares_declare, ← hname, beq_self_eq_true, Bool.or_true]
    rw [reference, hnormal]
    exact if_pos hdeclared

/-- The token of a name with a dollar in front refers to another name, which need not be
declared: the token comes back as a marker, with a lint. -/
theorem reference_token_astray :
    let (token, declared) := ({} : Store).declare "\x7b$$A\x7d" "d"
    token = "\x7b$A\x7d"
      ∧ declared.reference token ≠ (token, declared)
      ∧ declared.reference token
          = (Name.marker "A", { declared with lints := [⟨"A", Name.marker "A", []⟩] }) := by
  decide

/-! ### Declarations -/

/-- The name that a call declares, with its description. -/
def Call.declared? : Call → Option (Text × Text)
  | .declare spelling description => some (Name.normalize spelling, description)
  | .reference _ => none
  | .resolve _ => none

/-- The names that calls declare, with their descriptions, in order. -/
def declarations (calls : List Call) : List (Text × Text) := calls.filterMap Call.declared?

lemma declarations_concat (calls : List Call) (last : Call) :
    declarations (calls ++ [last]) = declarations calls ++ last.declared?.toList := by
  rw [declarations, List.filterMap_append, declarations]
  cases h : last.declared? <;> simp [h]

lemma callAll_concat (s : Store) (calls : List Call) (last : Call) :
    s.callAll (calls ++ [last]) = ((s.callAll calls).call last).2 := by
  rw [callAll, List.foldl_concat, callAll]

/-- The names that were declared, each once, in the order of their first declarations. -/
def declaredNames (declared : List (Text × Text)) : List Text :=
  (declared.map Prod.fst).eraseDups

/-- The description that a name was declared with last. -/
def lastDescription? (declared : List (Text × Text)) (name : Text) : Option Text :=
  declared.reverse.lookup name

lemma declaredNames_concat (declared : List (Text × Text)) (name description : Text) :
    declaredNames (declared ++ [(name, description)])
      = if name ∈ declaredNames declared then declaredNames declared
        else declaredNames declared ++ [name] := by
  simp only [declaredNames, List.map_append, List.map_singleton, List.eraseDups_append,
    List.mem_eraseDups, List.removeAll]
  split_ifs with h
  · simp [h]
  · simp [h, List.eraseDups_cons]

lemma nodup_declaredNames (declared : List (Text × Text)) : (declaredNames declared).Nodup := by
  induction declared using List.reverseRecOn with
  | nil => exact List.nodup_nil
  | append_singleton earlier last ih =>
      rw [declaredNames_concat]
      split_ifs with h
      · exact ih
      · rw [← List.concat_eq_append]
        exact ih.concat h

lemma lastDescription?_concat (declared : List (Text × Text)) (name description other : Text) :
    lastDescription? (declared ++ [(name, description)]) other
      = if other = name then some description else lastDescription? declared other := by
  rw [lastDescription?, List.reverse_append, List.reverse_singleton, List.singleton_append,
    List.lookup_cons, lastDescription?]
  split_ifs with h
  · rw [beq_iff_eq.mpr h]
  · rw [beq_eq_false_iff_ne.mpr h]

/-! ### The bindings of declarations -/

/-- The bindings of the store are those that declarations leave. -/
structure Records (s : Store) (declared : List (Text × Text)) : Prop where
  names : s.bindings.map Binding.name = declaredNames declared
  ordinals : s.bindings.map Binding.declaredAt = List.range s.bindings.length
  descriptions : ∀ b ∈ s.bindings, lastDescription? declared b.name = some b.description

namespace Records

variable {s : Store} {declared : List (Text × Text)}

lemma new : Records {} [] := ⟨rfl, rfl, by simp⟩

/-- The declared names are those of the bindings. -/
lemma declares_iff (h : s.Records declared) {name : Text} :
    s.declares name = true ↔ name ∈ declaredNames declared := by
  rw [← h.names, Store.declares, binding?, List.find?_isSome, List.mem_map]
  simp only [beq_iff_eq]

/-- **One declaration** renews the description of its name, or adds a binding behind all
others. -/
theorem declare (h : s.Records declared) (spelling description : Text) :
    (s.declare spelling description).2.Records
      (declared ++ [(Name.normalize spelling, description)]) := by
  by_cases hname : s.declares (Name.normalize spelling) = true
  · -- the binding that is there takes the description
    have hbindings := bindings_declare_of_declares hname description
    refine ⟨?_, ?_, ?_⟩
    · rw [hbindings, List.map_map, declaredNames_concat, if_pos (h.declares_iff.mp hname),
        ← h.names]
      refine List.map_congr_left fun b _ => ?_
      rw [Function.comp_apply]
      split_ifs <;> rfl
    · rw [hbindings, List.map_map, List.length_map, ← h.ordinals]
      refine List.map_congr_left fun b _ => ?_
      rw [Function.comp_apply]
      split_ifs <;> rfl
    · rw [hbindings, List.forall_mem_map]
      intro b hb
      rw [lastDescription?_concat]
      split_ifs
      · rfl
      · exact h.descriptions b hb
  · -- a new binding behind all others
    have hbindings := bindings_declare_of_not_declares hname description
    have hnew : Name.normalize spelling ∉ declaredNames declared :=
      fun hmem => hname (h.declares_iff.mpr hmem)
    refine ⟨?_, ?_, ?_⟩
    · rw [hbindings, List.map_append, declaredNames_concat, if_neg hnew, h.names,
        List.map_singleton]
    · rw [hbindings, List.map_append, List.length_append, List.length_singleton,
        List.range_succ, h.ordinals, List.map_singleton]
    · rw [hbindings, List.forall_mem_append, List.forall_mem_singleton]
      refine ⟨fun b hb => ?_, ?_⟩
      · have hne : b.name ≠ Name.normalize spelling := fun heq =>
          hnew (heq ▸ h.names ▸ List.mem_map_of_mem hb)
        rw [lastDescription?_concat, if_neg hne]
        exact h.descriptions b hb
      · rw [lastDescription?_concat, if_pos rfl]

/-- References and texts leave the bindings as they are. -/
lemma of_bindings_eq (h : s.Records declared) {later : Store}
    (hbindings : later.bindings = s.bindings) : later.Records declared := by
  refine ⟨?_, ?_, ?_⟩
  · rw [hbindings, h.names]
  · rw [hbindings, h.ordinals]
  · rw [hbindings]
    exact h.descriptions

lemma call (h : s.Records declared) (call : Call) :
    (s.call call).2.Records (declared ++ call.declared?.toList) := by
  cases call with
  | declare spelling description => exact h.declare spelling description
  | reference spelling =>
      rw [Store.call, Call.declared?, Option.toList_none, List.append_nil, reference_snd]
      exact h.of_bindings_eq rfl
  | resolve text =>
      rw [Store.call, Call.declared?, Option.toList_none, List.append_nil, resolve_eq]
      exact h.of_bindings_eq rfl

/-- **After any calls** on an empty store its bindings are those of the declarations among
the calls. -/
theorem callAll (calls : List Call) :
    (({} : Store).callAll calls).Records (declarations calls) := by
  induction calls using List.reverseRecOn with
  | nil => exact new
  | append_singleton earlier last ih =>
      rw [callAll_concat, declarations_concat]
      exact ih.call last

end Records

end Directives.Store
