/-
A hash table in place of the list of bindings.

A table mirrors a store when it leads from each name to the binding that a walk over the
list comes to, and holds no more than these. Every call keeps it so and has the same answer
on both. The order in which a table holds its bindings is lost, and the ordinals give it
back: they are the numbers below the size of the table, one for each binding.

* `Store.Table.Mirrors`: the table has the contents of the store.
* `Mirrors.call`, `Mirrors.callAll`: calls on both.
* `Mirrors.perm_listed`: the table holds the bindings of the store, each once.
* `Store.Records.byOrdinal_eq`: the ordinals give the order of the list.
* `Store.Table.callAll_spec`: what any calls leave in a table.
-/
import Mathlib.Data.List.Nodup
import Directives.Proofs.Store.Declared
import Directives.Proofs.Store.Search
import Directives.Store.Table

namespace Directives.Store

/-! ### References on both -/

/-- Walks over matches go alike where references do. -/
lemma writeMatches_alike {σ τ : Type} {first : σ → Text → Text × σ}
    {second : τ → Text → Text × τ} {Alike : σ → τ → Prop}
    (h : ∀ s t name, Alike s t →
      (first s name).1 = (second t name).1 ∧ Alike (first s name).2 (second t name).2)
    (text : Text) (found : List Pattern.Match) (last : Nat) {s : σ} {t : τ} (alike : Alike s t) :
    (writeMatches first text last s found).1 = (writeMatches second text last t found).1
      ∧ Alike (writeMatches first text last s found).2
          (writeMatches second text last t found).2 := by
  induction found generalizing last s t with
  | nil => exact ⟨rfl, alike⟩
  | cons m rest ih =>
      obtain ⟨htoken, hafter⟩ := h s t (Occurrence.matchedName m) alike
      obtain ⟨hbehind, hrest⟩ := ih m.stop hafter
      refine ⟨?_, hrest⟩
      simp only [writeMatches, htoken, hbehind]

/-- A walk over matches keeps what references keep. -/
lemma writeMatches_keeps {σ : Type} {reference : σ → Text → Text × σ} (Kept : σ → Prop)
    (h : ∀ s name, Kept s → Kept (reference s name).2) (text : Text)
    (found : List Pattern.Match) (last : Nat) {s : σ} (kept : Kept s) :
    Kept (writeMatches reference text last s found).2 := by
  induction found generalizing last s with
  | nil => exact kept
  | cons m rest ih => exact ih m.stop (h s (Occurrence.matchedName m) kept)

namespace Table

variable [Hashable Text]

/-- The table leads to the bindings of the store and to no others, and has its dangling
references. -/
structure Mirrors (t : Table) (s : Store) : Prop where
  entries : ∀ name, t.entries[name]? = s.binding? name
  size : t.entries.size = s.bindings.length
  lints : t.lints = s.lints
  trail : t.trail = s.trail

namespace Mirrors

variable {t : Table} {s : Store}

lemma new : Mirrors {} {} := ⟨fun _ => Std.HashMap.getElem?_empty, rfl, rfl, rfl⟩

lemma reference (h : t.Mirrors s) (spelling : Text) :
    (t.reference spelling).1 = (s.reference spelling).1
      ∧ (t.reference spelling).2.Mirrors (s.reference spelling).2 := by
  rw [Table.reference, Store.reference, declares, h.entries]
  cases hb : s.binding? (Name.normalize spelling) with
  | some b => exact ⟨congrArg Name.token (binding?_eq_some hb).1, h⟩
  | none =>
      refine ⟨rfl, h.entries, h.size, ?_, h.trail⟩
      show t.lints ++ [⟨_, _, t.trail⟩] = s.lints ++ [⟨_, _, s.trail⟩]
      rw [h.lints, h.trail]

lemma declare (h : t.Mirrors s) (spelling description : Text) :
    (t.declare spelling description).1 = (s.declare spelling description).1
      ∧ (t.declare spelling description).2.Mirrors (s.declare spelling description).2 := by
  refine ⟨?_, fun other => ?_, ?_, h.lints, h.trail⟩
  · rw [Table.declare, h.entries]
    cases hb : s.binding? (Name.normalize spelling) with
    | some b => exact congrArg Name.token (binding?_eq_some hb).1
    | none => rfl
  · rw [binding?_declare, Table.declare, Std.HashMap.getElem?_insert, h.entries, h.entries, h.size]
    simp only [beq_iff_eq]
    cases s.binding? (Name.normalize spelling) <;> rfl
  · rw [length_declare, Table.declare, Std.HashMap.size_insert, h.size, declares, ← h.entries]
    simp only [Std.HashMap.mem_iff_isSome_getElem?]

lemma resolve (h : t.Mirrors s) (text : Text) :
    (t.resolve text).1 = (s.resolve text).1 ∧ (t.resolve text).2.Mirrors (s.resolve text).2 := by
  rw [Table.resolve, ← s.resolveBy_eq, resolveBy, resolveBy]
  split_ifs
  · exact writeMatches_alike (fun t s name h => h.reference name) text _ 0 h
  · exact ⟨rfl, h⟩

/-- A binding is held under its own name. -/
lemma name_eq (h : t.Mirrors s) {name : Text} {b : Binding} (hb : t.entries[name]? = some b) :
    b.name = name ∧ b ∈ s.bindings :=
  binding?_eq_some ((h.entries name).symm.trans hb)

/-- **Every call** has the same answer on a table as on the store it mirrors, and leaves a
table that mirrors the store it leaves. -/
theorem call (h : t.Mirrors s) (call : Call) :
    (t.call call).1 = (s.call call).1 ∧ (t.call call).2.Mirrors (s.call call).2 := by
  cases call with
  | declare spelling description => exact h.declare spelling description
  | reference spelling => exact h.reference spelling
  | resolve text => exact h.resolve text

lemma callAll (h : t.Mirrors s) (calls : List Call) :
    (t.callAll calls).Mirrors (s.callAll calls) := by
  induction calls generalizing t s with
  | nil => exact h
  | cons call rest ih => exact ih (h.call call).2

/-- Where no two bindings have one name, the table holds the bindings of the store, each
once. -/
lemma perm_listed (h : t.Mirrors s) (once : (s.bindings.map Binding.name).Nodup) :
    t.listed.Perm s.bindings := by
  have hnodup : t.listed.Nodup := by
    rw [listed, List.Nodup, List.pairwise_map]
    refine List.Pairwise.imp_of_mem ?_ Std.HashMap.distinct_keys_toList
    intro first second hfirst hsecond hkeys heq
    have hfirst := (h.name_eq (Std.HashMap.mem_toList_iff_getElem?_eq_some.mp hfirst)).1
    have hsecond := (h.name_eq (Std.HashMap.mem_toList_iff_getElem?_eq_some.mp hsecond)).1
    rw [← hfirst, ← hsecond, heq] at hkeys
    simp at hkeys
  refine (List.perm_ext_iff_of_nodup hnodup (List.Nodup.of_map _ once)).mpr fun b => ?_
  rw [listed, List.mem_map]
  constructor
  · rintro ⟨⟨name, _⟩, hmem, rfl⟩
    exact (h.name_eq (Std.HashMap.mem_toList_iff_getElem?_eq_some.mp hmem)).2
  · intro hb
    refine ⟨(b.name, b), Std.HashMap.mem_toList_iff_getElem?_eq_some.mpr ?_, rfl⟩
    rw [h.entries]
    exact binding?_of_mem once hb

end Mirrors

/-- The bindings are those of the other table, and its lints come first. -/
def Extends (later t : Table) : Prop := later.entries = t.entries ∧ t.lints <+: later.lints

/-- A reference leaves the bindings as they are, and adds a lint at the end at most. -/
lemma extends_reference {later t : Table} (h : later.Extends t) (spelling : Text) :
    (later.reference spelling).2.Extends t := by
  rw [Table.reference]
  cases later.entries[Name.normalize spelling]? with
  | some b => exact h
  | none => exact ⟨h.1, h.2.trans (List.prefix_append _ _)⟩

/-- **References and texts** leave the bindings as they are, and add lints at the end. -/
theorem extends_call (t : Table) {call : Call} (h : call.declared? = none) :
    (t.call call).2.Extends t := by
  have hself : t.Extends t := ⟨rfl, List.prefix_rfl⟩
  cases call with
  | declare spelling description => cases h
  | reference spelling => exact extends_reference hself spelling
  | resolve text =>
      rw [Table.call, Table.resolve, resolveBy]
      split_ifs
      · exact writeMatches_keeps (Extends · t) (fun _ name h => extends_reference h name) text _ 0
          hself
      · exact hself

end Table

/-! ### The order of the bindings -/

/-- Ordinals that go up along the list put any listing of its bindings in its order. -/
lemma Records.byOrdinal_eq {s : Store} {declared : List (Text × Text)} (h : s.Records declared)
    {listed : List Binding} (hperm : listed.Perm s.bindings) : byOrdinal listed = s.bindings := by
  have hup : s.bindings.Pairwise fun a b => a.declaredAt < b.declaredAt := by
    rw [← List.pairwise_map, h.ordinals]
    exact List.pairwise_lt_range
  have hsorted : (byOrdinal listed).Pairwise fun a b => a.declaredAt ≤ b.declaredAt := by
    refine (List.pairwise_mergeSort ?_ ?_ listed).imp of_decide_eq_true
    · intro a b c hab hbc
      exact decide_eq_true ((of_decide_eq_true hab).trans (of_decide_eq_true hbc))
    · intro a b
      simpa using Nat.le_total a.declaredAt b.declaredAt
  have hlisted : (byOrdinal listed).Perm s.bindings := (List.mergeSort_perm listed _).trans hperm
  have honce : (s.bindings.map Binding.declaredAt).Nodup := h.ordinals ▸ List.nodup_range
  refine List.Perm.eq_of_pairwise (fun a b ha hb hab hba => ?_) hsorted
    (hup.imp Nat.le_of_lt) hlisted
  exact List.inj_on_of_nodup_map honce (hlisted.mem_iff.mp ha) hb (Nat.le_antisymm hab hba)

/-! ### Calls on a new table -/

/-- **What any calls leave in a new table.** Let declarations, references and texts come in any
order. The table holds the names that were declared and no others, each under its own name
with the description it was given last. The ordinals are the numbers below the number of
names, and a listing by them has the names in the order of their first declarations, in
whatever order the table holds them. One more declaration of a name yields its token, one more
reference or text leaves the bindings as they are, and no call takes a lint away or puts one
before another. -/
theorem Table.callAll_spec [Hashable Text] (calls : List Call) :
    let t := ({} : Table).callAll calls
    let declared := declarations calls
    (∀ name, name ∈ t.entries ↔ name ∈ declared.map Prod.fst)
      ∧ (∀ name b, t.entries[name]? = some b →
          b.name = name ∧ lastDescription? declared name = some b.description)
      ∧ t.bindings.map Binding.declaredAt = List.range t.entries.size
      ∧ t.bindings.map Binding.name = declaredNames declared
      ∧ (∀ listed : List Binding, listed.Perm t.listed → byOrdinal listed = t.bindings)
      ∧ (∀ spelling description,
          (t.call (.declare spelling description)).1 = Name.token (Name.normalize spelling))
      ∧ (∀ call : Call, call.declared? = none → (t.call call).2.entries = t.entries)
      ∧ ∀ call : Call, t.lints <+: (t.call call).2.lints := by
  intro t declared
  have mirrors : t.Mirrors (({} : Store).callAll calls) := Mirrors.new.callAll calls
  have records : (({} : Store).callAll calls).Records declared := Records.callAll calls
  have honce := records.names ▸ nodup_declaredNames declared
  have hperm := mirrors.perm_listed honce
  have hbindings : t.bindings = (({} : Store).callAll calls).bindings := records.byOrdinal_eq hperm
  refine ⟨fun name => ?_, fun name b hb => ?_, ?_, ?_, fun listed hlisted => ?_,
    fun spelling description => ?_, fun call hcall => (t.extends_call hcall).1, fun call => ?_⟩
  · rw [Std.HashMap.mem_iff_isSome_getElem?, mirrors.entries]
    exact records.declares_iff.trans List.mem_eraseDups
  · obtain ⟨hname, hmem⟩ := mirrors.name_eq hb
    exact ⟨hname, hname ▸ records.descriptions b hmem⟩
  · rw [hbindings, mirrors.size, records.ordinals]
  · rw [hbindings, records.names]
  · rw [hbindings, records.byOrdinal_eq (hlisted.trans hperm)]
  · exact (mirrors.declare spelling description).1
  · cases hcall : call.declared? with
    | none => exact (t.extends_call hcall).2
    | some added =>
        cases call with
        | declare spelling description => exact List.prefix_rfl
        | reference spelling => cases hcall
        | resolve text => cases hcall

end Directives.Store
