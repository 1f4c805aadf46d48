/-
The names of a definition stand in order.

Names are compared by code points. The libraries and commands of a definition that was
read are put in order as they are read, and of entries of one name the last one is kept,
so each name stands before those behind it.

* `Ordered`: each name stands before those behind it.
* `ordered_sortNamed`: entries that were put in order stand in order.
* `Definition.ordered_load`: the names of a definition that was loaded.
-/
import Mathlib.Data.Char
import Mathlib.Data.List.Lex
import Mathlib.Tactic
import Directives.Definition.Load
import Directives.Proofs.Text

namespace Directives

/-! ### Entries in order -/

section Entries

variable {α : Type} {name : Text} {value : α} {entries : List (Text × α)}

/-- Each name stands before those behind it. -/
def Ordered (entries : List (Text × α)) : Prop :=
  (entries.map Prod.fst).Pairwise fun a b => Text.before a b = true

lemma ordered_cons_iff {first : Text × α} :
    Ordered (first :: entries)
      ↔ (∀ entry ∈ entries, Text.before first.1 entry.1 = true) ∧ Ordered entries := by
  rw [Ordered, List.map_cons, List.pairwise_cons, List.forall_mem_map]
  rfl

lemma mem_insertNamed {entry : Text × α} (h : entry ∈ insertNamed name value entries) :
    entry.1 = name ∨ entry ∈ entries := by
  induction entries with
  | nil =>
      rw [insertNamed, List.mem_singleton] at h
      exact .inl (congrArg Prod.fst h)
  | cons first rest ih =>
      rw [insertNamed] at h
      split_ifs at h
      · exact (List.mem_cons.mp h).imp (congrArg Prod.fst) (List.mem_cons_of_mem _)
      · exact (List.mem_cons.mp h).imp (congrArg Prod.fst) id
      · rcases List.mem_cons.mp h with rfl | hrest
        · exact .inr List.mem_cons_self
        · exact (ih hrest).imp_right (List.mem_cons_of_mem _)

/-- An entry is put in its place. -/
lemma Ordered.insertNamed (h : Ordered entries) : Ordered (insertNamed name value entries) := by
  induction entries with
  | nil => exact List.pairwise_singleton _ _
  | cons first rest ih =>
      obtain ⟨hfirst, hrest⟩ := ordered_cons_iff.mp h
      rw [Directives.insertNamed]
      split_ifs with hsame hbefore
      · exact ordered_cons_iff.mpr ⟨fun entry hentry => hsame ▸ hfirst entry hentry, hrest⟩
      · refine ordered_cons_iff.mpr ⟨fun entry hentry => ?_, h⟩
        rcases List.mem_cons.mp hentry with rfl | hentry
        · exact hbefore
        · exact Text.before_iff_lt.mpr
            ((Text.before_iff_lt.mp hbefore).trans (Text.before_iff_lt.mp (hfirst entry hentry)))
      · -- The name is neither that of the first entry nor before it.
        have hafter : Text.before first.1 name = true :=
          Text.before_iff_lt.mpr
            (lt_of_le_of_ne (not_lt.mp fun hlt => hbefore (Text.before_iff_lt.mpr hlt)) hsame)
        refine ordered_cons_iff.mpr ⟨fun entry hentry => ?_, ih hrest⟩
        rcases mem_insertNamed hentry with hname | hmem
        · rwa [hname]
        · exact hfirst entry hmem

/-- **Entries that were put in order** stand in order. -/
theorem ordered_sortNamed (entries : List (Text × α)) : Ordered (sortNamed entries) := by
  have hfold : ∀ sorted : List (Text × α), Ordered sorted →
      Ordered (entries.foldl
        (fun sorted entry => insertNamed entry.1 entry.2 sorted) sorted) := by
    induction entries with
    | nil => exact fun _ h => h
    | cons first rest ih => exact fun sorted h => ih _ h.insertNamed
  exact hfold [] List.Pairwise.nil

end Entries

/-! ### Definitions -/

namespace Definition

lemma ordered_ofDatum {datum : Datum} {d : Definition} (h : ofDatum? datum = some d) :
    Ordered d.libraries ∧ Ordered d.commands := by
  simp only [ofDatum?, Option.bind_eq_bind, pure] at h
  split_ifs at h
  obtain ⟨libraries, -, h⟩ := Option.bind_eq_some_iff.mp h
  obtain ⟨commands, -, h⟩ := Option.bind_eq_some_iff.mp h
  obtain rfl := Option.some.inj h
  exact ⟨ordered_sortNamed libraries, ordered_sortNamed commands⟩

/-- **The names of a definition that was loaded** stand in order. -/
theorem ordered_load {tree : FileTree} {file : Path} {d : Definition}
    (h : load tree file = .ok d) : Ordered d.libraries ∧ Ordered d.commands := by
  unfold load at h
  split at h
  · cases h
  · next content hread =>
      split at h
      · next definition hdefinition =>
          obtain rfl := Except.ok.inj h
          unfold ofYaml? at hdefinition
          split_ifs at hdefinition
          · obtain rfl := Option.some.inj hdefinition
            exact ⟨List.Pairwise.nil, List.Pairwise.nil⟩
          · obtain ⟨datum, -, hdatum⟩ := Option.bind_eq_some_iff.mp hdefinition
            exact ordered_ofDatum hdatum
      · cases h

end Definition

end Directives
