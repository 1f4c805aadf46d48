/-
The files below a directory.

In a tree that is well formed every entry stands in a directory, and no place has two. So the
files below a directory are those that names lead to from there, through directories and no
link, and no other. They stand in the order of their places, name by name.

* `FileTree.Reaches`: names lead from a directory to an entry, through no link.
* `FileTree.placeBefore_iff_lt`: the order of places is lexicographic in their names.
* `FileTree.mem_filesBelow_iff`: the files below a directory are those that names lead to.
* `FileTree.pairwise_filesBelow`: each stands before those behind it.
-/
import Directives.Proofs.FileTree.WellFormed
import Directives.Proofs.Text

namespace Directives.FileTree

variable {tree : FileTree} {place front back : Place} {names : List Text} {entry : Entry}
  {contents : Contents}

/-! ### Reaching entries -/

/-- Names lead from a directory to an entry, through directories and no link. -/
inductive Reaches (tree : FileTree) : Place → List Text → Entry → Prop
  | there {place : Place} {name : Text} {entry : Entry}
      (there : tree.entry? (place ++ [name]) = some entry) : Reaches tree place [name] entry
  | into {place : Place} {name : Text} {names : List Text} {entry : Entry}
      (directory : tree.entry? (place ++ [name]) = some .directory)
      (on : Reaches tree (place ++ [name]) names entry) : Reaches tree place (name :: names) entry

lemma Reaches.ne_nil (h : tree.Reaches place names entry) : names ≠ [] := by
  cases h <;> exact List.cons_ne_nil _ _

/-- Names lead to the entry of their place. -/
lemma Reaches.entry? (h : tree.Reaches place names entry) :
    tree.entry? (place ++ names) = some entry := by
  induction h with
  | there there => exact there
  | into _ _ ih => rwa [List.append_assoc] at ih

/-- **Names lead to every entry** in a tree that is well formed. -/
theorem WellFormed.reaches_iff (h : tree.WellFormed) :
    tree.Reaches place names entry ↔ names ≠ [] ∧ tree.entry? (place ++ names) = some entry := by
  refine ⟨fun hreaches => ⟨hreaches.ne_nil, hreaches.entry?⟩, ?_⟩
  rintro ⟨hne, hentry⟩
  induction names generalizing place with
  | nil => exact absurd rfl hne
  | cons name names ih =>
      cases names with
      | nil => exact .there hentry
      | cons next names =>
          rw [List.append_cons] at hentry
          exact .into (h.directory_of_append (List.cons_ne_nil _ _) hentry)
            (ih (List.cons_ne_nil _ _) hentry)

/-! ### The order of places -/

/-- The order of places is the lexicographic order of their names. -/
lemma placeBefore_iff_lt {a b : Place} : placeBefore a b = true ↔ a < b := by
  induction a generalizing b with
  | nil => cases b <;> simp [placeBefore]
  | cons name a ih =>
      cases b with
      | nil => simp [placeBefore]
      | cons name' b => simp [placeBefore, ih, Text.before_iff_lt, List.cons_lt_cons_iff]

instance irrefl_placeBefore :
    Std.Irrefl fun a b : List Text × Contents => placeBefore a.1 b.1 = true :=
  ⟨fun a => by simp [placeBefore_iff_lt]⟩

instance antisymm_placeBefore :
    Std.Antisymm fun a b : List Text × Contents => placeBefore a.1 b.1 = true :=
  ⟨fun _ _ hab hba => absurd (placeBefore_iff_lt.mp hab) (placeBefore_iff_lt.mp hba).asymm⟩

/-! ### Files below a directory -/

/-- The file that an entry below a place is, with the names from there. -/
def fileFrom? (place : Place) (e : Place × Entry) : Option (List Text × Contents) :=
  match place.isPrefixOf? e.1, e.2 with
  | some (name :: names), .file contents => some (name :: names, contents)
  | _, _ => none

lemma filesBelow_eq (tree : FileTree) (place : Place) :
    tree.filesBelow place
      = (tree.entries.filterMap (fileFrom? place)).mergeSort fun a b => !placeBefore b.1 a.1 :=
  rfl

lemma fileFrom?_eq_some_iff {e : Place × Entry} :
    fileFrom? place e = some (names, contents)
      ↔ names ≠ [] ∧ e = (place ++ names, .file contents) := by
  obtain ⟨other, entry⟩ := e
  constructor
  · intro h
    unfold fileFrom? at h
    split at h
    · next name rest held hprefix hheld =>
        obtain ⟨rfl, rfl⟩ := Prod.mk.inj (Option.some.inj h)
        rw [List.isPrefixOf?_eq_some_iff_append_eq] at hprefix
        exact ⟨List.cons_ne_nil _ _, Prod.ext hprefix.symm hheld⟩
    · cases h
  · rintro ⟨hne, h⟩
    obtain ⟨rfl, rfl⟩ := Prod.mk.inj h
    obtain ⟨name, rest, rfl⟩ := List.exists_cons_of_ne_nil hne
    have hprefix : place.isPrefixOf? (place ++ name :: rest) = some (name :: rest) :=
      List.isPrefixOf?_eq_some_iff_append_eq.mpr rfl
    simp [fileFrom?, hprefix]

/-- **The files below a directory** are those that names lead to. -/
theorem mem_filesBelow_iff (h : tree.WellFormed) :
    (names, contents) ∈ tree.filesBelow place ↔ tree.Reaches place names (.file contents) := by
  rw [filesBelow_eq, List.mem_mergeSort, List.mem_filterMap, h.reaches_iff]
  simp only [fileFrom?_eq_some_iff]
  constructor
  · rintro ⟨e, hmem, hne, rfl⟩
    exact ⟨hne, (h.mem_entries_iff (by simp [hne])).mp hmem⟩
  · rintro ⟨hne, hentry⟩
    exact ⟨_, (h.mem_entries_iff (by simp [hne])).mpr hentry, hne, rfl⟩

/-- **Each file stands before** those behind it, so none stands there twice. -/
theorem pairwise_filesBelow (h : tree.WellFormed) (place : Place) :
    (tree.filesBelow place).Pairwise fun a b => placeBefore a.1 b.1 = true := by
  rw [filesBelow_eq]
  have hne : (tree.entries.filterMap (fileFrom? place)).Pairwise fun a b => a.1 ≠ b.1 := by
    refine (List.pairwise_map.mp h.nodup).filterMap _ ?_
    rintro e e' hplaces ⟨names, contents⟩ hfile ⟨names', contents'⟩ hfile' rfl
    obtain ⟨-, rfl⟩ := fileFrom?_eq_some_iff.mp hfile
    obtain ⟨-, rfl⟩ := fileFrom?_eq_some_iff.mp hfile'
    exact hplaces rfl
  have hle : ∀ a b : List Text × Contents, (!placeBefore b.1 a.1) = true ↔ a.1 ≤ b.1 := by
    intro a b
    rw [Bool.not_eq_true', Bool.eq_false_iff, Ne, placeBefore_iff_lt, not_lt]
  have hsorted : ((tree.entries.filterMap (fileFrom? place)).mergeSort
      fun a b => !placeBefore b.1 a.1).Pairwise fun a b => (!placeBefore b.1 a.1) = true := by
    refine List.pairwise_mergeSort (fun a b c hab hbc => ?_) (fun a b => ?_) _
    · exact (hle a c).mpr (((hle a b).mp hab).trans ((hle b c).mp hbc))
    · rw [Bool.or_eq_true, hle, hle]
      exact le_total a.1 b.1
  have hdistinct := (List.mergeSort_perm (tree.entries.filterMap (fileFrom? place))
    fun a b => !placeBefore b.1 a.1).symm.pairwise hne fun hab => hab.symm
  refine (hsorted.and hdistinct).imp fun {a b} hab => ?_
  rw [placeBefore_iff_lt]
  exact lt_of_le_of_ne ((hle a b).mp hab.1) hab.2

end Directives.FileTree
