/-
Going through a directory.

A walk goes through a directory by the names of its entries, in order. Where it comes to a
directory it goes through that one before it goes on, and it does not follow links. The files
it comes to are the files below the directory, in the same order: what stands in a directory
comes before what has a later name beside it, although its path may be the later text.

* `FileTree.Siblings`: the names of all entries of a directory, in order.
* `FileTree.Visits`: the files that a walk comes to.
* `FileTree.Visits.mem_iff`, `FileTree.Visits.ordered`: which files these are, and their order.
* `FileTree.visits_iff`: the files that a walk comes to are the files below the directory.
-/
import Directives.Proofs.FileTree.Below

namespace Directives.FileTree

variable {tree : FileTree} {place : Place} {names : List Text} {contents : Contents}
  {files : List (List Text × Contents)}

/-- The names of all entries of a directory, in order. -/
structure Siblings (tree : FileTree) (place : Place) (names : List Text) : Prop where
  ordered : names.Pairwise fun a b => Text.before a b = true
  mem_iff : ∀ name, name ∈ names ↔ (tree.entry? (place ++ [name])).isSome

/-- A walk that goes through entries of a directory comes to the files. -/
inductive Visits (tree : FileTree) : Place → List Text → List (List Text × Contents) → Prop
  | done {place : Place} : Visits tree place [] []
  | file {place : Place} {name : Text} {rest : List Text} {contents : Contents}
      {files : List (List Text × Contents)}
      (there : tree.entry? (place ++ [name]) = some (.file contents))
      (on : Visits tree place rest files) :
      Visits tree place (name :: rest) (([name], contents) :: files)
  | link {place : Place} {name : Text} {rest : List Text} {target : Path}
      {files : List (List Text × Contents)}
      (there : tree.entry? (place ++ [name]) = some (.link target))
      (on : Visits tree place rest files) : Visits tree place (name :: rest) files
  | directory {place : Place} {name : Text} {rest inside : List Text}
      {held files : List (List Text × Contents)}
      (there : tree.entry? (place ++ [name]) = some .directory)
      (siblings : Siblings tree (place ++ [name]) inside)
      (through : Visits tree (place ++ [name]) inside held)
      (on : Visits tree place rest files) :
      Visits tree place (name :: rest) (held.map (fun f => (name :: f.1, f.2)) ++ files)

/-! ### The files that a walk comes to -/

/-- Names lead to a file from the first of them on. -/
lemma reaches_cons_iff {name : Text} :
    tree.Reaches place (name :: names) (.file contents)
      ↔ (names = [] ∧ tree.entry? (place ++ [name]) = some (.file contents))
        ∨ (tree.entry? (place ++ [name]) = some .directory
          ∧ tree.Reaches (place ++ [name]) names (.file contents)) := by
  constructor
  · intro h
    cases h with
    | there there => exact .inl ⟨rfl, there⟩
    | into directory on => exact .inr ⟨directory, on⟩
  · rintro (⟨rfl, there⟩ | ⟨directory, on⟩)
    · exact .there there
    · exact .into directory on

/-- A file stands below one of the siblings. -/
lemma Siblings.head_mem (h : Siblings tree place names) {path : List Text}
    (hreaches : tree.Reaches place path (.file contents)) :
    ∃ name ∈ names, path.head? = some name := by
  cases hreaches with
  | there there => exact ⟨_, (h.mem_iff _).mpr (by rw [there]; rfl), rfl⟩
  | into directory _ => exact ⟨_, (h.mem_iff _).mpr (by rw [directory]; rfl), rfl⟩

/-- **A walk comes to the files** that names lead to, by one of the names it goes through. -/
theorem Visits.mem_iff (h : Visits tree place names files) (path : List Text)
    (contents : Contents) :
    (path, contents) ∈ files
      ↔ tree.Reaches place path (.file contents) ∧ ∃ name ∈ names, path.head? = some name := by
  induction h generalizing path contents with
  | done => simp
  | @file place name _ held _ there _ ih =>
      have hfirst : (path, contents) = ([name], held)
          ↔ tree.Reaches place path (.file contents) ∧ path.head? = some name := by
        rw [List.head?_eq_some_iff]
        constructor
        · rintro ⟨⟩
          exact ⟨.there there, [], rfl⟩
        · rintro ⟨hreaches, below, rfl⟩
          obtain ⟨rfl, hfile⟩ | ⟨hdirectory, -⟩ := reaches_cons_iff.mp hreaches
          · rw [there] at hfile
            cases hfile
            rfl
          · rw [there] at hdirectory
            cases hdirectory
      rw [List.mem_cons, hfirst, ih, List.exists_mem_cons_iff, and_or_left]
  | @link place name _ _ _ there _ ih =>
      have hfirst : ¬ (tree.Reaches place path (.file contents) ∧ path.head? = some name) := by
        rw [List.head?_eq_some_iff]
        rintro ⟨hreaches, below, rfl⟩
        obtain ⟨-, hfile⟩ | ⟨hdirectory, -⟩ := reaches_cons_iff.mp hreaches
        · rw [there] at hfile
          cases hfile
        · rw [there] at hdirectory
          cases hdirectory
      rw [ih, List.exists_mem_cons_iff, and_or_left, or_iff_right hfirst]
  | @directory place name _ _ held _ there siblings _ _ ihthrough ihon =>
      have hfirst : (path, contents) ∈ held.map (fun f => (name :: f.1, f.2))
          ↔ tree.Reaches place path (.file contents) ∧ path.head? = some name := by
        rw [List.head?_eq_some_iff, List.mem_map]
        constructor
        · rintro ⟨⟨below, contents⟩, hheld, ⟨⟩⟩
          exact ⟨.into there ((ihthrough below contents).mp hheld).1, below, rfl⟩
        · rintro ⟨hreaches, below, rfl⟩
          obtain ⟨-, hfile⟩ | ⟨-, hbelow⟩ := reaches_cons_iff.mp hreaches
          · rw [there] at hfile
            cases hfile
          · exact ⟨(below, contents), (ihthrough _ _).mpr ⟨hbelow, siblings.head_mem hbelow⟩, rfl⟩
      rw [List.mem_append, hfirst, ihon, List.exists_mem_cons_iff, and_or_left]

/-- What a walk comes to later has a later name. -/
lemma Visits.later (h : Visits tree place names files) {name : Text}
    (hnames : ∀ other ∈ names, Text.before name other = true) {f : List Text × Contents}
    (hf : f ∈ files) : ∃ other, Text.before name other = true ∧ f.1.head? = some other := by
  obtain ⟨-, other, hother, hhead⟩ := (h.mem_iff f.1 f.2).mp hf
  exact ⟨other, hnames other hother, hhead⟩

/-- What stands in a directory comes before what has a later name. -/
lemma placeBefore_of_head {a b : Place} {name : Text} (ha : a.head? = some name)
    (hb : ∃ other, Text.before name other = true ∧ b.head? = some other) :
    placeBefore a b = true := by
  obtain ⟨other, hbefore, hb⟩ := hb
  obtain ⟨below, rfl⟩ := List.head?_eq_some_iff.mp ha
  obtain ⟨below', rfl⟩ := List.head?_eq_some_iff.mp hb
  rw [placeBefore, hbefore, Bool.true_or]

/-- **A walk comes to the files** in the order of their places. -/
theorem Visits.ordered (h : Visits tree place names files)
    (hnames : names.Pairwise fun a b => Text.before a b = true) :
    files.Pairwise fun a b => placeBefore a.1 b.1 = true := by
  induction h with
  | done => exact .nil
  | file there on ih =>
      obtain ⟨hname, hrest⟩ := List.pairwise_cons.mp hnames
      refine List.pairwise_cons.mpr ⟨fun f hf => ?_, ih hrest⟩
      exact placeBefore_of_head rfl (on.later hname hf)
  | link _ _ ih => exact ih (List.pairwise_cons.mp hnames).2
  | directory there siblings _ on ihthrough ihon =>
      obtain ⟨hname, hrest⟩ := List.pairwise_cons.mp hnames
      refine List.pairwise_append.mpr ⟨?_, ihon hrest, ?_⟩
      · refine (ihthrough siblings.ordered).map _ fun a b hab => ?_
        simp [placeBefore, hab]
      · rintro _ hheld f hf
        obtain ⟨inner, -, rfl⟩ := List.mem_map.mp hheld
        exact placeBefore_of_head rfl (on.later hname hf)

/-! ### Walks and the files below -/

/-- A walk that goes through all entries comes to the files below the directory. -/
lemma Visits.eq_filesBelow (wellFormed : tree.WellFormed) (siblings : Siblings tree place names)
    (h : Visits tree place names files) : files = tree.filesBelow place := by
  refine (h.ordered siblings.ordered).eq_of_mem_iff (pairwise_filesBelow wellFormed place) ?_
  rintro ⟨path, contents⟩
  rw [h.mem_iff, mem_filesBelow_iff wellFormed]
  exact and_iff_left_of_imp siblings.head_mem

/-- The entries of a directory have names in order. -/
lemma exists_siblings (tree : FileTree) (place : Place) : ∃ names, Siblings tree place names := by
  -- the names, in any order, of the entries that stand there
  obtain ⟨all, hall⟩ : ∃ all : Finset Text,
      ∀ name, (tree.entry? (place ++ [name])).isSome → name ∈ all := by
    refine ⟨(tree.entries.filterMap fun e => e.1.getLast?).toFinset, fun name hname => ?_⟩
    obtain ⟨entry, hentry⟩ := Option.isSome_iff_exists.mp hname
    rw [entry?_eq_lookup (by simp), List.lookup_eq_some_iff] at hentry
    obtain ⟨before, after, hentries, -⟩ := hentry
    rw [List.mem_toFinset, List.mem_filterMap]
    exact ⟨(place ++ [name], entry), by simp [hentries], by simp⟩
  refine ⟨(all.filter fun name => (tree.entry? (place ++ [name])).isSome).sort, ?_, fun name => ?_⟩
  · exact (Finset.sortedLT_sort _).pairwise.imp Text.before_iff_lt.mpr
  · rw [Finset.mem_sort, Finset.mem_filter]
    exact and_iff_right_of_imp (hall name)

/-- No entry stands deeper than some place. -/
lemma exists_depth (tree : FileTree) :
    ∃ depth, ∀ place, (tree.entry? place).isSome → place.length ≤ depth := by
  refine ⟨(tree.entries.map fun e => e.1.length).sum, fun place hplace => ?_⟩
  obtain ⟨entry, hentry⟩ := Option.isSome_iff_exists.mp hplace
  by_cases hroot : place = []
  · rw [hroot]
    exact Nat.zero_le _
  · rw [entry?_eq_lookup hroot, List.lookup_eq_some_iff] at hentry
    obtain ⟨before, after, hentries, -⟩ := hentry
    exact List.le_sum_of_mem (List.mem_map.mpr ⟨(place, entry), by simp [hentries], rfl⟩)

/-- A walk through entries ends, since each directory it goes into is deeper. -/
lemma exists_visits {depth : Nat}
    (hdepth : ∀ place, (tree.entry? place).isSome → place.length ≤ depth)
    (hnames : ∀ name ∈ names, (tree.entry? (place ++ [name])).isSome) :
    ∃ files, Visits tree place names files := by
  induction hroom : depth - place.length using Nat.strong_induction_on generalizing place names with
  | h room ih =>
    induction names with
    | nil => exact ⟨[], .done⟩
    | cons name rest ihrest =>
        obtain ⟨hname, hrest⟩ := List.forall_mem_cons.mp hnames
        obtain ⟨files, hvisits⟩ := ihrest hrest
        obtain ⟨entry, hentry⟩ := Option.isSome_iff_exists.mp hname
        cases entry with
        | file contents => exact ⟨_, .file hentry hvisits⟩
        | link target => exact ⟨_, .link hentry hvisits⟩
        | directory =>
            obtain ⟨inside, hinside⟩ := exists_siblings tree (place ++ [name])
            have hlength := hdepth _ hname
            rw [List.length_append, List.length_singleton] at hlength
            have hdeeper : depth - (place ++ [name]).length < room := by
              rw [List.length_append, List.length_singleton]
              omega
            obtain ⟨held, hheld⟩ := ih _ hdeeper (fun n hn => (hinside.mem_iff n).mp hn) rfl
            exact ⟨_, .directory hentry hinside hheld hvisits⟩

/-- **A walk through a directory** comes to the files below it, one after the other. -/
theorem visits_iff (wellFormed : tree.WellFormed) (siblings : Siblings tree place names) :
    Visits tree place names files ↔ files = tree.filesBelow place := by
  refine ⟨Visits.eq_filesBelow wellFormed siblings, ?_⟩
  rintro rfl
  obtain ⟨depth, hdepth⟩ := tree.exists_depth
  obtain ⟨files, hvisits⟩ := exists_visits hdepth fun name hname => (siblings.mem_iff name).mp hname
  rwa [← hvisits.eq_filesBelow wellFormed siblings]

end Directives.FileTree
