/-
Operations on a tree make it grow.

* `readText_write`: what was written is read back.
* `grows_createDirectories`: directories are only added.
* `Updates`: from one tree to the next, with the paths that are written to;
  `updates_write`, `updates_append`, `updates_createDirectories`.
* `Updates.readText`: what is read stays while other files change.
-/
import Directives.Proofs.FileTree.Walk

namespace Directives.FileTree

variable {tree tree' tree'' : FileTree} {place : Place} {path : Path} {text : Text}

/-- A computation that succeeds goes through each of its steps. -/
lemma exists_of_bind_ok {ε α β : Type} {first : Except ε α} {next : α → Except ε β} {result : β}
    (h : first >>= next = .ok result) : ∃ value, first = .ok value ∧ next value = .ok result := by
  cases first with
  | error _ => cases h
  | ok value => exact ⟨value, rfl, h⟩

/-! ### Files -/

lemma follow_of_placeToWrite (h : tree.placeToWrite path = .ok place) :
    tree.follow path .file = .ok place := by
  unfold placeToWrite at h
  split_ifs at h
  · obtain ⟨_, _, hfault⟩ := exists_of_bind_ok h
    cases hfault
  · exact h

/-- A file that can be written is found again. -/
lemma follow_of_follow_file (h : tree.follow path .file = .ok place) :
    tree.follow path = .ok place := by
  rw [follow_eq_ok_iff] at h ⊢
  exact h.imp_right Leads.destination

/-- Where a file can be written, there is nothing yet, or a file, or a directory. -/
lemma entry?_of_follow_file (h : tree.follow path .file = .ok place)
    (nodirectory : tree.entry? place ≠ some .directory) :
    tree.entry? place = none ∨ ∃ contents, tree.entry? place = some (.file contents) := by
  have hlink := (follow_eq_ok_iff.mp h).2.not_link (by simp) tree.unlinked_root
  cases hentry : tree.entry? place with
  | none => exact .inl rfl
  | some entry =>
      cases entry with
      | file contents => exact .inr ⟨contents, rfl⟩
      | directory => exact absurd hentry nodirectory
      | link target => exact absurd hentry (hlink target)

/-- A file is put where a path leads to. -/
lemma set_file_spec (h : tree.placeToWrite path = .ok place)
    (nodirectory : tree.entry? place ≠ some .directory) (contents : Contents) :
    tree.follow path = .ok place ∧ Grows (· = place) tree (tree.set place (.file contents))
      ∧ FileTree.entry? (tree.set place (.file contents)) place = some (.file contents) := by
  have hfile := follow_of_placeToWrite h
  refine ⟨follow_of_follow_file hfile, grows_set nofun ?_, ?_⟩
  · exact (entry?_of_follow_file hfile nodirectory).imp_right fun h => ⟨h, contents, rfl⟩
  · rw [entry?_set (ne_root_of_not_directory nodirectory), if_pos rfl]

lemma write_spec (h : tree.write path text = .ok tree') :
    ∃ place, tree.follow path = .ok place ∧ Grows (· = place) tree tree'
      ∧ tree'.entry? place = some (.file (.text text)) := by
  obtain ⟨place, hplace, hset⟩ := exists_of_bind_ok h
  split at hset
  · cases hset
  · next nodirectory =>
      rw [← Except.ok.inj hset]
      exact ⟨place, set_file_spec hplace nodirectory (.text text)⟩

lemma append_spec (h : tree.append path text = .ok tree') :
    ∃ place, tree.follow path = .ok place ∧ Grows (· = place) tree tree' := by
  obtain ⟨place, hplace, hset⟩ := exists_of_bind_ok h
  split at hset
  · cases hset
  · next contents hfile =>
      obtain ⟨hfollow, hgrows, -⟩ := set_file_spec hplace (by simp [hfile]) (contents.append text)
      rw [← Except.ok.inj hset]
      exact ⟨place, hfollow, hgrows⟩
  · next nodirectory _ =>
      obtain ⟨hfollow, hgrows, -⟩ := set_file_spec hplace nodirectory (.text text)
      rw [← Except.ok.inj hset]
      exact ⟨place, hfollow, hgrows⟩

lemma readText_eq_ok_iff : tree.readText path = .ok text
    ↔ ∃ place, tree.follow path = .ok place ∧ tree.entry? place = some (.file (.text text)) := by
  constructor
  · intro h
    obtain ⟨place, hplace, hread⟩ := exists_of_bind_ok h
    refine ⟨place, hplace, ?_⟩
    split at hread
    · next hentry => rw [hentry, Except.ok.inj hread]
    all_goals cases hread
  · rintro ⟨place, hplace, hentry⟩
    simp [readText, hplace, hentry, bind, Except.bind]

/-- What was written is read back. -/
theorem readText_write (h : tree.write path text = .ok tree') : tree'.readText path = .ok text := by
  obtain ⟨place, hfollow, hgrows, hentry⟩ := write_spec h
  exact readText_eq_ok_iff.mpr ⟨place, hgrows.follow hfollow, hentry⟩

/-! ### Directories -/

lemma grows_createDirectory {names : List Text} (h : tree.createDirectory names = .ok tree') :
    Grows (fun _ => False) tree tree' := by
  obtain ⟨place, -, hset⟩ := exists_of_bind_ok h
  split at hset
  · cases hset
  · next free =>
      rw [← Except.ok.inj hset]
      have hgrows : Grows (· = place) tree (tree.set place .directory) :=
        grows_set nofun (.inl free)
      refine ⟨fun other entry hentry => .inl ?_, hgrows.links⟩
      refine hgrows.unchanged ?_ hentry
      rintro rfl
      simp [free] at hentry

section Directories

variable {R : FileTree → FileTree → Prop} (refl : ∀ tree, R tree tree)
  (trans : ∀ {tree tree' tree''}, R tree tree' → R tree' tree'' → R tree tree'')
  (make : ∀ {tree tree' names}, createDirectory tree names = .ok tree' → R tree tree')

include refl trans make

lemma createInside_induction {names : List Text} {around : FileTree → FileTree × Option Fault}
    (outer : ∀ tree, R tree (around tree).1) (tree : FileTree) :
    R tree (createInside names around tree).1 := by
  unfold createInside
  split
  · next made => exact make made
  · have hafter := outer tree
    split
    · next made => simpa [made] using hafter
    · next made =>
        rw [made] at hafter
        split
        · next made' => exact trans hafter (make made')
        · dsimp only
          split_ifs <;> exact hafter
  · dsimp only
    split_ifs <;> exact refl tree

lemma createAll_induction (inward : List Text) (tree : FileTree) :
    R tree (createAll inward tree).1 := by
  induction inward generalizing tree with
  | nil => exact refl tree
  | cons name outer ih => exact createInside_induction refl trans make ih tree

/-- What holds of one new directory after another holds when the directories of a path
are made, also when some are made before a fault. -/
theorem createDirectories_induction (tree : FileTree) (path : Path) :
    R tree (tree.createDirectories path).1 := by
  unfold createDirectories
  split
  · exact refl tree
  · exact refl tree
  · dsimp only
    split_ifs
    · exact createInside_induction refl trans make (createAll_induction refl trans make _) tree
    · exact createAll_induction refl trans make _ tree

end Directories

/-- **Directories** are added, and nothing is changed. -/
theorem grows_createDirectories (tree : FileTree) (path : Path) :
    Grows (fun _ => False) tree (tree.createDirectories path).1 :=
  createDirectories_induction Grows.refl Grows.trans grows_createDirectory tree path

/-! ### Updates -/

/-- The tree grows, and only files that paths lead to hold something else. -/
def Updates (paths : List Path) (tree tree' : FileTree) : Prop :=
  Grows (fun place => ∃ path ∈ paths, tree'.follow path = .ok place) tree tree'

variable {paths paths' : List Path}

lemma Updates.refl (tree : FileTree) : Updates paths tree tree := Grows.refl tree

/-- One update after another: the paths of the first still lead where they led. -/
lemma Updates.trans (h : Updates paths tree tree') (h' : Updates paths' tree' tree'') :
    Updates (paths ++ paths') tree tree'' := by
  refine (Grows.mono h ?_).trans (Grows.mono h' ?_)
  · rintro place ⟨path, hpath, hfollow⟩
    exact ⟨path, List.mem_append_left _ hpath, h'.follow hfollow⟩
  · rintro place ⟨path, hpath, hfollow⟩
    exact ⟨path, List.mem_append_right _ hpath, hfollow⟩

/-- **What is read stays** what is read while the paths that are written to lead
elsewhere. -/
theorem Updates.readText (h : Updates paths tree tree') (hread : tree.readText path = .ok text)
    (apart : ∀ other ∈ paths, tree'.follow other ≠ tree'.follow path) :
    tree'.readText path = .ok text := by
  obtain ⟨place, hplace, hentry⟩ := readText_eq_ok_iff.mp hread
  have hplace' := Grows.follow h hplace
  refine readText_eq_ok_iff.mpr ⟨place, hplace', h.unchanged ?_ hentry⟩
  rintro ⟨other, hother, hfollow⟩
  exact apart other hother (hfollow.trans hplace'.symm)

lemma updates_of_grows (hfollow : tree.follow path = .ok place)
    (hgrows : Grows (· = place) tree tree') : Updates [path] tree tree' := by
  refine hgrows.mono ?_
  rintro _ rfl
  exact ⟨path, List.mem_singleton_self path, hgrows.follow hfollow⟩

lemma updates_write (h : tree.write path text = .ok tree') : Updates [path] tree tree' := by
  obtain ⟨place, hfollow, hgrows, -⟩ := write_spec h
  exact updates_of_grows hfollow hgrows

lemma updates_append (h : tree.append path text = .ok tree') : Updates [path] tree tree' := by
  obtain ⟨place, hfollow, hgrows⟩ := append_spec h
  exact updates_of_grows hfollow hgrows

lemma updates_createDirectories (tree : FileTree) (path : Path) :
    Updates [] tree (tree.createDirectories path).1 :=
  (grows_createDirectories tree path).mono fun _ => False.elim

end Directives.FileTree
