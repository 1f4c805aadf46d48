/-
What the files of a tree hold.

A file that is not there yet holds as much as an empty one: a text that is put at its end
is all it holds then. In this sense new directories change what no file holds, a text
that is written changes what one file holds, and so does a text that is put at the end.

* `held`: what the file at a place holds.
* `held_createDirectories`, `held_write`: what other files hold.
* `append_held`: what a file holds to whose end a text was put.
-/
import Directives.Proofs.FileTree.Write

namespace Directives.FileTree

variable {tree tree' : FileTree} {place : Place} {path : Path} {text : Text}

/-- What the file at a place holds, the empty text if there is none. -/
def held (tree : FileTree) (place : Place) : Contents :=
  match tree.entry? place with
  | some (.file contents) => contents
  | _ => .text []

lemma held_of_file {contents : Contents} (h : tree.entry? place = some (.file contents)) :
    tree.held place = contents := by
  rw [held, h]

lemma held_of_none (h : tree.entry? place = none) : tree.held place = .text [] := by
  rw [held, h]

lemma held_congr (h : tree'.entry? place = tree.entry? place) :
    tree'.held place = tree.held place := by
  rw [held, held, h]

/-- A text at the end of what a file holds. -/
lemma append_nil_text (addition : Text) :
    (Contents.text []).append addition = .text addition := rfl

/-! ### Other files -/

lemma held_createDirectory {names : List Text} (h : tree.createDirectory names = .ok tree') :
    tree'.held place = tree.held place := by
  obtain ⟨made, -, hset⟩ := exists_of_bind_ok h
  split at hset
  · cases hset
  · next free =>
      rw [← Except.ok.inj hset]
      have nodirectory : tree.entry? made ≠ some .directory := by simp [free]
      have proper := ne_root_of_not_directory nodirectory
      by_cases hplace : place = made
      · -- a directory holds nothing, as nothing does
        subst hplace
        rw [held_of_none free, held, entry?_set proper, if_pos rfl]
      · exact held_congr (by rw [entry?_set proper, if_neg hplace])

/-- **New directories** change what no file holds. -/
theorem held_createDirectories (tree : FileTree) (path : Path) (place : Place) :
    (tree.createDirectories path).1.held place = tree.held place :=
  createDirectories_induction (R := fun tree tree' => tree'.held place = tree.held place)
    (fun _ => rfl) (fun first second => second.trans first) held_createDirectory tree path

/-- A text that is written changes what one file holds. -/
lemma held_write (h : tree.write path text = .ok tree') (apart : tree.follow path ≠ .ok place) :
    tree'.held place = tree.held place := by
  obtain ⟨written, hplace, hset⟩ := exists_of_bind_ok h
  split at hset
  · cases hset
  · next nodirectory =>
      rw [← Except.ok.inj hset]
      have hne : place ≠ written := by
        rintro rfl
        exact apart (set_file_spec hplace nodirectory (.text text)).1
      exact held_congr (by rw [entry?_set (ne_root_of_not_directory nodirectory), if_neg hne])

/-! ### Texts at the end -/

/-- **A text that is put at the end** of the file that a path leads to is held there
behind what was held before. -/
theorem append_held (h : tree.append path text = .ok tree') :
    ∃ place, tree.follow path = .ok place
      ∧ tree'.entry? place = some (.file ((tree.held place).append text)) := by
  obtain ⟨place, hplace, hset⟩ := exists_of_bind_ok h
  refine ⟨place, follow_of_follow_file (follow_of_placeToWrite hplace), ?_⟩
  split at hset
  · cases hset
  · next contents hfile =>
      rw [← Except.ok.inj hset, (set_file_spec hplace (by simp [hfile]) _).2.2,
        held_of_file hfile]
  · next nodirectory nofile =>
      rw [← Except.ok.inj hset, (set_file_spec hplace nodirectory _).2.2]
      have hnone : tree.entry? place = none :=
        (entry?_of_follow_file (follow_of_placeToWrite hplace) nodirectory).resolve_right
          fun ⟨contents, hfile⟩ => nofile contents hfile
      rw [held_of_none hnone, append_nil_text]

end Directives.FileTree
