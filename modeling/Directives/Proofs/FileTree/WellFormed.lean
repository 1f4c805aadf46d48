/-
Well-formed trees.

In a tree every entry stands in a directory, and no place has two. The operations keep this:
what they make stands where a walk arrives, and around that place there is a directory.

* `FileTree.WellFormed`: every entry stands in a directory, and no place has two.
* `FileTree.WellFormed.directory_of_append`: directories stand all the way to an entry.
* `FileTree.WellFormed.around_of_leads`: a walk arrives in a directory.
* `FileTree.WellFormed.write`, `FileTree.WellFormed.append`,
  `FileTree.WellFormed.createDirectories`: the operations keep trees well formed.
-/
import Directives.Proofs.FileTree.Write

namespace Directives.FileTree

variable {tree tree' : FileTree} {place front back : Place} {names : List Text} {entry : Entry}
  {path : Path} {text : Text}

/-! ### Well-formed trees -/

/-- Every entry stands in a directory, and no place has two. -/
structure WellFormed (tree : FileTree) : Prop where
  nodup : (tree.entries.map Prod.fst).Nodup
  around : ∀ e ∈ tree.entries, tree.entry? e.1.dropLast = some .directory

lemma entry?_eq_lookup (hne : place ≠ []) : tree.entry? place = tree.entries.lookup place :=
  if_neg (by simpa using hne)

/-- What a list has for a key, if no key is there twice. -/
lemma lookup_eq_some_iff_mem {entries : List (Place × Entry)} (h : (entries.map Prod.fst).Nodup) :
    entries.lookup place = some entry ↔ (place, entry) ∈ entries := by
  rw [List.lookup_eq_some_iff]
  constructor
  · rintro ⟨before, after, rfl, -⟩
    exact List.mem_append_right before List.mem_cons_self
  · intro hmem
    obtain ⟨before, after, rfl⟩ := List.append_of_mem hmem
    refine ⟨before, after, rfl, fun other hother => ?_⟩
    rw [List.map_append, List.map_cons, List.nodup_append] at h
    exact bne_iff_ne.mpr
      (h.2.2 other.1 (List.mem_map_of_mem hother) place List.mem_cons_self).symm

namespace WellFormed

variable (h : tree.WellFormed)
include h

lemma mem_entries_iff (hne : place ≠ []) :
    (place, entry) ∈ tree.entries ↔ tree.entry? place = some entry := by
  rw [entry?_eq_lookup hne, lookup_eq_some_iff_mem h.nodup]

/-- An entry stands in a directory. -/
lemma entry?_dropLast (hentry : tree.entry? place = some entry) :
    tree.entry? place.dropLast = some .directory := by
  by_cases hne : place = []
  · rw [hne]
    rfl
  · exact h.around _ ((h.mem_entries_iff hne).mpr hentry)

/-- **Directories stand all the way** to an entry. -/
theorem directory_of_append (hne : back ≠ [])
    (hentry : tree.entry? (front ++ back) = some entry) :
    tree.entry? front = some .directory := by
  induction back using List.reverseRecOn generalizing entry with
  | nil => exact absurd rfl hne
  | append_singleton back name ih =>
      have hback : tree.entry? (front ++ back) = some .directory := by
        have hlast := h.entry?_dropLast hentry
        rwa [← List.append_assoc, List.dropLast_concat] at hlast
      by_cases hempty : back = []
      · rwa [hempty, List.append_nil] at hback
      · exact ih hempty hback

end WellFormed

/-! ### Operations -/

lemma wellFormed_empty : WellFormed {} := ⟨List.nodup_nil, fun _ h => nomatch h⟩

/-- The places of a tree with an entry at a place. -/
lemma places_set (tree : FileTree) (place : Place) (entry : Entry) :
    (tree.set place entry).entries.map Prod.fst = tree.entries.map Prod.fst
      ∨ place ∉ tree.entries.map Prod.fst
        ∧ (tree.set place entry).entries.map Prod.fst = tree.entries.map Prod.fst ++ [place] := by
  unfold set
  split_ifs with hthere
  · left
    rw [List.map_map]
    refine List.map_congr_left fun e _ => ?_
    simp only [Function.comp]
    split_ifs <;> rfl
  · right
    rw [Option.not_isSome_iff_eq_none, List.lookup_eq_none_iff] at hthere
    refine ⟨fun hmem => ?_, by rw [List.map_append]; rfl⟩
    obtain ⟨e, he, rfl⟩ := List.mem_map.mp hmem
    simpa using hthere e he

namespace WellFormed

variable (h : tree.WellFormed)
include h

/-- An entry may be put into a directory, in the place of what is none. -/
lemma set (nodirectory : tree.entry? place ≠ some .directory)
    (around : tree.entry? place.dropLast = some .directory) (entry : Entry) :
    (tree.set place entry).WellFormed := by
  have hroot : place ≠ [] := ne_root_of_not_directory nodirectory
  -- a directory that was there is not the place
  have hkept : ∀ other : Place, tree.entry? other = some .directory →
      FileTree.entry? (tree.set place entry) other = some .directory := by
    intro other hother
    rw [entry?_set hroot, if_neg, hother]
    rintro rfl
    exact nodirectory hother
  have hmem : ∀ e ∈ (tree.set place entry).entries,
      e.1 ∈ tree.entries.map Prod.fst ∨ e.1 = place := by
    intro e he
    have hfst := List.mem_map_of_mem (f := Prod.fst) he
    obtain hplaces | ⟨-, hplaces⟩ := places_set tree place entry
    · exact .inl (hplaces ▸ hfst)
    · rwa [hplaces, List.mem_append, List.mem_singleton] at hfst
  refine ⟨?_, fun e he => hkept _ ?_⟩
  · obtain hplaces | ⟨hfresh, hplaces⟩ := places_set tree place entry
    · rw [hplaces]
      exact h.nodup
    · rw [hplaces]
      exact List.nodup_append.mpr ⟨h.nodup, List.nodup_singleton place, by
        rintro other hother _ hsingle rfl
        exact hfresh (List.mem_singleton.mp hsingle ▸ hother)⟩
  · obtain hold | hnew := hmem e he
    · obtain ⟨e', he', hfst⟩ := List.mem_map.mp hold
      rw [← hfst]
      exact h.around e' he'
    · rwa [hnew]

/-- **A walk arrives in a directory**: around the place there is one. -/
theorem around_of_leads {wanted : Target} {links : Nat} {here : Place}
    (hleads : tree.Leads wanted links here names place) (hhere : (tree.entry? here).isSome) :
    tree.entry? place.dropLast = some .directory := by
  have hthere : ∀ {place entry}, tree.entry? place = some entry → (tree.entry? place).isSome :=
    fun hentry => by rw [hentry]; rfl
  induction hleads with
  | stop =>
      obtain ⟨entry, hentry⟩ := Option.isSome_iff_exists.mp hhere
      exact h.entry?_dropLast hentry
  | stay _ _ ih => exact ih hhere
  | up around _ ih => exact ih (hthere (h.entry?_dropLast around))
  | fresh around _ _ => rwa [List.dropLast_concat]
  | atLink around _ _ _ => rwa [List.dropLast_concat]
  | through around _ _ _ _ ih =>
      refine ih ?_
      unfold start
      split_ifs
      · rfl
      · exact hhere
  | into _ _ there _ _ ih => exact ih (hthere there)

lemma around_of_follow {wanted : Target} (hfollow : tree.follow path wanted = .ok place) :
    tree.entry? place.dropLast = some .directory :=
  h.around_of_leads (follow_eq_ok_iff.mp hfollow).2 rfl

/-- **Writing** keeps a tree well formed. -/
theorem write (hwrite : tree.write path text = .ok tree') : tree'.WellFormed := by
  obtain ⟨place, hplace, hset⟩ := exists_of_bind_ok hwrite
  split at hset
  · cases hset
  · next nodirectory =>
      rw [← Except.ok.inj hset]
      exact h.set nodirectory (h.around_of_follow (follow_of_placeToWrite hplace)) _

/-- **Appending** keeps a tree well formed. -/
theorem append (happend : tree.append path text = .ok tree') : tree'.WellFormed := by
  obtain ⟨place, hplace, hset⟩ := exists_of_bind_ok happend
  have haround := h.around_of_follow (follow_of_placeToWrite hplace)
  split at hset
  · cases hset
  · next contents hfile =>
      rw [← Except.ok.inj hset]
      exact h.set (by simp [hfile]) haround _
  · next nodirectory _ =>
      rw [← Except.ok.inj hset]
      exact h.set nodirectory haround _

lemma createDirectory (hmake : tree.createDirectory names = .ok tree') : tree'.WellFormed := by
  obtain ⟨place, hplace, hset⟩ := exists_of_bind_ok hmake
  split at hset
  · cases hset
  · next free =>
      rw [← Except.ok.inj hset]
      exact h.set (by simp [free]) (h.around_of_leads (walk_eq_ok_iff.mp hplace) rfl) _

/-- **Making directories** keeps a tree well formed, also where it ends in a fault. -/
theorem createDirectories (path : Path) : (tree.createDirectories path).1.WellFormed :=
  createDirectories_induction (R := fun tree tree' => tree.WellFormed → tree'.WellFormed)
    (fun _ h => h) (fun h h' hw => h' (h hw)) (fun hmake hw => hw.createDirectory hmake) tree path h

end WellFormed

end Directives.FileTree
