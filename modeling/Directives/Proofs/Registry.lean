/-
Keys of registries.

* `Registry.contains_iff`, `Registry.get?_of_mem`, `Registry.get?_insert`: what look-ups find.
* `Registry.mem_keys_insert`: an insertion adds its key and loses none.
* `Registry.keys_insert`, `Registry.nodup_keys_insert`: no key is there twice.
* `Registry.items_insert`: an item under a new key goes to the end, and all other
  items stay where they are.
* `Registry.size_insert`: how many items there are after an insertion.
* `Registry.insertAll`, `Registry.latest`, `Registry.items_insertAll`: what is left of
  insertions one after another.
* `Registry.map_latest_congr`: which items are left depends on the keys.
* `Registry.restrict`: the items of some keys; `restrict_insert` and
  `restrict_insert_of_dropped` say what an insertion makes of them.
-/
import Mathlib.Tactic
import Directives.Registry

namespace Directives.Registry

variable {α : Type} [Keyed α] {r : Registry α} {item : α}

lemma contains_iff {key : Text} : r.contains key = true ↔ key ∈ r.keys := by
  simp [contains, keys]

lemma get?_eq_none_iff {key : Text} : r.get? key = none ↔ key ∉ r.keys := by
  simp [get?, keys]

/-- Where no key is there twice, look-ups find every item under its key. -/
lemma get?_of_mem (once : r.keys.Nodup) (hitem : item ∈ r.items) :
    r.get? (Keyed.key item) = some item := by
  cases hfound : r.get? (Keyed.key item) with
  | none => exact absurd (List.mem_map_of_mem hitem) (get?_eq_none_iff.mp hfound)
  | some other =>
      have hkey : Keyed.key other = Keyed.key item := by simpa using List.find?_some hfound
      have hother : other ∈ r.items := List.mem_of_find?_eq_some hfound
      rw [List.inj_on_of_nodup_map once hother hitem hkey]

/-- The inserted item is found under its key. -/
lemma get?_insert (r : Registry α) (item : α) :
    (r.insert item).get? (Keyed.key item) = some item := by
  have hothers : (r.items.filter (Keyed.key · != Keyed.key item)).find?
      (Keyed.key · == Keyed.key item) = none := by
    rw [List.find?_eq_none]
    intro other hother
    simpa using (List.mem_filter.mp hother).2
  rw [insert, get?, List.find?_append, hothers, Option.none_or, List.find?_singleton,
    if_pos (beq_self_eq_true _)]

/-- An insertion adds its key and loses none. -/
lemma mem_keys_insert {key : Text} :
    key ∈ (r.insert item).keys ↔ key = Keyed.key item ∨ key ∈ r.keys := by
  by_cases h : key = Keyed.key item
  · simp [insert, keys, h]
  · simp only [insert, keys, List.map_append, List.mem_append, List.mem_map, List.mem_filter,
      List.mem_singleton, List.map_cons, List.map_nil, h, or_false, false_or]
    constructor
    · rintro ⟨other, ⟨hother, _⟩, rfl⟩
      exact ⟨other, hother, rfl⟩
    · rintro ⟨other, hother, rfl⟩
      exact ⟨other, ⟨hother, by simpa using h⟩, rfl⟩

/-- An item under a new key goes to the end. -/
lemma items_insert (h : Keyed.key item ∉ r.keys) : (r.insert item).items = r.items ++ [item] := by
  have hkeep : r.items.filter (Keyed.key · != Keyed.key item) = r.items := by
    rw [List.filter_eq_self]
    intro other hother
    have hne : Keyed.key other ≠ Keyed.key item := fun heq =>
      h (List.mem_map.mpr ⟨other, hother, heq⟩)
    simpa using hne
  rw [insert, hkeep]

/-- The key of the inserted item goes to the end. -/
lemma keys_insert :
    (r.insert item).keys = r.keys.filter (· != Keyed.key item) ++ [Keyed.key item] := by
  rw [keys, insert, List.map_append, List.map_singleton, keys, List.filter_map]
  rfl

/-- An insertion leaves no key twice. -/
lemma nodup_keys_insert (h : r.keys.Nodup) : (r.insert item).keys.Nodup := by
  rw [keys_insert, ← List.concat_eq_append]
  exact (h.filter _).concat (by simp)

/-- An insertion adds an item, unless it drops another. -/
lemma size_insert (h : r.keys.Nodup) (item : α) :
    (r.insert item).size + (if r.contains (Keyed.key item) then 1 else 0) = r.size + 1 := by
  have hsize : ∀ s : Registry α, s.size = s.keys.length := fun s => (List.length_map _).symm
  simp only [contains_iff]
  rw [hsize, hsize, keys_insert, ← h.erase_eq_filter, List.length_append, List.length_singleton,
    List.length_erase]
  split_ifs with hmem
  · have hpos := List.length_pos_of_mem hmem
    omega
  · omega

/-! ### Insertions one after another -/

/-- Inserts items in order. -/
def insertAll (r : Registry α) (items : List α) : Registry α := items.foldl insert r

lemma insertAll_concat (items : List α) :
    r.insertAll (items ++ [item]) = (r.insertAll items).insert item := by
  rw [insertAll, List.foldl_concat, insertAll]

lemma insertAll_append (before after : List α) :
    r.insertAll (before ++ after) = (r.insertAll before).insertAll after := List.foldl_append

lemma mem_keys_insertAll {items : List α} {key : Text} :
    key ∈ (r.insertAll items).keys ↔ key ∈ r.keys ∨ key ∈ items.map Keyed.key := by
  induction items generalizing r with
  | nil => simp [insertAll]
  | cons first rest ih =>
      have hrest : key ∈ (r.insertAll (first :: rest)).keys
          ↔ key ∈ (r.insert first).keys ∨ key ∈ rest.map Keyed.key := ih
      rw [hrest, mem_keys_insert, List.map_cons, List.mem_cons]
      tauto

/-- The last item of each key in a list, in the order of the list. -/
def latest : List α → List α
  | [] => []
  | item :: later =>
      if later.any (Keyed.key · == Keyed.key item) then latest later else item :: latest later

/-- One more item is the last of its key, and the one that was the last before is not. -/
lemma latest_concat (items : List α) :
    latest (items ++ [item])
      = (latest items).filter (Keyed.key · != Keyed.key item) ++ [item] := by
  induction items with
  | nil => simp [latest]
  | cons first rest ih =>
      have hany : (rest ++ [item]).any (Keyed.key · == Keyed.key first)
          = (rest.any (Keyed.key · == Keyed.key first) || Keyed.key item == Keyed.key first) := by
        simp
      rw [List.cons_append, latest, hany, ih, latest]
      by_cases hlater : rest.any (Keyed.key · == Keyed.key first) = true
      · rw [hlater, Bool.true_or, if_pos rfl, if_pos rfl]
      · rw [if_neg hlater, Bool.eq_false_iff.mpr hlater, Bool.false_or]
        by_cases hitem : Keyed.key item = Keyed.key first
        · rw [if_pos (by simp [hitem]), List.filter_cons_of_neg (by simp [hitem])]
        · rw [if_neg (by simpa using hitem),
            List.filter_cons_of_pos (by simpa using Ne.symm hitem), List.cons_append]

/-- **The items of a registry** are the last inserted ones of their keys, each in the
place of its insertion. -/
theorem items_insertAll (items : List α) :
    (insertAll {} items).items = latest items := by
  induction items using List.reverseRecOn with
  | nil => rfl
  | append_singleton rest last ih => rw [insertAll_concat, insert, ih, latest_concat]

/-- What is read off items, their keys among it, says which of them are the last of their
keys. -/
lemma map_latest_congr {β : Type} {read : α → β} {keyOf : β → Text}
    (hkey : ∀ item, keyOf (read item) = Keyed.key item) {items others : List α}
    (h : items.map read = others.map read) : (latest items).map read = (latest others).map read := by
  induction items generalizing others with
  | nil =>
      rw [List.map_nil, eq_comm, List.map_eq_nil_iff] at h
      rw [h]
  | cons item later ih =>
      obtain ⟨other, rest, rfl, hread, hrest⟩ := List.map_eq_cons_iff.mp h.symm
      have hany : later.any (Keyed.key · == Keyed.key item)
          = rest.any (Keyed.key · == Keyed.key other) := by
        have hlater : (later.map read).any (keyOf · == keyOf (read item))
            = (rest.map read).any (keyOf · == keyOf (read other)) := by rw [hread, hrest]
        simpa only [List.any_map, Function.comp_def, hkey] using hlater
      rw [latest, latest, hany]
      split_ifs
      · exact ih hrest.symm
      · rw [List.map_cons, List.map_cons, hread, ih hrest.symm]

/-! ### The items of some keys -/

/-- The registry with the items of those keys that are kept. -/
def restrict (keep : Text → Bool) (r : Registry α) : Registry α :=
  ⟨r.items.filter fun item => keep (Keyed.key item)⟩

variable {keep keep' : Text → Bool}

/-- All items are those of all keys. -/
lemma restrict_all : r.restrict (fun _ => true) = r := by
  simp [restrict]

lemma restrict_restrict (h : ∀ key, keep' key = true → keep key = true) :
    (r.restrict keep).restrict keep' = r.restrict keep' := by
  simp only [restrict, List.filter_filter]
  congr 1
  refine List.filter_congr fun item _ => ?_
  cases hitem : keep' (Keyed.key item) with
  | false => rfl
  | true => rw [h _ hitem, Bool.and_self]

/-- An insertion renews the item of its key, so that the one it had before has no
bearing on the result. -/
lemma restrict_insert (h : ∀ key, keep' key = true → key = Keyed.key item ∨ keep key = true) :
    ((r.restrict keep).insert item).restrict keep' = (r.insert item).restrict keep' := by
  simp only [restrict, insert, List.filter_append, List.filter_filter]
  congr 2
  refine List.filter_congr fun other _ => ?_
  cases hother : keep' (Keyed.key other) with
  | false => rfl
  | true =>
      rcases h _ hother with hkey | hkeep
      · simp [hkey]
      · simp [hkeep]

/-- An insertion makes no difference to other keys. -/
lemma restrict_insert_of_dropped (keep : Text → Bool) (dropped : keep (Keyed.key item) = false) :
    (r.insert item).restrict keep = r.restrict keep := by
  have hlast : [item].filter (fun other => keep (Keyed.key other)) = [] := by
    simp [dropped]
  simp only [restrict, insert, List.filter_append, List.filter_filter, hlast, List.append_nil]
  congr 1
  refine List.filter_congr fun other _ => ?_
  by_cases hkey : Keyed.key other = Keyed.key item
  · simp [hkey, dropped]
  · simp [hkey]

end Directives.Registry
