/-
The index of a registry.

An index is exact when it leads from every key to the place of its item and knows no
other keys. Insertions keep it exact: taking an item out lowers the places behind it and
no others, and the new item gets the place behind all that are left. With an exact index
a registry never looks at a place where no item stands, and answers as one that walks
over its items.

* `Indexed.Exact`: the index leads to the items.
* `Exact.nodup_keys`, `Exact.lt_length`: what an exact index tells about the items.
* `Exact.push`, `Exact.remove`, `Exact.insert`: one insertion.
* `Exact.item?_eq`, `Exact.contains_eq`: look-ups.
* `Exact.insertAll`, `Indexed.insertAll_spec`: insertions one after another.
-/
import Directives.Proofs.Registry
import Directives.Registry.Indexed

namespace Directives.Registry

variable {α : Type} [Keyed α]

/-- Where keys are there once, taking out the item in the place of a key is dropping the
items of the key. -/
lemma eraseIdx_eq_filter {items : List α} {key : Text} {gap : Nat}
    (once : (items.map Keyed.key).Nodup) (hgap : (items.map Keyed.key)[gap]? = some key) :
    items.eraseIdx gap = items.filter (Keyed.key · != key) := by
  induction items generalizing gap with
  | nil => rfl
  | cons first rest ih =>
      obtain ⟨hfirst, hrest⟩ := List.nodup_cons.mp once
      cases gap with
      | zero =>
          obtain rfl : Keyed.key first = key := by simpa using hgap
          have hothers : rest.filter (Keyed.key · != Keyed.key first) = rest := by
            refine List.filter_eq_self.mpr fun other hother => ?_
            have hne : Keyed.key other ≠ Keyed.key first := fun heq =>
              hfirst (List.mem_map.mpr ⟨other, hother, heq⟩)
            simpa using hne
          rw [List.eraseIdx_cons_zero, List.filter_cons_of_neg (by simp), hothers]
      | succ gap =>
          have hgap : (rest.map Keyed.key)[gap]? = some key := by simpa using hgap
          have hne : Keyed.key first ≠ key := fun heq =>
            hfirst (heq ▸ List.mem_of_getElem? hgap)
          rw [List.eraseIdx_cons_succ, List.filter_cons_of_pos (by simpa using hne), ih hrest hgap]

namespace Indexed

variable {r : Indexed α}

/-- The index leads from each key to the place of its item, and nowhere else. -/
structure Exact (r : Indexed α) : Prop where
  places : ∀ (key : Text) (place : Nat), r.places[key]? = some place ↔ r.keys[place]? = some key

namespace Exact

/-- Nothing is indexed before the first insertion. -/
lemma new : Exact ({} : Indexed α) := ⟨by simp [keys, plain, Registry.keys]⟩

/-! ### What an exact index tells -/

/-- No two items have one key, as the index would have to lead to both. -/
lemma nodup_keys (h : r.Exact) : r.keys.Nodup := by
  refine List.nodup_iff_getElem?_ne_getElem?.mpr fun i j hij hj heq => ?_
  have hkey : r.keys[j]? = some r.keys[j] := List.getElem?_eq_getElem hj
  have hfirst := (h.places _ i).mpr (heq.trans hkey)
  have hsecond := (h.places _ j).mpr hkey
  have hplaces : i = j := Option.some.inj (hfirst.symm.trans hsecond)
  omega

/-- An indexed place is the place of an item. -/
lemma lt_length (h : r.Exact) {key : Text} {place : Nat} (hplace : r.places[key]? = some place) :
    place < r.items.length := by
  have hkey := (h.places key place).mp hplace
  have hlt := (List.getElem?_eq_some_iff.mp hkey).1
  rwa [keys, Registry.keys, List.length_map] at hlt

/-- The indexed keys are those of the items. -/
lemma mem_keys_iff (h : r.Exact) {key : Text} :
    key ∈ r.keys ↔ ∃ place, r.places[key]? = some place := by
  rw [List.mem_iff_getElem?]
  exact exists_congr fun place => (h.places key place).symm

/-! ### One insertion -/

/-- An item under a new key gets the place behind all others. -/
lemma push (h : r.Exact) {item : α} (hnew : Keyed.key item ∉ r.keys) : (r.push item).Exact := by
  refine ⟨fun key place => ?_⟩
  have hkeys : (r.push item).keys = r.keys ++ [Keyed.key item] := List.map_append
  have hlength : r.items.length = r.keys.length := (List.length_map _).symm
  have hold := h.places key place
  rw [hkeys, Indexed.push, Std.HashMap.getElem?_insert, hlength, List.getElem?_append]
  by_cases hkey : Keyed.key item = key
  · subst hkey
    have hnone : r.keys[place]? ≠ some (Keyed.key item) := fun hplace =>
      hnew (List.mem_of_getElem? hplace)
    grind
  · grind

/-- Which place comes to be `place` when the item at `gap` is taken out. -/
lemma lowered_eq_iff {gap old place : Nat} (hgap : old ≠ gap) :
    lowered gap old = place ↔ old = if place < gap then place else place + 1 := by
  rw [lowered]
  split_ifs <;> omega

/-- Taking an item out of its place lowers the places behind it. -/
lemma remove (h : r.Exact) {key : Text} {gap : Nat} (hgap : r.places[key]? = some gap) :
    ∃ rest, r.remove? key gap = some rest ∧ rest.Exact
      ∧ rest.plain = ⟨r.items.filter (Keyed.key · != key)⟩ := by
  have hat : r.keys[gap]? = some key := (h.places key gap).mp hgap
  refine ⟨_, if_pos (h.lt_length hgap), ⟨fun other place => ?_⟩,
    congrArg Registry.mk (eraseIdx_eq_filter h.nodup_keys hat)⟩
  -- The key that is looked up next stood at this place before.
  have hback : ((r.items.eraseIdx gap).map Keyed.key)[place]?
      = r.keys[if place < gap then place else place + 1]? := by
    rw [← List.eraseIdx_map, List.getElem?_eraseIdx]
    split_ifs <;> rfl
  rw [Std.HashMap.getElem?_map, Std.HashMap.getElem?_erase, keys, Registry.keys, plain, hback,
    ← h.places]
  by_cases hother : key = other
  · subst hother
    have hmoved : (if place < gap then place else place + 1) ≠ gap := by
      split_ifs <;> omega
    rw [if_pos (by simp), hgap, Option.some_inj]
    simpa using hmoved.symm
  · rw [if_neg (by simpa using hother), Option.map_eq_some_iff]
    have hmoved : ∀ {old : Nat}, r.places[other]? = some old → old ≠ gap := by
      rintro old hold rfl
      have hkey := (h.places other old).mp hold
      exact hother (Option.some.inj (hat.symm.trans hkey))
    constructor
    · rintro ⟨old, hold, hplace⟩
      rw [(lowered_eq_iff (hmoved hold)).mp hplace] at hold
      exact hold
    · exact fun hold => ⟨_, hold, (lowered_eq_iff (hmoved hold)).mpr rfl⟩

/-- **One insertion** looks at no place without an item, keeps the index exact, tells
whether the key had an item, and does to the items what it does without an index. -/
theorem insert (h : r.Exact) (item : α) :
    ∃ next, r.insert? item = some (next, decide (Keyed.key item ∈ r.keys)) ∧ next.Exact
      ∧ next.plain = r.plain.insert item := by
  by_cases hkey : Keyed.key item ∈ r.keys
  · obtain ⟨gap, hgap⟩ := h.mem_keys_iff.mp hkey
    obtain ⟨rest, hremove, hrest, hplain⟩ := h.remove hgap
    have hnew : Keyed.key item ∉ rest.keys := by
      rw [keys, hplain]
      simp [Registry.keys]
    refine ⟨rest.push item, ?_, hrest.push hnew, ?_⟩
    · rw [insert?, hgap]
      simp [hremove, hkey]
    · have hitems := congrArg Registry.items hplain
      exact congrArg (fun items => Registry.mk (items ++ [item])) hitems
  · have hnone : r.places[Keyed.key item]? = none :=
      Option.eq_none_iff_forall_ne_some.mpr fun place hplace =>
        hkey (h.mem_keys_iff.mpr ⟨place, hplace⟩)
    refine ⟨r.push item, ?_, h.push hkey, congrArg Registry.mk (items_insert hkey).symm⟩
    rw [insert?, hnone]
    simp [hkey]

/-! ### Look-ups -/

/-- The index leads to the item that a walk over the items comes to. -/
lemma item?_eq (h : r.Exact) (key : Text) : r.item? key = some (r.plain.get? key) := by
  rw [Indexed.item?]
  cases hplace : r.places[key]? with
  | none =>
      have hkey : key ∉ r.keys := fun hmem => by
        obtain ⟨place, hsome⟩ := h.mem_keys_iff.mp hmem
        exact absurd (hplace.symm.trans hsome) (by simp)
      rw [get?_eq_none_iff.mpr hkey]
  | some place =>
      have hkey := (h.places key place).mp hplace
      rw [keys, Registry.keys, List.getElem?_map, Option.map_eq_some_iff] at hkey
      obtain ⟨item, hitem, rfl⟩ := hkey
      have hitem : r.items[place]? = some item := hitem
      have hfound : r.plain.get? (Keyed.key item) = some item :=
        get?_of_mem h.nodup_keys (List.mem_of_getElem? hitem)
      simp only [hitem, hfound, Option.map_some]

lemma contains_eq (h : r.Exact) (key : Text) : r.contains key = decide (key ∈ r.keys) := by
  rw [Indexed.contains, Std.HashMap.contains_eq_isSome_getElem?, Bool.eq_iff_iff,
    Option.isSome_iff_exists, decide_eq_true_iff, h.mem_keys_iff]

end Exact

/-! ### Insertions one after another -/

lemma insertAll?_concat (items : List α) (item : α) :
    r.insertAll? (items ++ [item])
      = (r.insertAll? items).bind fun next => (next.insert? item).map Prod.fst := by
  induction items generalizing r with
  | nil => cases h : r.insert? item <;> simp [insertAll?, h]
  | cons first rest ih =>
      rw [List.cons_append, insertAll?, insertAll?, Option.bind_assoc]
      exact congrArg _ (funext fun next => ih)

/-- Insertions one after another keep the index exact. -/
lemma Exact.insertAll (h : r.Exact) (items : List α) :
    ∃ next, r.insertAll? items = some next ∧ next.Exact
      ∧ next.plain = r.plain.insertAll items := by
  induction items generalizing r with
  | nil => exact ⟨r, rfl, h, rfl⟩
  | cons item rest ih =>
      obtain ⟨next, hnext, hexact, hplain⟩ := h.insert item
      obtain ⟨last, hlast, hlastExact, hlastPlain⟩ := ih hexact
      refine ⟨last, ?_, hlastExact, ?_⟩
      · rw [insertAll?, hnext]
        exact hlast
      · rw [hlastPlain, hplain]
        rfl

/-- Lowering a place takes one off a place that is not the first. -/
lemma lowered_add_one {gap place : Nat} (h : gap < place) : lowered gap place + 1 = place := by
  rw [lowered, if_pos h]
  omega

/-- **A registry and its index stay in step** through any insertions on an empty registry:
none of them takes an item out of a place where no item stands or lowers the first place.
No key is there twice, and the index leads from each key to the place of its item and
knows no other keys. The items are the last inserted ones of their keys in the order of
their insertion, which is what a registry without an index holds, and look-ups find
these. The next insertion tells whether its key was inserted before. -/
theorem insertAll_spec (items : List α) :
    ∃ r : Indexed α, insertAll? {} items = some r
      ∧ (r.items.map Keyed.key).Nodup
      ∧ (∀ (key : Text) (place : Nat),
          r.places[key]? = some place ↔ r.items[place]?.map Keyed.key = some key)
      ∧ (∀ (key : Text) (place : Nat), r.places[key]? = some place →
          place < r.items.length ∧ ∀ gap, gap < place → lowered gap place + 1 = place)
      ∧ r.items = latest items
      ∧ r.plain = Registry.insertAll {} items
      ∧ (∀ key, r.item? key = some (r.items.find? (Keyed.key · == key))
          ∧ r.contains key = decide (key ∈ r.items.map Keyed.key))
      ∧ ∀ item, ∃ next, r.insert? item = some (next, decide (Keyed.key item ∈ items.map Keyed.key))
          ∧ insertAll? {} (items ++ [item]) = some next := by
  obtain ⟨r, hr, hexact, hplain⟩ := (Exact.new (α := α)).insertAll items
  have hinserted : ∀ key, key ∈ r.keys ↔ key ∈ items.map Keyed.key := fun key => by
    rw [keys, hplain, mem_keys_insertAll]
    simp [plain, Registry.keys]
  refine ⟨r, hr, hexact.nodup_keys, fun key place => ?_,
    fun key place hplace => ⟨hexact.lt_length hplace, fun gap => lowered_add_one⟩, ?_, hplain,
    fun key => ⟨hexact.item?_eq key, hexact.contains_eq key⟩, fun item => ?_⟩
  · rw [hexact.places, keys, Registry.keys, List.getElem?_map, plain]
  · exact (congrArg Registry.items hplain).trans (items_insertAll items)
  · obtain ⟨next, hnext, -, -⟩ := hexact.insert item
    refine ⟨next, ?_, ?_⟩
    · simpa only [hinserted] using hnext
    · rw [insertAll?_concat, hr, Option.bind_some, hnext, Option.map_some]

end Indexed

end Directives.Registry
