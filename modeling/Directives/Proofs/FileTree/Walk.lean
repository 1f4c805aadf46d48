/-
Following paths while a tree grows.

A run makes directories and puts texts into files, new ones and those that are there.
It takes nothing away and makes no links. So a path that leads to a place still leads
there afterwards, and what stands at a place is changed only by writing to it.

* `entry?_set`: the entries after one was put in its place.
* `Leads`: the steps of a walk that arrives; `walk_eq_ok_iff`.
* `Grows`: from one tree to the next, with the places of the files that may change.
* `Grows.leads`, `Grows.follow`: paths lead where they led.
* `Leads.destination`: a file that can be written is found again.
* `Leads.not_link`: a walk that goes through links arrives at none.
-/
import Mathlib
import Directives.FileTree.Basic

namespace Directives.FileTree

variable {tree tree' tree'' : FileTree} {place : Place}

/-! ### The entries of a tree -/

@[simp] lemma entry?_root (tree : FileTree) : tree.entry? [] = some .directory := rfl

lemma ne_root_of_not_directory (h : tree.entry? place ≠ some .directory) : place ≠ [] := by
  rintro rfl
  exact h rfl

/-- Replacing what a list has for a key. -/
lemma lookup_replace (entries : List (Place × Entry)) (entry : Entry) (other : Place) :
    (entries.map fun (p, e) => if p = place then (p, entry) else (p, e)).lookup other
      = if other = place then (entries.lookup other).map fun _ => entry
        else entries.lookup other := by
  induction entries with
  | nil => simp
  | cons first rest ih =>
      obtain ⟨p, e⟩ := first
      rw [List.map_cons]
      by_cases hother : other = p
      · subst hother
        by_cases hplace : other = place <;> simp [hplace]
      · have hne : (other == p) = false := beq_eq_false_iff_ne.mpr hother
        by_cases hp : p = place
        · simpa [hp, List.lookup_cons, hp ▸ hne] using ih
        · simpa [hp, List.lookup_cons, hne] using ih

/-- An entry in its place is found there, and no other place is changed. -/
lemma entry?_set (proper : place ≠ []) (entry : Entry) (other : Place) :
    FileTree.entry? (tree.set place entry) other
      = if other = place then some entry else tree.entry? other := by
  have hlookup : (tree.set place entry).entries.lookup other
      = if other = place then some entry else tree.entries.lookup other := by
    unfold set
    by_cases hplace : (tree.entries.lookup place).isSome
    · rw [if_pos hplace, lookup_replace]
      obtain ⟨old, hold⟩ := Option.isSome_iff_exists.mp hplace
      split_ifs with h
      · rw [h, hold, Option.map_some]
      · rfl
    · rw [if_neg hplace, List.lookup_append]
      rw [Option.not_isSome_iff_eq_none] at hplace
      split_ifs with h
      · rw [h, hplace]
        simp
      · have hne : (other == place) = false := beq_eq_false_iff_ne.mpr h
        simp [List.lookup_cons, hne]
  cases other with
  | nil => rw [if_neg (Ne.symm proper), entry?_root, entry?_root]
  | cons _ _ => exact hlookup

/-! ### Walks -/

/-- A name that is neither `.` nor `..`, and not too long. -/
def Proper (name : Text) : Prop :=
  name ≠ ['.'] ∧ name ≠ ['.', '.'] ∧ byteCount name ≤ 255

/-- Where the target of a link is followed from. -/
def start (target : Path) (here : Place) : Place :=
  if Path.isAbsolute target then [] else here

/-- A walk from a directory along names that arrives at a place. -/
inductive Leads (tree : FileTree) (wanted : Target) : Nat → Place → List Text → Place → Prop
  | stop {links : Nat} {here : Place} : Leads tree wanted links here [] here
  | stay {links : Nat} {here place : Place} {rest : List Text}
      (around : tree.entry? here = some .directory)
      (on : Leads tree wanted links here rest place) :
      Leads tree wanted links here (['.'] :: rest) place
  | up {links : Nat} {here place : Place} {rest : List Text}
      (around : tree.entry? here = some .directory)
      (on : Leads tree wanted links here.dropLast rest place) :
      Leads tree wanted links here (['.', '.'] :: rest) place
  /-- Nothing is there yet. -/
  | fresh {links : Nat} {here : Place} {name : Text}
      (around : tree.entry? here = some .directory) (proper : Proper name)
      (free : tree.entry? (here ++ [name]) = none) :
      Leads tree wanted links here [name] (here ++ [name])
  /-- The link itself is wanted. -/
  | atLink {links : Nat} {here : Place} {name : Text} {target : Path}
      (around : tree.entry? here = some .directory) (proper : Proper name)
      (link : tree.entry? (here ++ [name]) = some (.link target)) (itself : wanted = .entry) :
      Leads tree wanted links here [name] (here ++ [name])
  | through {links : Nat} {here place : Place} {name : Text} {rest : List Text} {target : Path}
      (around : tree.entry? here = some .directory) (proper : Proper name)
      (link : tree.entry? (here ++ [name]) = some (.link target))
      (beyond : rest = [] → wanted ≠ .entry ∧ (wanted = .file → ¬ Path.endsInSlash target))
      (on : Leads tree wanted links (start target here) (Path.components target ++ rest) place) :
      Leads tree wanted (links + 1) here (name :: rest) place
  | into {links : Nat} {here place : Place} {name : Text} {rest : List Text} {entry : Entry}
      (around : tree.entry? here = some .directory) (proper : Proper name)
      (there : tree.entry? (here ++ [name]) = some entry)
      (nolink : ∀ target, entry ≠ .link target)
      (on : Leads tree wanted links (here ++ [name]) rest place) :
      Leads tree wanted links here (name :: rest) place

variable {wanted : Target} {links : Nat} {here : Place} {names : List Text}

lemma Leads.walk (h : tree.Leads wanted links here names place) :
    tree.walk wanted links here names = .ok place := by
  induction h with
  | stop => rw [FileTree.walk]
  | stay around _ ih => rw [FileTree.walk]; simp [around, ih]
  | up around _ ih => rw [FileTree.walk]; simp [around, ih]
  | fresh around proper free =>
      obtain ⟨hdot, hdots, hlength⟩ := proper
      rw [FileTree.walk]; simp [around, hdot, hdots, hlength, free]
  | atLink around proper link itself =>
      obtain ⟨hdot, hdots, hlength⟩ := proper
      rw [FileTree.walk]; simp [around, hdot, hdots, hlength, link, itself]
  | @through links here place name rest target around proper link beyond _ ih =>
      obtain ⟨hdot, hdots, hlength⟩ := proper
      have hentry : (rest.isEmpty && decide (wanted = .entry)) = false := by
        cases rest with
        | nil => simp [(beyond rfl).1]
        | cons _ _ => rfl
      have hfile :
          (rest.isEmpty && decide (wanted = .file) && Path.endsInSlash target) = false := by
        cases rest with
        | nil => simpa using (beyond rfl).2
        | cons _ _ => rfl
      rw [FileTree.walk]
      simp only [around, bne_self_eq_false, Bool.false_eq_true, if_false, hdot, hdots,
        Nat.not_lt.mpr hlength, link, hentry, hfile]
      exact ih
  | @into links here place name rest entry around proper there nolink _ ih =>
      obtain ⟨hdot, hdots, hlength⟩ := proper
      rw [FileTree.walk]
      cases entry with
      | link target => exact absurd rfl (nolink target)
      | file contents => simp [around, hdot, hdots, Nat.not_lt.mpr hlength, there, ih]
      | directory => simp [around, hdot, hdots, Nat.not_lt.mpr hlength, there, ih]

lemma leads_of_walk : tree.walk wanted links here names = .ok place →
    tree.Leads wanted links here names place := by
  fun_induction FileTree.walk tree wanted links here names with
  | case1 =>
      rintro ⟨⟩
      exact .stop
  | case3 _ _ _ _ around ih =>
      intro h
      exact .stay (by simpa using around) (ih h)
  | case4 _ _ _ _ around _ ih =>
      intro h
      exact .up (by simpa using around) (ih h)
  | case6 _ _ _ _ _ around hdot hdots hlength _ free last =>
      intro h
      obtain rfl := List.isEmpty_iff.mp last
      rw [← Except.ok.inj h]
      exact .fresh (by simpa using around) ⟨hdot, hdots, Nat.not_lt.mp hlength⟩ free
  | case8 _ _ _ _ _ around hdot hdots hlength _ target link itself =>
      intro h
      obtain ⟨rfl, rfl⟩ : _ = [] ∧ _ = Target.entry := by simpa using itself
      rw [← Except.ok.inj h]
      exact .atLink (by simpa using around) ⟨hdot, hdots, Nat.not_lt.mp hlength⟩ link rfl
  | case12 _ _ _ _ around hdot hdots hlength _ target link hentry _ _ hfile ih =>
      intro h
      refine .through (by simpa using around) ⟨hdot, hdots, Nat.not_lt.mp hlength⟩ link ?_ (ih h)
      rintro rfl
      simpa using And.intro hentry hfile
  | case13 _ _ _ _ _ around hdot hdots hlength _ entry nolink there ih =>
      intro h
      exact .into (by simpa using around) ⟨hdot, hdots, Nat.not_lt.mp hlength⟩ there
        (fun target heq => nolink target heq) (ih h)
  -- The others end in a fault, also where a link to be written through ends in a slash.
  | _ => intro h; cases h

/-- A walk arrives by steps. -/
lemma walk_eq_ok_iff : tree.walk wanted links here names = .ok place
    ↔ tree.Leads wanted links here names place :=
  ⟨leads_of_walk, Leads.walk⟩

lemma follow_eq_ok_iff {path : Path} : tree.follow path wanted = .ok place
    ↔ pathFault? path = none ∧ tree.Leads wanted maxLinks [] (Path.components path) place := by
  unfold follow
  cases pathFault? path with
  | some fault => simp
  | none => simpa using walk_eq_ok_iff

/-- Where a file can be written it is found. -/
lemma Leads.destination (h : tree.Leads .file links here names place) :
    tree.Leads .destination links here names place := by
  induction h with
  | stop => exact .stop
  | stay around _ ih => exact .stay around ih
  | up around _ ih => exact .up around ih
  | fresh around proper free => exact .fresh around proper free
  | atLink around proper link itself => cases itself
  | through around proper link _ _ ih => exact .through around proper link (by simp) ih
  | into around proper there nolink _ ih => exact .into around proper there nolink ih

/-- No link stands at a place or on the way there. -/
def Unlinked (tree : FileTree) (place : Place) : Prop :=
  ∀ around, around <+: place → ∀ target, tree.entry? around ≠ some (.link target)

lemma unlinked_root (tree : FileTree) : tree.Unlinked [] := by
  intro around hprefix target
  rw [List.prefix_nil.mp hprefix]
  simp

/-- **A walk** that does not want links arrives at none. -/
theorem Leads.not_link (h : tree.Leads wanted links here names place) (beyond : wanted ≠ .entry)
    (unlinked : tree.Unlinked here) (target : Path) :
    tree.entry? place ≠ some (.link target) := by
  induction h with
  | stop => exact unlinked _ (List.prefix_refl _) target
  | stay _ _ ih => exact ih unlinked
  -- The directory around a place is on the way to it.
  | up _ _ ih => exact ih fun around h => unlinked around (h.trans (List.dropLast_prefix _))
  | fresh _ _ free => simp [free]
  | atLink _ _ _ itself => exact absurd itself beyond
  | @through _ here _ _ _ target' _ _ _ _ _ ih =>
      refine ih ?_
      unfold start
      split_ifs
      · exact tree.unlinked_root
      · exact unlinked
  | into _ _ there nolink _ ih =>
      refine ih fun around h target => ?_
      obtain rfl | h := List.prefix_concat_iff.mp h
      · rw [there]
        exact fun heq => nolink target (Option.some.inj heq)
      · exact unlinked around h target

/-! ### Growth -/

/-- What stands in a tree stands in the next, but for files at some places, which hold
something else. No link is new. -/
structure Grows (changed : Place → Prop) (tree tree' : FileTree) : Prop where
  kept : ∀ place entry, tree.entry? place = some entry →
    tree'.entry? place = some entry
      ∨ changed place ∧ (∃ contents, entry = .file contents)
        ∧ ∃ contents, tree'.entry? place = some (.file contents)
  links : ∀ place target, tree'.entry? place = some (.link target) →
    tree.entry? place = some (.link target)

namespace Grows

variable {changed changed' : Place → Prop}

lemma refl (tree : FileTree) : Grows changed tree tree :=
  ⟨fun _ _ h => .inl h, fun _ _ h => h⟩

lemma mono (h : Grows changed tree tree') (more : ∀ place, changed place → changed' place) :
    Grows changed' tree tree' := by
  refine ⟨fun place entry hentry => ?_, h.links⟩
  exact (h.kept place entry hentry).imp_right (And.imp_left (more place))

lemma trans (h : Grows changed tree tree') (h' : Grows changed tree' tree'') :
    Grows changed tree tree'' := by
  refine ⟨fun place entry hentry => ?_, fun place target hlink =>
    h.links place target (h'.links place target hlink)⟩
  obtain hkept | ⟨hplace, hfile, contents, hfile'⟩ := h.kept place entry hentry
  · exact h'.kept place entry hkept
  · obtain hkept' | ⟨-, -, hfile''⟩ := h'.kept place _ hfile'
    · exact .inr ⟨hplace, hfile, contents, hkept'⟩
    · exact .inr ⟨hplace, hfile, hfile''⟩

/-- What stands at a place that is not changed. -/
lemma unchanged (h : Grows changed tree tree') (hplace : ¬ changed place) {entry : Entry}
    (hentry : tree.entry? place = some entry) : tree'.entry? place = some entry :=
  (h.kept place entry hentry).resolve_right fun h => hplace h.1

/-- Only files hold something else. -/
lemma same (h : Grows changed tree tree') {entry : Entry}
    (nofile : ∀ contents, entry ≠ .file contents) (hentry : tree.entry? place = some entry) :
    tree'.entry? place = some entry :=
  (h.kept place entry hentry).resolve_right fun ⟨_, ⟨contents, hfile⟩, _⟩ =>
    nofile contents hfile

lemma directory (h : Grows changed tree tree') (hentry : tree.entry? place = some .directory) :
    tree'.entry? place = some .directory :=
  h.same nofun hentry

lemma link (h : Grows changed tree tree') {target : Path}
    (hentry : tree.entry? place = some (.link target)) :
    tree'.entry? place = some (.link target) :=
  h.same nofun hentry

/-- What is no link is there still, and no link. -/
lemma nolink (h : Grows changed tree tree') {entry : Entry}
    (nolink : ∀ target, entry ≠ .link target) (hentry : tree.entry? place = some entry) :
    ∃ entry', tree'.entry? place = some entry' ∧ ∀ target, entry' ≠ .link target := by
  obtain hkept | ⟨-, -, contents, hfile⟩ := h.kept place _ hentry
  · exact ⟨entry, hkept, nolink⟩
  · exact ⟨.file contents, hfile, nofun⟩

/-- **Paths lead where they led** before the tree grew. -/
theorem leads (h : Grows changed tree tree') (hleads : tree.Leads wanted links here names place) :
    tree'.Leads wanted links here names place := by
  induction hleads with
  | stop => exact .stop
  | stay around _ ih => exact .stay (h.directory around) ih
  | up around _ ih => exact .up (h.directory around) ih
  | @fresh _ here name around proper free =>
      -- What was made there since is no link, so the walk goes there and stops.
      cases hentry : tree'.entry? (here ++ [name]) with
      | none => exact .fresh (h.directory around) proper hentry
      | some entry =>
          refine .into (h.directory around) proper hentry ?_ .stop
          rintro target rfl
          simp [h.links _ _ hentry] at free
  | atLink around proper link itself =>
      exact .atLink (h.directory around) proper (h.link link) itself
  | through around proper link beyond _ ih =>
      exact .through (h.directory around) proper (h.link link) beyond ih
  | into around proper there nolink _ ih =>
      obtain ⟨entry', there', nolink'⟩ := h.nolink nolink there
      exact .into (h.directory around) proper there' nolink' ih

/-- A path that leads to a place still leads there when the files have grown. -/
theorem follow (h : Grows changed tree tree') {path : Path}
    (hfollow : tree.follow path wanted = .ok place) : tree'.follow path wanted = .ok place := by
  rw [follow_eq_ok_iff] at hfollow ⊢
  exact hfollow.imp_right h.leads

end Grows

/-- Something new that is no link, or a file in place of a file, makes a tree grow. -/
lemma grows_set {entry : Entry} (nolink : ∀ target, entry ≠ .link target)
    (old : tree.entry? place = none
      ∨ (∃ contents, tree.entry? place = some (.file contents))
        ∧ ∃ contents, entry = .file contents) :
    Grows (· = place) tree (tree.set place entry) := by
  have proper : place ≠ [] := by
    have nodirectory : tree.entry? place ≠ some .directory := by
      obtain h | ⟨⟨_, h⟩, -⟩ := old <;> simp [h]
    exact ne_root_of_not_directory nodirectory
  constructor
  · intro other entry' hentry
    rw [entry?_set proper]
    split_ifs with hother
    · subst hother
      obtain hnone | ⟨⟨contents, hfile⟩, contents', rfl⟩ := old
      · simp [hnone] at hentry
      · rw [hfile, Option.some.injEq] at hentry
        exact .inr ⟨rfl, ⟨contents, hentry.symm⟩, contents', rfl⟩
    · exact .inl hentry
  · intro other target hlink
    rw [entry?_set proper] at hlink
    split_ifs at hlink with hother
    · exact absurd (Option.some.inj hlink) (nolink target)
    · exact hlink

end Directives.FileTree
