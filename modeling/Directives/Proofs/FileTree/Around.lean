/-
What is around a file.

The directory around a path is its text without the last name, the slashes in front of that
and components `.` behind it. Where a path leads to a file, it goes through that directory,
its last name is none that asks for a directory, and the file can be written to where it is
read.

* `Path.names_append`: the names of a path are those on either side of a slash.
* `Path.parent?_eq`: the text of the directory around a name.
* `Leads.split`: a walk goes through a directory behind each name but the last.
* `exists_parent`: the directory around a file is there.
* `exists_append`: a text can be put at the end of a file that is read.
-/
import Directives.Proofs.FileTree.Contents
import Directives.Proofs.Text.Lines

namespace Directives

/-! ### The text around the last name -/

namespace Path

variable {path front name : Text}

lemma splitSlashes_ne_nil (path : Path) : splitSlashes path ≠ [] := by
  cases path with
  | nil => exact List.cons_ne_nil _ _
  | cons c rest =>
      rw [splitSlashes]
      split_ifs
      · exact List.cons_ne_nil _ _
      · split <;> exact List.cons_ne_nil _ _

lemma splitSlashes_append (front back : Path) :
    splitSlashes (front ++ '/' :: back) = splitSlashes front ++ splitSlashes back := by
  induction front with
  | nil => rfl
  | cons c front ih =>
      rw [List.cons_append, splitSlashes, splitSlashes, ih]
      split_ifs
      · rfl
      · obtain ⟨part, parts, hparts⟩ := List.exists_cons_of_ne_nil (splitSlashes_ne_nil front)
        rw [hparts]
        rfl

/-- **The names of a path** are those on either side of a slash. -/
theorem names_append (front back : Path) :
    names (front ++ '/' :: back) = names front ++ names back := by
  rw [names, splitSlashes_append, List.filter_append, ← names, ← names]

lemma names_concat (front : Path) : names (front ++ ['/']) = names front := by
  rw [names_append]
  exact List.append_nil _

/-- A text without slashes is one name. -/
lemma names_of_slashless (hslash : '/' ∉ name) (hne : name ≠ []) : names name = [name] := by
  have hsplit : splitSlashes name = [name] := by
    induction name with
    | nil => exact absurd rfl hne
    | cons c rest ih =>
        rw [List.mem_cons, not_or] at hslash
        rw [splitSlashes, if_neg (Ne.symm hslash.1)]
        cases rest with
        | nil => rfl
        | cons d rest => rw [ih hslash.2 (List.cons_ne_nil d rest)]
  rw [names, hsplit]
  simp [hne]

/-- A directory without slashes and components `.` at its end. -/
def trimmed (directory : Path) : Path := (trimReversed directory.reverse).reverse

lemma trimReversed_suffix (path : Path) : trimReversed path <:+ path := by
  induction path using trimReversed.induct with
  | case1 => exact List.suffix_refl _
  | case2 => exact List.suffix_refl _
  | case3 rest hroot ih =>
      rw [trimReversed.eq_3 rest hroot]
      exact ih.trans (List.suffix_cons _ _)
  | case4 => exact List.suffix_cons _ _
  | case5 rest hroot ih =>
      rw [trimReversed.eq_5 rest hroot]
      exact ih.trans (List.suffix_cons _ _)
  | case6 path hnil hroot hslash hdot hdots =>
      rw [trimReversed.eq_6 path hnil hroot hslash hdot hdots]

lemma trimmed_prefix (directory : Path) : trimmed directory <+: directory := by
  have h := List.reverse_prefix.mpr (trimReversed_suffix directory.reverse)
  rwa [List.reverse_reverse] at h

/-- What is taken off are names that stay in place. -/
lemma exists_names_trimReversed (path : Path) :
    ∃ count, names path.reverse
      = names (trimReversed path).reverse ++ List.replicate count ['.'] := by
  induction path using trimReversed.induct with
  | case1 => exact ⟨0, rfl⟩
  | case2 => exact ⟨0, rfl⟩
  | case3 rest hroot ih =>
      rw [trimReversed.eq_3 rest hroot, List.reverse_cons, names_concat]
      exact ih
  | case4 => exact ⟨1, rfl⟩
  | case5 rest hroot ih =>
      obtain ⟨count, hcount⟩ := ih
      refine ⟨count + 1, ?_⟩
      rw [List.reverse_cons, names_concat] at hcount
      rw [trimReversed.eq_5 rest hroot, List.reverse_cons, List.reverse_cons, List.append_assoc,
        List.singleton_append, names_append, hcount, List.replicate_succ', List.append_assoc]
      rfl
  | case6 path hnil hroot hslash hdot hdots =>
      refine ⟨0, ?_⟩
      rw [trimReversed.eq_6 path hnil hroot hslash hdot hdots, List.replicate_zero, List.append_nil]

/-- A slash stays at the start only. -/
lemma head?_trimReversed (path : Path) (h : (trimReversed path).head? = some '/') :
    trimReversed path = ['/'] := by
  induction path using trimReversed.induct with
  | case1 => cases h
  | case2 => rfl
  | case3 rest hroot ih =>
      rw [trimReversed.eq_3 rest hroot] at h ⊢
      exact ih h
  | case4 => rfl
  | case5 rest hroot ih =>
      rw [trimReversed.eq_5 rest hroot] at h ⊢
      exact ih h
  | case6 path hnil hroot hslash hdot hdots =>
      rw [trimReversed.eq_6 path hnil hroot hslash hdot hdots] at h
      cases path with
      | nil => cases h
      | cons c rest =>
          obtain rfl := Option.some.inj h
          exact absurd rfl (hslash rest)

lemma eq_root_of_endsInSlash {directory : Path} (h : endsInSlash (trimmed directory) = true) :
    trimmed directory = ['/'] := by
  have hlast : (trimReversed directory.reverse).head? = some '/' := by
    rw [endsInSlash, trimmed, List.getLast?_reverse] at h
    exact beq_iff_eq.mp h
  rw [trimmed, head?_trimReversed _ hlast]
  rfl

/-- **The directory around a name** that is not `.` is the text in front of it, trimmed. -/
theorem parent?_eq (hfront : ∀ c ∈ front.getLast?, c = '/') (hslash : '/' ∉ name) (hne : name ≠ [])
    (hdot : name ≠ ['.']) : parent? (front ++ name) = some (trimmed front) := by
  obtain ⟨c, more, hname⟩ := List.exists_cons_of_ne_nil (List.reverse_ne_nil_iff.mpr hne)
  have hbare : ∀ d ∈ c :: more, d ≠ '/' := by
    rintro d hd rfl
    rw [← hname, List.mem_reverse] at hd
    exact hslash hd
  have hreverse : (front ++ name).reverse = c :: (more ++ front.reverse) := by
    rw [List.reverse_append, hname, List.cons_append]
  -- nothing is to be taken off behind the name
  have hkept : trimReversed (c :: (more ++ front.reverse)) = c :: (more ++ front.reverse) := by
    obtain ⟨hc, hmore⟩ := List.forall_mem_cons.mp hbare
    have hdots : ∀ rest, c :: (more ++ front.reverse) = '.' :: '/' :: rest → False := by
      intro rest heq
      cases more with
      | nil =>
          obtain ⟨rfl, -⟩ := List.cons.inj heq
          exact hdot (List.reverse_injective hname)
      | cons d more =>
          obtain ⟨rfl, htail⟩ := List.cons.inj heq
          exact hmore d List.mem_cons_self (List.cons.inj htail).1
    refine trimReversed.eq_6 _ (List.cons_ne_nil _ _) ?_ ?_ (hdots []) hdots
    · exact fun heq => hc (List.cons.inj heq).1
    · exact fun rest heq => hc (List.cons.inj heq).1
  have hdrop : (c :: (more ++ front.reverse)).dropWhile (· != '/') = front.reverse := by
    rw [← List.cons_append, List.dropWhile_append_of_pos (by simpa using hbare)]
    cases hback : front.reverse with
    | nil => rfl
    | cons d back =>
        have hd : front.getLast? = some d := by rw [← List.head?_reverse, hback, List.head?_cons]
        obtain rfl := hfront d hd
        rfl
  have hproper : c :: (more ++ front.reverse) ≠ ['/'] :=
    fun heq => hbare c List.mem_cons_self (List.cons.inj heq).1
  rw [parent?, hreverse, hkept]
  simp only [reduceCtorEq, hproper, decide_false, Bool.or_self, Bool.false_eq_true,
    if_false]
  rw [hdrop, trimmed]

end Path

namespace FileTree

variable {tree : FileTree} {wanted : Target} {links : Nat} {here place : Place}
  {names front back : List Text} {path : Path} {contents : Contents}

/-! ### Walks through directories -/

lemma Leads.around (h : tree.Leads wanted links here names place) (hne : names ≠ []) :
    tree.entry? here = some .directory := by
  cases h with
  | stop => exact absurd rfl hne
  | _ => assumption

/-- **A walk goes through a directory** behind each of its names but the last. -/
theorem Leads.split (h : tree.Leads wanted links here (front ++ back) place) (hne : back ≠ []) :
    ∃ links' middle, tree.Leads .destination links here front middle
      ∧ tree.Leads wanted links' middle back place ∧ tree.entry? middle = some .directory := by
  generalize hnames : front ++ back = names at h
  induction h generalizing front with
  | stop => exact absurd (List.append_eq_nil_iff.mp hnames).2 hne
  | stay around on ih =>
      obtain ⟨rfl, rfl⟩ | ⟨rest, rfl, hrest⟩ := List.append_eq_cons_iff.mp hnames
      · exact ⟨_, _, .stop, .stay around on, around⟩
      · obtain ⟨links', middle, hfront, hback, hmiddle⟩ := ih hrest.symm
        exact ⟨links', middle, .stay around hfront, hback, hmiddle⟩
  | up around on ih =>
      obtain ⟨rfl, rfl⟩ | ⟨rest, rfl, hrest⟩ := List.append_eq_cons_iff.mp hnames
      · exact ⟨_, _, .stop, .up around on, around⟩
      · obtain ⟨links', middle, hfront, hback, hmiddle⟩ := ih hrest.symm
        exact ⟨links', middle, .up around hfront, hback, hmiddle⟩
  | @fresh links here name around proper free =>
      obtain ⟨rfl, rfl⟩ | ⟨rest, rfl, hrest⟩ := List.append_eq_cons_iff.mp hnames
      · exact ⟨links, here, .stop, .fresh around proper free, around⟩
      · exact absurd (List.append_eq_nil_iff.mp hrest.symm).2 hne
  | @atLink links here name target around proper link itself =>
      obtain ⟨rfl, rfl⟩ | ⟨rest, rfl, hrest⟩ := List.append_eq_cons_iff.mp hnames
      · exact ⟨links, here, .stop, .atLink around proper link itself, around⟩
      · exact absurd (List.append_eq_nil_iff.mp hrest.symm).2 hne
  | @through _ _ _ _ later target around proper link beyond on ih =>
      obtain ⟨rfl, rfl⟩ | ⟨rest, rfl, hrest⟩ := List.append_eq_cons_iff.mp hnames
      · exact ⟨_, _, .stop, .through around proper link beyond on, around⟩
      · -- the walk goes on through the names of the link
        have hlater : (Path.components target ++ rest) ++ back
            = Path.components target ++ later := by
          rw [List.append_assoc, hrest]
        obtain ⟨links', middle, hfront, hback, hmiddle⟩ := ih hlater
        exact ⟨links', middle, .through around proper link (by simp) hfront, hback, hmiddle⟩
  | into around proper there nolink on ih =>
      obtain ⟨rfl, rfl⟩ | ⟨rest, rfl, hrest⟩ := List.append_eq_cons_iff.mp hnames
      · exact ⟨_, _, .stop, .into around proper there nolink on, around⟩
      · obtain ⟨links', middle, hfront, hback, hmiddle⟩ := ih hrest.symm
        exact ⟨links', middle, .into around proper there nolink hfront, hback, hmiddle⟩

/-- A walk whose last name is `.` arrives at a directory. -/
lemma Leads.directory_of_dot (h : tree.Leads wanted links here (front ++ [['.']]) place) :
    tree.entry? place = some .directory := by
  obtain ⟨_, middle, -, hdot, hmiddle⟩ := h.split (List.cons_ne_nil _ _)
  cases hdot with
  | stay around on =>
      cases on
      exact around
  | fresh _ proper _ => exact absurd rfl proper.1
  | atLink _ proper _ _ => exact absurd rfl proper.1
  | through _ proper _ _ _ => exact absurd rfl proper.1
  | into _ proper _ _ _ => exact absurd rfl proper.1

/-- A file that is found can be written to where it is. -/
lemma Leads.file (h : tree.Leads .destination links here names place)
    (hentry : tree.entry? place = some (.file contents)) :
    tree.Leads .file links here names place := by
  generalize hwanted : Target.destination = wanted at h
  induction h with
  | stop => exact .stop
  | stay around _ ih => exact .stay around (ih hentry)
  | up around _ ih => exact .up around (ih hentry)
  | fresh around proper free => exact .fresh around proper free
  | atLink _ _ _ itself => exact absurd (hwanted.trans itself) (by simp)
  | @through _ _ _ _ rest target around proper link _ on ih =>
      refine .through around proper link (fun hrest => ⟨by simp, fun _ hslash => ?_⟩) (ih hentry)
      subst hrest
      rw [List.append_nil, Path.components, if_pos hslash] at on
      simp [on.directory_of_dot] at hentry
  | into around proper there nolink _ ih => exact .into around proper there nolink (ih hentry)

/-- A walk that wants links arrives where the walk through them arrives, or at a link. -/
lemma Leads.entry (h : tree.Leads .destination links here names place) :
    ∃ middle, tree.Leads .entry links here names middle
      ∧ (middle = place ∨ ∃ target, tree.entry? middle = some (.link target)) := by
  generalize hwanted : Target.destination = wanted at h
  induction h with
  | stop => exact ⟨_, .stop, .inl rfl⟩
  | stay around _ ih =>
      obtain ⟨middle, hmiddle, harrive⟩ := ih
      exact ⟨middle, .stay around hmiddle, harrive⟩
  | up around _ ih =>
      obtain ⟨middle, hmiddle, harrive⟩ := ih
      exact ⟨middle, .up around hmiddle, harrive⟩
  | fresh around proper free => exact ⟨_, .fresh around proper free, .inl rfl⟩
  | atLink _ _ _ itself => exact absurd (hwanted.trans itself) (by simp)
  | @through _ _ _ _ rest target around proper link _ _ ih =>
      by_cases hrest : rest = []
      · subst hrest
        exact ⟨_, .atLink around proper link rfl, .inr ⟨target, link⟩⟩
      · obtain ⟨middle, hmiddle, harrive⟩ := ih
        exact ⟨middle, .through around proper link (fun h => absurd h hrest) hmiddle, harrive⟩
  | into around proper there nolink _ ih =>
      obtain ⟨middle, hmiddle, harrive⟩ := ih
      exact ⟨middle, .into around proper there nolink hmiddle, harrive⟩

/-! ### The directory around a file -/

lemma byteCount_le_of_prefix {text : Text} (h : text <+: path) :
    byteCount text ≤ byteCount path := by
  obtain ⟨rest, rfl⟩ := h
  rw [byteCount, byteCount, String.ofList_append, String.utf8ByteSize_append]
  exact Nat.le_add_right _ _

/-- The start of a path that leads somewhere may lead somewhere. -/
lemma pathFault?_of_start {start : Path} (h : start <+: path) (hne : start ≠ [])
    (hfault : pathFault? path = none) : pathFault? start = none := by
  have hbytes := byteCount_le_of_prefix h
  unfold pathFault? at hfault ⊢
  split_ifs at hfault with hnull hempty hlong
  have hnull' : '\x00' ∉ start := fun hmem => hnull (h.subset hmem)
  rw [if_neg hnull', if_neg (by simpa using hne), if_neg (by omega)]

/-- A path to a file does not end in a slash. -/
lemma not_endsInSlash_of_file (hfollow : tree.follow path = .ok place)
    (hentry : tree.entry? place = some (.file contents)) : Path.endsInSlash path = false := by
  obtain ⟨-, hleads⟩ := follow_eq_ok_iff.mp hfollow
  by_contra hslash
  rw [Bool.not_eq_false] at hslash
  rw [Path.components, if_pos hslash] at hleads
  simp [hleads.directory_of_dot] at hentry

/-- **The directory around a file** that a path leads to is there. -/
theorem exists_parent (hfollow : tree.follow path = .ok place)
    (hentry : tree.entry? place = some (.file contents)) {directory : Path}
    (hparent : Path.parent? path = some directory) :
    directory = [] ∨ tree.exists? directory = true := by
  have hslash := not_endsInSlash_of_file hfollow hentry
  obtain ⟨hfault, hleads⟩ := follow_eq_ok_iff.mp hfollow
  rw [Path.components, if_neg (by simp [hslash])] at hleads
  obtain ⟨hpath, hfront, hname⟩ := Text.cut_spec '/' path
  generalize path.rdropWhile (· != '/') = front at hpath hfront
  generalize path.rtakeWhile (· != '/') = name at hpath hname
  subst hpath
  have hne : name ≠ [] := by
    rintro rfl
    rw [List.append_nil] at hslash hfault
    cases hlast : front.getLast? with
    | none =>
        rw [List.getLast?_eq_none_iff] at hlast
        simp [hlast, pathFault?] at hfault
    | some c => simp [Path.endsInSlash, hlast, hfront c hlast] at hslash
  have hnames : Path.names (front ++ name) = Path.names front ++ [name] := by
    rw [← Path.names_of_slashless hname hne]
    cases hlast : front.getLast? with
    | none =>
        rw [List.getLast?_eq_none_iff.mp hlast]
        rfl
    | some c =>
        obtain ⟨outer, rfl⟩ := List.getLast?_eq_some_iff.mp hlast
        obtain rfl := hfront c hlast
        rw [List.append_assoc, List.singleton_append, Path.names_append, Path.names_concat]
  have hdot : name ≠ ['.'] := by
    rintro rfl
    rw [hnames] at hleads
    simp [hleads.directory_of_dot] at hentry
  rw [Path.parent?_eq hfront hname hne hdot, Option.some.injEq] at hparent
  obtain ⟨count, hcount⟩ := Path.exists_names_trimReversed front.reverse
  rw [List.reverse_reverse, ← Path.trimmed, hparent] at hcount
  rw [hnames, hcount, List.append_assoc] at hleads
  obtain ⟨-, middle, hmiddle, -, hdirectory⟩ := hleads.split (by simp)
  refine or_iff_not_imp_left.mpr fun hfull => ?_
  have hprefix : directory <+: front ++ name := by
    rw [← hparent]
    exact (Path.trimmed_prefix front).trans (List.prefix_append front name)
  obtain ⟨there, hthere, hentry'⟩ : ∃ there, tree.follow directory = .ok there
      ∧ tree.entry? there = some .directory := by
    by_cases hroot : Path.endsInSlash directory = true
    · obtain rfl : ['/'] = directory := by
        rw [← hparent, Path.eq_root_of_endsInSlash (hparent ▸ hroot)]
      exact ⟨[], follow_eq_ok_iff.mpr ⟨by decide, .stay rfl .stop⟩, rfl⟩
    · have hfault' := pathFault?_of_start hprefix hfull hfault
      refine ⟨middle, follow_eq_ok_iff.mpr ⟨hfault', ?_⟩, hdirectory⟩
      rwa [Path.components, if_neg hroot]
  rw [exists?, find?, hthere]
  simp only [hentry', Option.isSome_some]

/-! ### Texts at the end of a file -/

/-- **A text can be put at the end** of a file that is read. -/
theorem exists_append {content text : Text} (h : tree.readText path = .ok content) :
    ∃ tree', tree.append path text = .ok tree' ∧ tree'.readText path = .ok (content ++ text) := by
  obtain ⟨place, hfollow, hentry⟩ := readText_eq_ok_iff.mp h
  obtain ⟨hfault, hleads⟩ := follow_eq_ok_iff.mp hfollow
  have hplace : tree.placeToWrite path = .ok place := by
    rw [placeToWrite, not_endsInSlash_of_file hfollow hentry]
    exact follow_eq_ok_iff.mpr ⟨hfault, hleads.file hentry⟩
  have hadded : tree.append path text
      = .ok (tree.set place (.file ((Contents.text content).append text))) := by
    rw [append, hplace]
    simp only [bind, Except.bind, hentry]
  obtain ⟨there, hthere, hheld⟩ := append_held hadded
  obtain rfl : there = place := Except.ok.inj (hthere.symm.trans hfollow)
  refine ⟨_, hadded, readText_eq_ok_iff.mpr ⟨there, ?_, ?_⟩⟩
  · exact (updates_append hadded).follow hfollow
  · rw [hheld, held_of_file hentry]
    rfl

end FileTree

end Directives
