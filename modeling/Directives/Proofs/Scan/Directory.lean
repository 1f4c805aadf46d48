/-
The scan of a directory.

The scan of a directory takes the files that names lead to from there through no link, in the
order of their places, and leaves out those that no pattern picks. If all others are texts it
reports the hits of each, one after the other. If one of them is no text it fails about the
first of these, and reports nothing.

* `ScanReport.relativePath_eq_join`: the path of a file whose names have no backslashes.
* `ScanReport.filesOf_directory`: the files of a directory are those below it.
* `ScanReport.Scanned`, `ScanReport.ofDirectory_scanned`: the scan of a directory.
-/
import Directives.Proofs.FileTree.Around
import Directives.Proofs.FileTree.Visit
import Directives.Proofs.Scan.Documents

namespace Directives.ScanReport

open FileTree (Contents Place placeBefore)

variable {tree : FileTree} {root : Path} {place : Place} {globs : List Text}

/-- The path of a file is made of its names. -/
lemma relativePath_eq_join {names : List Text} (h : ∀ name ∈ names, '\\' ∉ name) :
    relativePath names = Text.join ['/'] names := by
  have hplain : ∀ c ∈ Text.join ['/'] names, c ≠ '\\' := by
    rintro c hc rfl
    obtain hslash | ⟨name, hname, hc⟩ := Text.mem_join hc
    · exact absurd hslash (by decide)
    · exact h name hname hc
  rw [relativePath, List.map_congr_left fun c hc => if_neg (hplain c hc), List.map_id']

/-- **The files of a directory** are those below it, also where a link leads there. -/
theorem filesOf_directory (hplace : tree.follow root = .ok place)
    (hroot : tree.entry? place = some .directory) :
    filesOf tree root = .ok (tree.filesBelow place) := by
  obtain ⟨hfault, hleads⟩ := FileTree.follow_eq_ok_iff.mp hplace
  unfold filesOf
  obtain ⟨middle, hmiddle, rfl | ⟨target, hlink⟩⟩ := hleads.entry
  · simp only [FileTree.follow_eq_ok_iff.mpr ⟨hfault, hmiddle⟩, hroot]
  · simp only [FileTree.follow_eq_ok_iff.mpr ⟨hfault, hmiddle⟩, hlink, hplace, hroot]

/-- The files that names lead to from a directory, through no link, and that a pattern picks,
each once and in the order of their places. -/
structure Scanned (tree : FileTree) (place : Place) (globs : List Text)
    (documents : List (List Text × Contents)) : Prop where
  ordered : documents.Pairwise fun a b => placeBefore a.1 b.1 = true
  mem_iff : ∀ names contents, (names, contents) ∈ documents
    ↔ tree.Reaches place names (.file contents)
      ∧ ∃ pattern ∈ globs, Picks pattern (Text.join ['/'] names)

/-- There is one such list only. -/
lemma Scanned.eq {documents documents' : List (List Text × Contents)}
    (h : Scanned tree place globs documents) (h' : Scanned tree place globs documents') :
    documents = documents' := by
  refine h.ordered.eq_of_mem_iff h'.ordered ?_
  rintro ⟨names, contents⟩
  rw [h.mem_iff, h'.mem_iff]

/-- These are the files below the directory that a pattern picks. -/
lemma scanned_filter (wellFormed : tree.WellFormed)
    (plain : ∀ names entry, tree.Reaches place names entry → ∀ name ∈ names, '\\' ∉ name)
    {compiled : List Glob}
    (hpicks : ∀ path,
      compiled.any (·.isMatch path) = true ↔ ∃ pattern ∈ globs, Picks pattern path) :
    Scanned tree place globs ((tree.filesBelow place).filter (isPicked compiled)) := by
  refine ⟨(FileTree.pairwise_filesBelow wellFormed place).filter _, fun names contents => ?_⟩
  rw [List.mem_filter, FileTree.mem_filesBelow_iff wellFormed, isPicked, hpicks]
  refine and_congr_right fun hreaches => ?_
  rw [relativePath_eq_join (plain names _ hreaches)]

/-- **The scan of a directory** whose names have no backslashes is about the files that names
lead to and a pattern picks, in the order in which a walk comes to them. It reports the hits of
all of them if they are texts, and fails about the first one that is none. -/
theorem ofDirectory_scanned (wellFormed : tree.WellFormed)
    (plain : ∀ names entry, tree.Reaches place names entry → ∀ name ∈ names, '\\' ∉ name)
    (hplace : tree.follow root = .ok place) (hroot : tree.entry? place = some .directory)
    (hglobs : ∀ pattern ∈ globs, (Glob.parse (patternText pattern)).isOk = true) :
    ∃ documents, Scanned tree place globs documents
      ∧ (∀ names files, tree.Siblings place names → tree.Visits place names files →
        List.Sublist documents files)
      ∧ ((∀ document ∈ documents, document.2.isText = true) →
        ofDirectory tree root globs
          = .ok ⟨documents.length,
            documents.flatMap fun document =>
              Hit.inContents (Text.join ['/'] document.1) document.2⟩)
      ∧ ((∃ document ∈ documents, document.2.isText = false) →
        ∃ before document after, documents = before ++ document :: after
          ∧ (∀ earlier ∈ before, earlier.2.isText = true) ∧ document.2.isText = false
          ∧ ofDirectory tree root globs = .error (unreadable root document)) := by
  obtain ⟨compiled, hcompiled, hpicks⟩ := exists_patterns hglobs
  have hscan : ofDirectory tree root globs
      = withDocuments root {} ((tree.filesBelow place).filter (isPicked compiled)) := by
    rw [ofDirectory, hcompiled, filesOf_directory hplace hroot, ← foldlM_addFile]
    rfl
  have hscanned := scanned_filter wellFormed plain hpicks
  have hsublist : List.Sublist ((tree.filesBelow place).filter (isPicked compiled))
      (tree.filesBelow place) := List.filter_sublist
  rw [hscan]
  generalize (tree.filesBelow place).filter (isPicked compiled) = documents at hscanned hsublist
  refine ⟨documents, hscanned, fun names files siblings visits => ?_, fun htexts => ?_, ?_⟩
  · rwa [visits.eq_filesBelow wellFormed siblings]
  · rw [withDocuments_texts htexts]
    simp only [Nat.zero_add, List.nil_append]
    congr 2
    refine List.flatMap_congr fun document hmem => ?_
    obtain ⟨hreaches, -⟩ := (hscanned.mem_iff document.1 document.2).mp hmem
    rw [relativePath_eq_join (plain _ _ hreaches)]
  · exact fun hnone => withDocuments_fault hnone root {}

/-! ### A directory with links -/

/-- A tree with a directory that a link in it leads back to, an empty one, a file that is no
text, a link to a file, and names of which one starts another. -/
def linkedTree : FileTree where
  entries :=
    [(["docs"], .directory), (["docs", "a-b.md"], .file (.text "\x7bB?unresolved\x7d")),
      (["docs", "a"], .directory),
      (["docs", "a", "z.md"], .file (.text "\n\x7bA?unresolved\x7d\n")),
      (["docs", "b"], .link ".."), (["docs", "c"], .directory),
      (["docs", "d"], .file (.bytes [255])), (["docs", "e.md"], .link "a/z.md")]

/-- Two patterns that pick the same files, and a blank one. -/
def linkedGlobs : List Text := ["**/*.md", "*.md", " "]

/-- The files that they pick. -/
def linkedDocuments : List (List Text × Contents) :=
  [(["a", "z.md"], .text "\n\x7bA?unresolved\x7d\n"), (["a-b.md"], .text "\x7bB?unresolved\x7d")]

lemma linkedTree_wellFormed : linkedTree.WellFormed := ⟨by decide, by decide⟩

lemma linkedTree_plain {place : Place} (names : List Text) (entry : FileTree.Entry)
    (h : linkedTree.Reaches place names entry) : ∀ name ∈ names, '\\' ∉ name := by
  have hall : ∀ e ∈ linkedTree.entries, ∀ name ∈ e.1, '\\' ∉ name := by decide
  intro name hname
  have hmem := (linkedTree_wellFormed.mem_entries_iff (by simp [h.ne_nil])).mpr h.entry?
  exact hall _ hmem name (List.mem_append_right place hname)

/-- The patterns that are left. -/
def linkedPatterns : List Glob :=
  [⟨[.leadingComponents, .star, .literal '.', .literal 'm', .literal 'd']⟩,
    ⟨[.star, .literal '.', .literal 'm', .literal 'd']⟩]

lemma scanned_linked : Scanned linkedTree ["docs"] linkedGlobs linkedDocuments := by
  have hglobs : ∀ pattern ∈ linkedGlobs, (Glob.parse (patternText pattern)).isOk = true := by decide
  have hpatterns : patterns linkedGlobs = .ok linkedPatterns := rfl
  obtain ⟨compiled, hcompiled, hpicks⟩ := exists_patterns hglobs
  obtain rfl := Except.ok.inj (hpatterns.symm.trans hcompiled)
  have hdocuments : (linkedTree.filesBelow ["docs"]).filter (isPicked linkedPatterns)
      = linkedDocuments := by
    have hbelow : linkedTree.filesBelow ["docs"]
        = linkedDocuments ++ [([['d']], Contents.bytes [255])] := by
      cbv
    rw [hbelow]
    decide +kernel
  rw [← hdocuments]
  exact scanned_filter linkedTree_wellFormed linkedTree_plain hpicks

/-- Of a tree with links and other files the scan takes two texts. The one in a directory comes
first, although its path is the later text. -/
theorem ofDirectory_scanned_linked :
    linkedTree.WellFormed ∧ linkedTree.follow "/docs" = .ok ["docs"]
      ∧ Text.before "a-b.md" "a/z.md" = true
      ∧ ofDirectory linkedTree "/docs" linkedGlobs
        = .ok ⟨2, [⟨"a/z.md", 2, "A"⟩, ⟨"a-b.md", 1, "B"⟩]⟩ := by
  have hfollow : linkedTree.follow "/docs" = .ok ["docs"] := by cbv
  obtain ⟨documents, hscanned, -, hreport, -⟩ :=
    ofDirectory_scanned linkedTree_wellFormed linkedTree_plain hfollow rfl
      (show ∀ pattern ∈ linkedGlobs, (Glob.parse (patternText pattern)).isOk = true by decide)
  obtain rfl := hscanned.eq scanned_linked
  refine ⟨linkedTree_wellFormed, hfollow, by decide, (hreport (by decide)).trans ?_⟩
  cbv

end Directives.ScanReport
