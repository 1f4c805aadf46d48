/-
The patterns of a scan, and the files it comes to.

A scan takes each pattern that is not blank, and fails if one of them is none. Of the files
that it comes to it leaves out those that no pattern picks. The others must be texts, and
their hits stand in the report one file after the other.

* `ScanReport.Picks`: a pattern that is not blank matches a path.
* `ScanReport.exists_patterns`: the patterns of a scan, if all of them are patterns.
* `ScanReport.patterns_fault`: the failure about one that is none.
* `Hit.inContents`: the hits in a file.
* `ScanReport.foldlM_addFile`: the report about the files that are picked.
* `ScanReport.ofDirectory_badScanGlob_iff`: a scan fails about a pattern if one is none.
-/
import Directives.Proofs.Glob.Slashed
import Directives.Proofs.Text
import Directives.Scan

namespace Directives

namespace ScanReport

variable {globs : List Text} {pattern : Text} {path : Path} {compiled : List Glob}

/-! ### Patterns -/

/-- A pattern that is not blank matches the path, as a scan takes it. -/
def Picks (pattern : Text) (path : Path) : Prop :=
  pattern.isBlankText = false
    ∧ ∃ glob, Glob.parse (patternText pattern) = .ok glob ∧ glob.isMatch path = true

lemma patternText_eq_nil_iff : patternText pattern = [] ↔ pattern.isBlankText = true := by
  rw [patternText, List.map_eq_nil_iff, Text.isBlankText, List.all_eq_true]
  constructor
  · intro h c hc
    obtain ⟨before, after, hbefore, hafter, hpattern⟩ := Text.exists_trim pattern
    rw [hpattern, h, List.append_nil, List.mem_append] at hc
    exact hc.elim (hbefore c) (hafter c)
  · intro h
    rw [Text.trim, Text.trimStart, List.dropWhile_eq_nil_iff.mpr h]
    rfl

lemma patterns_cons_blank (h : pattern.isBlankText = true) (globs : List Text) :
    patterns (pattern :: globs) = patterns globs := by
  have hempty := patternText_eq_nil_iff.mpr h
  rw [patterns, patterns, List.map_cons, List.filter_cons, hempty]
  rfl

lemma patterns_cons (h : pattern.isBlankText = false) (globs : List Text) :
    patterns (pattern :: globs)
      = match Glob.parse (patternText pattern) with
        | .ok glob => (patterns globs).map (glob :: ·)
        | .error fault => .error (.badScanGlob fault) := by
  have hfull : (patternText pattern).isEmpty = false := by
    rw [Bool.eq_false_iff, Ne, List.isEmpty_iff, patternText_eq_nil_iff, h]
    exact Bool.false_ne_true
  unfold patterns
  rw [List.map_cons, List.filter_cons, hfull, Bool.not_false, if_pos rfl, List.mapM_cons]
  generalize List.mapM (m := Except Failure) _ (List.filter _ (globs.map patternText)) = others
  cases Glob.parse (patternText pattern) <;> cases others <;> rfl

/-- **The patterns of a scan**, if all of them are patterns, match what one of them picks. -/
theorem exists_patterns
    (h : ∀ pattern ∈ globs, (Glob.parse (patternText pattern)).isOk = true) :
    ∃ compiled, patterns globs = .ok compiled
      ∧ ∀ path, compiled.any (·.isMatch path) = true ↔ ∃ pattern ∈ globs, Picks pattern path := by
  induction globs with
  | nil => exact ⟨[], rfl, by simp⟩
  | cons pattern rest ih =>
      obtain ⟨hpattern, hrest⟩ := List.forall_mem_cons.mp h
      obtain ⟨compiled, hcompiled, hpicks⟩ := ih hrest
      cases hblank : pattern.isBlankText with
      | true =>
          refine ⟨compiled, (patterns_cons_blank hblank rest).trans hcompiled, fun path => ?_⟩
          simp [hpicks, Picks, hblank]
      | false =>
          obtain ⟨glob, hglob⟩ : ∃ glob, Glob.parse (patternText pattern) = .ok glob := by
            cases hparse : Glob.parse (patternText pattern) with
            | error fault => simp [hparse, Except.isOk, Except.toBool] at hpattern
            | ok glob => exact ⟨glob, rfl⟩
          refine ⟨glob :: compiled, ?_, fun path => ?_⟩
          · rw [patterns_cons hblank, hglob, hcompiled]
            rfl
          · simp [hpicks, Picks, hblank, hglob]

/-- **A pattern that is none** makes a scan fail. -/
theorem patterns_fault (hpattern : pattern ∈ globs)
    (h : (Glob.parse (patternText pattern)).isOk = false) :
    ∃ fault, patterns globs = .error (.badScanGlob fault) := by
  induction globs with
  | nil => cases hpattern
  | cons first rest ih =>
      cases hblank : first.isBlankText with
      | true =>
          rw [patterns_cons_blank hblank]
          obtain rfl | hrest := List.mem_cons.mp hpattern
          · rw [patternText_eq_nil_iff.mpr hblank] at h
            cases h
          · exact ih hrest
      | false =>
          rw [patterns_cons hblank]
          cases hfirst : Glob.parse (patternText first) with
          | error fault => exact ⟨fault, rfl⟩
          | ok glob =>
              obtain rfl | hrest := List.mem_cons.mp hpattern
              · simp [hfirst, Except.isOk, Except.toBool] at h
              · obtain ⟨fault, hfault⟩ := ih hrest
                exact ⟨fault, by rw [hfault]; rfl⟩

/-! ### Files -/

end ScanReport

/-- The contents are a text. -/
def FileTree.Contents.isText : FileTree.Contents → Bool
  | text _ => true
  | bytes _ => false

/-- The hits in a file, if it is a text. -/
def Hit.inContents (path : Path) : FileTree.Contents → List Hit
  | .text text => Hit.inText path text
  | .bytes _ => []

namespace ScanReport

open FileTree (Contents)

variable {tree : FileTree} {root : Path}

/-- A pattern of a scan picks the file. -/
def isPicked (compiled : List Glob) (file : List Text × FileTree.Contents) : Bool :=
  compiled.any (·.isMatch (relativePath file.1))

/-- The failure about a file that is no text. -/
def unreadable (root : Path) (file : List Text × FileTree.Contents) : Failure :=
  .unreadableDocument (file.1.foldl Path.join root) .notText

/-- The report about files that are picked, behind another. It is about texts only. -/
def withDocuments (root : Path) (report : ScanReport)
    (documents : List (List Text × FileTree.Contents)) : Except Failure ScanReport :=
  match documents.find? (!·.2.isText) with
  | some file => .error (unreadable root file)
  | none =>
      .ok ⟨report.documents + documents.length,
        report.hits ++ documents.flatMap fun file => Hit.inContents (relativePath file.1) file.2⟩

lemma withDocuments_texts {documents : List (List Text × Contents)}
    (h : ∀ document ∈ documents, document.2.isText = true) (root : Path) (report : ScanReport) :
    withDocuments root report documents
      = .ok ⟨report.documents + documents.length,
        report.hits ++ documents.flatMap fun file =>
          Hit.inContents (relativePath file.1) file.2⟩ := by
  have hfind : documents.find? (!·.2.isText) = none :=
    List.find?_eq_none.mpr fun document hmem => by simp [h document hmem]
  rw [withDocuments, hfind]

/-- A file that is no text makes the scan fail about the first one. -/
lemma withDocuments_fault {documents : List (List Text × Contents)}
    (h : ∃ document ∈ documents, document.2.isText = false) (root : Path) (report : ScanReport) :
    ∃ before document after, documents = before ++ document :: after
      ∧ (∀ earlier ∈ before, earlier.2.isText = true) ∧ document.2.isText = false
      ∧ withDocuments root report documents = .error (unreadable root document) := by
  obtain ⟨document, hmem, hnone⟩ := h
  cases hfind : documents.find? (!·.2.isText) with
  | none =>
      have htext := List.find?_eq_none.mp hfind document hmem
      simp [hnone] at htext
  | some first =>
      obtain ⟨hfirst, before, after, hsplit, hbefore⟩ := List.find?_eq_some_iff_append.mp hfind
      refine ⟨before, first, after, hsplit, fun earlier hmem => ?_, by simpa using hfirst, ?_⟩
      · simpa using hbefore earlier hmem
      · rw [withDocuments, hfind]

/-- **The report of a scan** is about the files that are picked. -/
theorem foldlM_addFile (compiled : List Glob) (root : Path) (report : ScanReport)
    (files : List (List Text × FileTree.Contents)) :
    files.foldlM (addFile compiled root) report
      = withDocuments root report (files.filter (isPicked compiled)) := by
  induction files generalizing report with
  | nil => simp [withDocuments, pure, Except.pure]
  | cons file rest ih =>
      obtain ⟨names, contents⟩ := file
      rw [List.foldlM_cons]
      cases hpicked : isPicked compiled (names, contents) with
      | false =>
          have hadd : addFile compiled root report (names, contents) = .ok report :=
            if_neg (Bool.eq_false_iff.mp hpicked)
          rw [hadd, List.filter_cons_of_neg (by simp [hpicked])]
          exact ih report
      | true =>
          rw [List.filter_cons_of_pos hpicked]
          cases contents with
          | bytes bytes =>
              have hadd : addFile compiled root report (names, .bytes bytes)
                  = .error (unreadable root (names, .bytes bytes)) := if_pos hpicked
              rw [hadd]
              rfl
          | text text =>
              have hadd : addFile compiled root report (names, .text text)
                  = .ok ⟨report.documents + 1,
                    report.hits ++ Hit.inText (relativePath names) text⟩ :=
                if_pos hpicked
              rw [hadd]
              refine (ih _).trans ?_
              rw [withDocuments, withDocuments, List.find?_cons_of_neg (by simp [Contents.isText])]
              split
              · rfl
              · rw [List.flatMap_cons, Hit.inContents, ← List.append_assoc, List.length_cons,
                  Nat.add_right_comm, Nat.add_assoc]

/-- Where the files of a path cannot be listed, the failure is about that path. -/
lemma filesOf_fault {failure : Failure} (h : filesOf tree root = .error failure) :
    ∃ fault, failure = .unreadableRoot root fault := by
  unfold filesOf at h
  repeat' split at h
  all_goals cases h
  all_goals exact ⟨_, rfl⟩

/-- **A scan has a bad pattern** exactly if one of its patterns is none. -/
theorem ofDirectory_badScanGlob_iff (tree : FileTree) (root : Path) (globs : List Text) :
    (∃ fault, ofDirectory tree root globs = .error (.badScanGlob fault))
      ↔ ∃ pattern ∈ globs, (Glob.parse (patternText pattern)).isOk = false := by
  constructor
  · rintro ⟨fault, hfault⟩
    by_contra hnone
    have hglobs : ∀ pattern ∈ globs, (Glob.parse (patternText pattern)).isOk = true := by
      intro pattern hpattern
      by_contra hbad
      exact hnone ⟨pattern, hpattern, Bool.eq_false_of_not_eq_true hbad⟩
    obtain ⟨compiled, hcompiled, -⟩ := exists_patterns hglobs
    rw [ofDirectory, hcompiled] at hfault
    cases hfiles : filesOf tree root with
    | error failure =>
        obtain ⟨fault', rfl⟩ := filesOf_fault hfiles
        simp [hfiles, bind, Except.bind] at hfault
    | ok files =>
        simp only [hfiles, bind, Except.bind, foldlM_addFile, withDocuments] at hfault
        split at hfault <;> cases hfault
  · rintro ⟨pattern, hpattern, hbad⟩
    obtain ⟨fault, hfault⟩ := patterns_fault hpattern hbad
    exact ⟨fault, by rw [ofDirectory, hfault]; rfl⟩

end ScanReport

end Directives
