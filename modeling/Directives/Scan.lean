/-
Scanning documents for markers.

Finished documents keep a marker for every name nobody declared. A scan finds
them line by line, in one text or in the files below a directory that match a
glob. A scan fails on a text that is no glob; that the set of its globs can be built,
whatever their number and size, is assumed.

* `Hit`, `ScanReport`: a marker with its place, and what a scan found.
* `Hit.inText`: the markers of a text.
* `ScanReport.ofDirectory`: the scan of a directory.
* `ScanReport.message`: the report for a user.
-/
import Directives.Failure
import Directives.Glob.Match
import Directives.Store.Marker
import Directives.Text.Lines

namespace Directives

/-- A marker found in a document. -/
structure Hit where
  /-- The document, as a path from the directory that was scanned. -/
  file : Path
  /-- The number of the line, from one. -/
  line : Nat
  name : Text
  deriving Repr, DecidableEq

/-- The markers in lines that are numbered from `number` on. -/
def Hit.inLines (file : Path) (number : Nat) : List Text → List Hit
  | [] => []
  | line :: rest =>
      (Marker.find line).map (⟨file, number, ·⟩) ++ Hit.inLines file (number + 1) rest

/-- The markers in a text. -/
def Hit.inText (file : Path) (text : Text) : List Hit := Hit.inLines file 1 text.lines

/-- The line about a marker: its place, and the marker itself. -/
def Hit.reportLine (hit : Hit) : Text :=
  hit.file ++ ':' :: Text.ofNat hit.line ++ ("  " : Text) ++ Name.marker hit.name ++ ['\n']

/-- What a scan found. -/
structure ScanReport where
  /-- The number of documents. -/
  documents : Nat := 0
  hits : List Hit := []
  deriving Repr, DecidableEq

namespace ScanReport

/-- No marker was found. -/
def isClean (r : ScanReport) : Bool := r.hits.isEmpty

/-- The report for a user: nothing, or a heading and a line for each marker. -/
def message (r : ScanReport) : Text :=
  if r.isClean then []
  else
    ("Unresolved store tokens found\n\n" : Text)
      ++ r.hits.flatMap Hit.reportLine

/-- The text of a pattern as a scan takes it: trimmed, with slashes for
backslashes. -/
def patternText (pattern : Text) : Text :=
  pattern.trim.map fun c => if c = '\\' then '/' else c

/-- The patterns of a scan. Blank ones are left out. That a set can be built of the
others is assumed. -/
def patterns (globs : List Text) : Except Failure (List Glob) :=
  ((globs.map patternText).filter (!·.isEmpty)).mapM fun text =>
    match Glob.parse text with
    | .ok glob => .ok glob
    | .error fault => .error (.badScanGlob fault)

/-- The path of a document from the directory that is scanned. -/
def relativePath (names : List Text) : Path :=
  (Text.join ['/'] names).map fun c => if c = '\\' then '/' else c

/-- The report with one more document, if it matches a pattern. -/
def addFile (globs : List Glob) (root : Path) (report : ScanReport)
    (file : List Text × FileTree.Contents) : Except Failure ScanReport :=
  let path := relativePath file.1
  if globs.any (·.isMatch path) then
    match file.2 with
    | .bytes _ =>
        let full := file.1.foldl Path.join root
        .error (.unreadableDocument full .notText)
    | .text text =>
        .ok ⟨report.documents + 1, report.hits ++ Hit.inText path text⟩
  else .ok report

/-- The files that a scan of a path looks at: those below a directory, or the
file itself. A link to a directory is followed at the start only. -/
def filesOf (tree : FileTree) (root : Path) :
    Except Failure (List (List Text × FileTree.Contents)) :=
  let unreadable (fault : FileTree.Fault) : Failure := .unreadableRoot root fault
  match tree.follow root .entry with
  | .error fault => .error (unreadable fault)
  | .ok place =>
      match tree.entry? place with
      | none => .error (unreadable .notFound)
      | some (.file contents) => .ok [([], contents)]
      | some .directory => .ok (tree.filesBelow place)
      | some (.link _) =>
          match tree.follow root with
          | .error fault => .error (unreadable fault)
          | .ok target =>
              match tree.entry? target with
              | none => .error (unreadable .notFound)
              | some .directory => .ok (tree.filesBelow target)
              | some _ => .ok []

/-- The scan of the documents below a path that match a glob. -/
def ofDirectory (tree : FileTree) (root : Path) (globs : List Text) :
    Except Failure ScanReport := do
  let globs ← patterns globs
  (← filesOf tree root).foldlM (addFile globs root) {}

end ScanReport

end Directives
