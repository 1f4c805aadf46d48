/-
The files of the machine as a tree, and back.

What a run may look at is read into a tree before it starts, and what it changed
is written when it has ended. A symbolic link is read as a link to the file it
leads to in the end.

* `Disk.readPath`: reads everything a path goes through.
* `Disk.readMembers`, `Disk.readBelow`: read what a directory holds.
* `Disk.writeChanges`: writes what differs between two trees.
-/
import Directives.FileTree.Basic

namespace Directives.Disk

open FileTree (Place Entry Contents)

/-- The entry of a directory under a name, as the system knows it. -/
def member (directory : Place) (name : Text) : IO.FS.DirEntry :=
  ⟨String.ofList ('/' :: Text.join ['/'] directory), String.ofList name⟩

/-- What stands at a place. What cannot be read is not there. -/
def readEntry? (directory : Place) (name : Text) : IO (Option Entry) := do
  let path := (member directory name).path
  try
    match (← path.symlinkMetadata).type with
    | .dir => return some .directory
    | .file => return some (.file (Contents.ofBytes (← IO.FS.readBinFile path)))
    | .symlink => return some (.link (← IO.FS.realPath path).toString.toList)
    | .other => return some (.file (.text []))
  catch _ => return none

/-- The tree with what stands at a place, if that is not known yet. -/
def readPlace (tree : FileTree) (directory : Place) (name : Text) : IO FileTree := do
  let place := directory ++ [name]
  if (tree.entry? place).isSome then return tree
  match ← readEntry? directory name with
  | some entry => return tree.set place entry
  | none => return tree

/-- Reads everything that names go through from a place on, links included. Each
link leads to a path without links, so two levels are enough. -/
def readNames (tree : FileTree) (links : Nat) (here : Place) (names : List Text) : IO FileTree :=
  match names with
  | [] => return tree
  | name :: rest =>
      if name = ['.'] then readNames tree links here rest
      else if name = ['.', '.'] then readNames tree links here.dropLast rest
      else do
        let tree ← readPlace tree here name
        let next := here ++ [name]
        match tree.entry? next, links with
        | some (.link target), links + 1 => readNames tree links [] (Path.components target ++ rest)
        | some .directory, links => readNames tree links next rest
        | _, _ => return tree
termination_by (links, names.length)

/-- Reads everything that a path goes through. -/
def readPath (tree : FileTree) (path : Path) : IO FileTree :=
  readNames tree FileTree.maxLinks [] (Path.components path)

/-- The names in a directory. -/
def names (place : Place) : IO (List Text) := do
  let path := (member place []).path
  try
    return (← path.readDir).toList.map fun entry => entry.fileName.toList
  catch _ => return []

/-- Reads what a directory holds, but not what is below that. -/
def readMembers (tree : FileTree) (path : Path) : IO FileTree := do
  let tree ← readPath tree path
  match tree.follow path with
  | .error _ => return tree
  | .ok place => (← names place).foldlM (fun tree name => readPlace tree place name) tree

/-- Reads everything below a place. Links are not followed. -/
partial def readInside (tree : FileTree) (place : Place) : IO FileTree := do
  (← names place).foldlM (fun tree name => do
    let tree ← readPlace tree place name
    let inner := place ++ [name]
    if tree.entry? inner == some .directory then readInside tree inner else return tree) tree

/-- Reads everything below the directory that a path leads to. -/
def readBelow (tree : FileTree) (path : Path) : IO FileTree := do
  let tree ← readPath tree path
  match tree.follow path with
  | .error _ => return tree
  | .ok place =>
      if tree.entry? place == some .directory then readInside tree place else return tree

/-- The bytes of a file. -/
def bytesOf : Contents → ByteArray
  | .text value => (String.ofList value).toUTF8
  | .bytes value => ⟨value.toArray⟩

/-- Writes the entries of a tree that another tree does not have. -/
def writeChanges (before after : FileTree) : IO Unit :=
  after.entries.forM fun (place, entry) => do
    if before.entry? place == some entry then return ()
    let path := (member place.dropLast (place.getLast?.getD [])).path
    match entry with
    | .directory => IO.FS.createDirAll path
    | .file contents => IO.FS.writeBinFile path (bytesOf contents)
    | .link _ => return ()

end Directives.Disk
