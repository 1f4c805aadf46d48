/-
The file system as a value.

A tree gives each place, which is a list of names from the root, at most one
entry: a file, a directory, or a symbolic link. Paths are followed through links
to a place; what is not there, not a directory, or a circle of links is a fault.

* `FileTree.Contents`, `FileTree.Entry`, `FileTree`: files, entries, the tree.
* `FileTree.Fault`: what may go wrong; `FileTree.Fault.message`.
* `FileTree.follow`: the place a path leads to.
* `FileTree.readText`, `FileTree.write`, `FileTree.append`,
  `FileTree.createDirectories`: the operations.
* `FileTree.filesBelow`: the regular files below a directory.
-/
import Directives.FileTree.Path

namespace Directives

namespace FileTree

/-- What a file holds: a text, or bytes that are no text. -/
inductive Contents
  | text (value : Text)
  | bytes (value : List UInt8)
  deriving Repr, DecidableEq

/-- The contents of a file with the given bytes: a text if they encode one. -/
def Contents.ofBytes (value : ByteArray) : Contents :=
  match String.fromUTF8? value with
  | some decoded => text decoded.toList
  | none => bytes value.toList

/-- The contents with a text added at the end. -/
def Contents.append (contents : Contents) (addition : Text) : Contents :=
  match contents with
  | text value => text (value ++ addition)
  | bytes value => bytes (value ++ (String.ofList addition).toUTF8.data.toList)

/-- What stands at a place. -/
inductive Entry
  | file (contents : Contents)
  | directory
  | link (target : Path)
  deriving Repr, DecidableEq

/-- What may go wrong. -/
inductive Fault
  | notFound
  | alreadyExists
  | notDirectory
  | isDirectory
  | nameTooLong
  | tooManyLinks
  /-- The path holds the null character. -/
  | nullCharacter
  /-- The file is no text. -/
  | notText
  deriving Repr, DecidableEq

/-- The sentence about a fault. -/
def Fault.message : Fault → Text
  | notFound => "No such file or directory (os error 2)"
  | alreadyExists => "File exists (os error 17)"
  | notDirectory => "Not a directory (os error 20)"
  | isDirectory => "Is a directory (os error 21)"
  | nameTooLong => "File name too long (os error 36)"
  | tooManyLinks => "Too many levels of symbolic links (os error 40)"
  | nullCharacter => "file name contained an unexpected NUL byte"
  | notText => "stream did not contain valid UTF-8"

/-- A place: the names from the root. -/
abbrev Place := List Text

end FileTree

/-- The entries of all places but the root. -/
structure FileTree where
  entries : List (FileTree.Place × FileTree.Entry) := []
  deriving Repr

namespace FileTree

/-- The entry of a place. The root is a directory. -/
def entry? (tree : FileTree) (place : Place) : Option Entry :=
  if place.isEmpty then some .directory else tree.entries.lookup place

/-- The tree with an entry at a place. -/
def set (tree : FileTree) (place : Place) (entry : Entry) : FileTree :=
  if (tree.entries.lookup place).isSome then
    ⟨tree.entries.map fun (p, e) => if p = place then (p, entry) else (p, e)⟩
  else
    ⟨tree.entries ++ [(place, entry)]⟩

/-! ### Following paths -/

/-- The number of bytes of a text. -/
def byteCount (text : Text) : Nat := (String.ofList text).utf8ByteSize

/-- The most links that are followed on the way. -/
def maxLinks : Nat := 40

/-- What is meant by the last name of a path. -/
inductive Target
  /-- What stands there, be it a link. -/
  | entry
  /-- What a link there leads to. -/
  | destination
  /-- A file to be written, where a link there leads to or in that place. -/
  | file
  deriving Repr, DecidableEq

/-- The place that names lead to from a directory. Only the last name may have no
entry. No file to be written stands behind a link whose target ends in a slash,
once there is a directory around that target. -/
def walk (tree : FileTree) (wanted : Target) (links : Nat) (here : Place) (names : List Text) :
    Except Fault Place :=
  match names with
  | [] => .ok here
  | name :: rest =>
      if tree.entry? here != some .directory then .error .notDirectory
      else if name = ['.'] then tree.walk wanted links here rest
      else if name = ['.', '.'] then tree.walk wanted links here.dropLast rest
      else if 255 < byteCount name then .error .nameTooLong
      else
        let next := here ++ [name]
        match tree.entry? next with
        | none => if rest.isEmpty then .ok next else .error .notFound
        | some (.link target) =>
            if rest.isEmpty && wanted = .entry then .ok next
            else
              match links with
              | 0 => .error .tooManyLinks
              | links + 1 =>
                  let start := if Path.isAbsolute target then [] else here
                  if rest.isEmpty && wanted = .file && Path.endsInSlash target then
                    match tree.walk .destination links start (Path.surroundings target) with
                    | .ok _ => .error .isDirectory
                    | .error fault => .error fault
                  else tree.walk wanted links start (Path.components target ++ rest)
        | some _ => tree.walk wanted links next rest
termination_by (links, names.length)

/-- The fault of a path that leads nowhere, whatever there is. -/
def pathFault? (path : Path) : Option Fault :=
  if '\x00' ∈ path then some .nullCharacter
  else if path.isEmpty then some .notFound
  else if 4096 ≤ byteCount path then some .nameTooLong
  else none

/-- The place that a path leads to. It may have no entry, if its directory has
one. -/
def follow (tree : FileTree) (path : Path) (wanted : Target := .destination) :
    Except Fault Place :=
  match pathFault? path with
  | some fault => .error fault
  | none => tree.walk wanted maxLinks [] (Path.components path)

/-- The entry that a path leads to. -/
def find? (tree : FileTree) (path : Path) : Option Entry :=
  match tree.follow path with
  | .ok place => tree.entry? place
  | .error _ => none

/-- The path leads to something. -/
def exists? (tree : FileTree) (path : Path) : Bool := (tree.find? path).isSome

/-- The path leads to a regular file. -/
def isFile (tree : FileTree) (path : Path) : Bool :=
  match tree.find? path with
  | some (.file _) => true
  | _ => false

/-! ### Reading and writing -/

/-- The text of the file that a path leads to. -/
def readText (tree : FileTree) (path : Path) : Except Fault Text := do
  match tree.entry? (← tree.follow path) with
  | some (.file (.text text)) => .ok text
  | some (.file (.bytes _)) => .error .notText
  | some .directory => .error .isDirectory
  | _ => .error .notFound

/-- The place of a file that may be made. A path that ends in a slash asks for a
directory. -/
def placeToWrite (tree : FileTree) (path : Path) : Except Fault Place :=
  if Path.endsInSlash path && (pathFault? path).isNone then do
    let _ ← tree.walk .destination maxLinks [] (Path.surroundings path)
    .error .isDirectory
  else tree.follow path .file

/-- The tree with a text in the file that a path leads to, made if need be. -/
def write (tree : FileTree) (path : Path) (text : Text) : Except Fault FileTree := do
  let place ← tree.placeToWrite path
  match tree.entry? place with
  | some .directory => .error .isDirectory
  | _ => .ok (tree.set place (.file (.text text)))

/-- The tree with a text at the end of the file that a path leads to, made if
need be. -/
def append (tree : FileTree) (path : Path) (text : Text) : Except Fault FileTree := do
  let place ← tree.placeToWrite path
  match tree.entry? place with
  | some .directory => .error .isDirectory
  | some (.file contents) => .ok (tree.set place (.file (contents.append text)))
  | _ => .ok (tree.set place (.file (.text text)))

/-- The tree with a new directory at a place given by names from the root. -/
def createDirectory (tree : FileTree) (names : List Text) : Except Fault FileTree := do
  let place ← tree.walk .entry maxLinks [] names
  match tree.entry? place with
  | some _ => .error .alreadyExists
  | none => .ok (tree.set place .directory)

/-- The names from the root lead to a directory. -/
def leadsToDirectory (tree : FileTree) (names : List Text) : Bool :=
  match tree.walk .destination maxLinks [] names with
  | .ok place => tree.entry? place == some .directory
  | .error _ => false

/-- Makes sure that names from the root lead to a directory. If its surroundings
are missing, `around` makes them. What is made before a fault stays. -/
def createInside (names : List Text) (around : FileTree → FileTree × Option Fault)
    (tree : FileTree) : FileTree × Option Fault :=
  let settle (tree : FileTree) (fault : Fault) : FileTree × Option Fault :=
    if tree.leadsToDirectory names then (tree, none) else (tree, some fault)
  match tree.createDirectory names with
  | .ok tree => (tree, none)
  | .error .notFound =>
      match around tree with
      | (tree, some fault) => (tree, some fault)
      | (tree, none) =>
          match tree.createDirectory names with
          | .ok tree => (tree, none)
          | .error fault => settle tree fault
  | .error fault => settle tree fault

/-- Makes sure that names, given innermost first, lead to a directory, and makes
those around it first. -/
def createAll : List Text → FileTree → FileTree × Option Fault
  | [], tree => (tree, none)
  | name :: outer, tree => createInside (name :: outer).reverse (createAll outer) tree

/-- Makes sure that a path leads to a directory. What is made before a fault
stays. A path that ends in `.` names a directory that is there already: only what
is around that one is made. -/
def createDirectories (tree : FileTree) (path : Path) : FileTree × Option Fault :=
  match path, pathFault? path with
  | [], _ => (tree, none)
  | _, some fault => (tree, some fault)
  | path, none =>
      let names := Path.names path
      let inward := (names.filter (· ≠ ['.'])).reverse
      if names.getLast? = some ['.'] then createInside names (createAll inward.tail) tree
      else createAll inward tree

/-! ### Files below a directory -/

/-- Comparison of places: component by component, by code points. -/
def placeBefore : Place → Place → Bool
  | [], [] => false
  | [], _ :: _ => true
  | _ :: _, [] => false
  | a :: as, b :: bs => Text.before a b || (a == b && placeBefore as bs)

/-- The regular files strictly below a place, as the names from it, directories
before what they hold and siblings by name. Links are not followed. -/
def filesBelow (tree : FileTree) (place : Place) : List (List Text × Contents) :=
  let inside := tree.entries.filterMap fun (p, e) =>
    match place.isPrefixOf? p, e with
    | some (name :: names), .file contents => some (name :: names, contents)
    | _, _ => none
  inside.mergeSort fun a b => !placeBefore b.1 a.1

end FileTree

end Directives
