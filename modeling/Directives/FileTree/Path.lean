/-
Paths as texts.

A path is a list of names with slashes between them; it is absolute if it starts
with a slash. Slashes at the end, doubled slashes and components `.` do not
change what a path names, but they stay in its text.

* `Path.join`: a path inside a directory.
* `Path.names`, `Path.components`, `Path.surroundings`: the names of a path in
  order, and those to follow.
* `Path.parent?`: the text of the directory around a path.
-/
import Directives.Text.Basic

namespace Directives

/-- A path is its text. -/
abbrev Path := Text

namespace Path

/-- The path starts at the root. -/
def isAbsolute (path : Path) : Bool := path.head? == some '/'

/-- The path inside a directory. An absolute path stays as it is. -/
def join (directory path : Path) : Path :=
  if isAbsolute path then path
  else if directory.isEmpty || directory.getLast? == some '/' then directory ++ path
  else directory ++ '/' :: path

/-- The parts between slashes. -/
def splitSlashes : Path → List Text
  | [] => [[]]
  | c :: rest =>
      if c = '/' then [] :: splitSlashes rest
      else
        match splitSlashes rest with
        | [] => [[c]]
        | part :: parts => (c :: part) :: parts

/-- The names of a path. -/
def names (path : Path) : List Text := (splitSlashes path).filter (!·.isEmpty)

/-- The path asks for a directory. -/
def endsInSlash (path : Path) : Bool := path.getLast? == some '/'

/-- The names of a path to follow. A slash at the end counts as a last name `.`,
since both ask for a directory. -/
def components (path : Path) : List Text :=
  if endsInSlash path then names path ++ [['.']] else names path

/-- The names to follow to the directory around the last name of a path. -/
def surroundings (path : Path) : List Text := (names path).dropLast ++ [['.']]

/-- The path, written backwards, without slashes and components `.` at its end.
The slash of the root stays. -/
def trimReversed : Path → Path
  | [] => []
  | ['/'] => ['/']
  | '/' :: rest => trimReversed rest
  | ['.', '/'] => ['/']
  | '.' :: '/' :: rest => trimReversed ('/' :: rest)
  | path => path

/-- The directory around a path. The root and the empty path have none. -/
def parent? (path : Path) : Option Path :=
  let reversed := trimReversed path.reverse
  if reversed = [] || reversed = ['/'] then none
  else some (trimReversed (reversed.dropWhile (· != '/'))).reverse

end Path

end Directives
