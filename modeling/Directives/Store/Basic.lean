/-
The store: the names one command declares, and the references nobody declared.

Declaring never fails and keeps the place of the first declaration; a reference
to an undeclared name yields a marker and leaves one lint, so a half-written
command still gives a usable document.

* `Binding`, `Lint`, `Store`: a declared name, a dangling reference, the table.
* `Store.declare`: insert a name, or renew its description.
* `Store.reference`: the token of a name, or its marker and a lint.
* `Store.resolve`: every reference occurrence of a text in turn.
-/
import Directives.Store.Name
import Directives.Store.Occurrence

namespace Directives

/-- A declared name. -/
structure Binding where
  /-- The name, without braces and dollar. -/
  name : Text
  /-- What the name stands for; the last declaration gives it. -/
  description : Text
  /-- How many names were declared before this one. -/
  declaredAt : Nat
  deriving Repr, DecidableEq

/-- The token of a binding. -/
def Binding.token (b : Binding) : Text := Name.token b.name

/-- A reference to a name that was not declared. -/
structure Lint where
  /-- The name. -/
  name : Text
  /-- The marker written in its place. -/
  token : Text
  /-- The libraries that were open when the reference was made. -/
  via : List Text
  deriving Repr, DecidableEq

/-- The names of one command, in order of declaration, with the dangling
references in the order they were made. -/
structure Store where
  bindings : List Binding := []
  lints : List Lint := []
  /-- The libraries that references are made under, outermost first. -/
  trail : List Text := []
  deriving Repr, DecidableEq

namespace Store

/-- The binding of a name, given without braces and dollar. -/
def binding? (s : Store) (name : Text) : Option Binding :=
  s.bindings.find? (·.name == name)

/-- The binding a spelling refers to. Looking it up leaves no lint. -/
def get? (s : Store) (spelling : Text) : Option Binding := s.binding? (Name.normalize spelling)

/-- The spelling refers to a declared name. -/
def contains (s : Store) (spelling : Text) : Bool := (s.get? spelling).isSome

/-- The name is declared. -/
def declares (s : Store) (name : Text) : Bool := (s.binding? name).isSome

/-- Declares a name. A name that is declared already keeps its place and takes
the new description. -/
def declare (s : Store) (spelling description : Text) : Text × Store :=
  let name := Name.normalize spelling
  let bindings :=
    if s.declares name then
      s.bindings.map fun b => if b.name = name then { b with description } else b
    else
      s.bindings ++ [⟨name, description, s.bindings.length⟩]
  (Name.token name, { s with bindings })

/-- Refers to a name: its token if it is declared, else its marker, which
leaves one lint under the trail of now. -/
def reference (s : Store) (spelling : Text) : Text × Store :=
  let name := Name.normalize spelling
  if s.declares name then
    (Name.token name, s)
  else
    (Name.marker name, { s with lints := s.lints ++ [⟨name, Name.marker name, s.trail⟩] })

/-- Writes the pieces of a text in order: a plain character as it is, an
occurrence as a reference to its name. -/
def write (s : Store) : List Piece → Text × Store
  | [] => ([], s)
  | .plain c :: rest =>
      let (text, s) := s.write rest
      (c :: text, s)
  | .occurrence o :: rest =>
      let (token, s) := s.reference o.name
      let (text, s) := s.write rest
      (token ++ text, s)

/-- The text with every reference occurrence replaced by what the reference
yields. -/
def resolve (s : Store) (text : Text) : Text × Store := s.write (Piece.split text)

end Store

end Directives
