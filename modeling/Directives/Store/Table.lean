/-
Stores with a hash table.

A table comes to the binding of a name without a walk over all bindings. It keeps them in
no order of its own, so a new binding takes the number of those before it as its ordinal,
and a listing is put in order by the ordinals. Nothing is known of the hash function.

* `Store.Table`: the bindings by name, and the dangling references.
* `Store.Table.declare`, `Store.Table.reference`, `Store.Table.resolve`: the calls on a
  table; `Store.Table.call` and `Store.Table.callAll` take them as data.
* `Store.Table.listed`: the bindings in the order the table holds them.
* `Store.byOrdinal`, `Store.Table.bindings`: bindings in the order of their ordinals.
-/
import Std.Data.HashMap
import Directives.Store.Program
import Directives.Store.Search

namespace Directives.Store

/-- The bindings under their names, with the dangling references in the order they were
made. -/
structure Table [Hashable Text] where
  entries : Std.HashMap Text Binding := {}
  lints : List Lint := []
  /-- The libraries that references are made under, outermost first. -/
  trail : List Text := []

/-- Bindings in the order of their ordinals. -/
def byOrdinal (listed : List Binding) : List Binding :=
  listed.mergeSort fun a b => a.declaredAt ≤ b.declaredAt

namespace Table

variable [Hashable Text]

/-- The binding a spelling refers to. Looking it up leaves no lint. -/
def get? (t : Table) (spelling : Text) : Option Binding := t.entries[Name.normalize spelling]?

/-- The spelling refers to a declared name. -/
def contains (t : Table) (spelling : Text) : Bool := (t.get? spelling).isSome

/-- Declares a name: a binding that is there takes the new description, else there is a new
one, with the number of bindings as its ordinal. -/
def declare (t : Table) (spelling description : Text) : Text × Table :=
  let name := Name.normalize spelling
  let binding : Binding :=
    match t.entries[name]? with
    | some binding => { binding with description }
    | none => ⟨name, description, t.entries.size⟩
  (binding.token, { t with entries := t.entries.insert name binding })

/-- Refers to a name: the token of its binding, or its marker, which leaves one lint under
the trail of now. -/
def reference (t : Table) (spelling : Text) : Text × Table :=
  let name := Name.normalize spelling
  match t.entries[name]? with
  | some binding => (binding.token, t)
  | none =>
      (Name.marker name, { t with lints := t.lints ++ [⟨name, Name.marker name, t.trail⟩] })

/-- The text with every reference that a search finds replaced by what it yields. -/
def resolve (t : Table) (text : Text) : Text × Table := resolveBy reference t text

/-- What a call answers, and the table after it. -/
def call (t : Table) : Call → Text × Table
  | .declare spelling description => t.declare spelling description
  | .reference spelling => t.reference spelling
  | .resolve text => t.resolve text

/-- The table after calls in order. -/
def callAll (t : Table) (calls : List Call) : Table :=
  calls.foldl (fun t call => (t.call call).2) t

/-- The bindings in the order the table holds them. -/
def listed (t : Table) : List Binding := t.entries.toList.map Prod.snd

/-- The bindings in the order of their ordinals. -/
def bindings (t : Table) : List Binding := byOrdinal t.listed

end Table

end Directives.Store
