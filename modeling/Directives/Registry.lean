/-
Registries: items under keys, one item for each key.

The items stand in the order of their registration. Registering a key again
drops the old item and puts the new one at the end, so an item stands where its
key was registered last.

* `Keyed`: a type whose values carry a key.
* `Registry`: the items in order.
* `Registry.insert`: registers an item; `get?` and `contains` read.
-/
import Directives.Text.Basic

namespace Directives

/-- A type whose values carry a key. -/
class Keyed (α : Type) where
  /-- The key of a value. -/
  key : α → Text

/-- The items under their keys, in the order of registration. -/
structure Registry (α : Type) where
  items : List α := []
  deriving Repr, DecidableEq

namespace Registry

variable {α : Type} [Keyed α]

/-- The keys in order. -/
def keys (r : Registry α) : List Text := r.items.map Keyed.key

/-- The item of a key. -/
def get? (r : Registry α) (key : Text) : Option α := r.items.find? (Keyed.key · == key)

/-- The key has an item. -/
def contains (r : Registry α) (key : Text) : Bool := r.items.any (Keyed.key · == key)

/-- Registers an item at the end, and drops the item its key had before. -/
def insert (r : Registry α) (item : α) : Registry α :=
  ⟨r.items.filter (Keyed.key · != Keyed.key item) ++ [item]⟩

/-- The number of items. -/
def size (r : Registry α) : Nat := r.items.length

end Registry

end Directives
