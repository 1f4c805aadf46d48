/-
Registries with an index.

An indexed registry comes to the item of a key without a walk over all items: beside
the items it keeps the place of each. Taking an item out moves those behind it, and
their places are lowered with them. An index that has lost touch with the items would
lead to a place where no item stands; whatever follows it has no answer then.

* `Registry.Indexed`: the items, and the place of every key; `Registry.Indexed.plain`
  is the registry without the places.
* `Registry.Indexed.insert?`: registers an item, and says whether another gave way.
* `Registry.Indexed.insertAll?`: registers items in order.
* `Registry.Indexed.item?`, `Registry.Indexed.contains`: what the index leads to.
-/
import Std.Data.HashMap
import Directives.Registry

namespace Directives.Registry

/-- The index hashes a key as the string of its characters. -/
instance : Hashable Text := ⟨fun key => hash (String.ofList key)⟩

/-- Items in the order of registration, with the place of every key. -/
structure Indexed (α : Type) where
  items : List α := []
  /-- The place of the item of each key. -/
  places : Std.HashMap Text Nat := {}

namespace Indexed

variable {α : Type} [Keyed α]

/-- The registry without its index. -/
def plain (r : Indexed α) : Registry α := ⟨r.items⟩

/-- The keys in order. -/
def keys (r : Indexed α) : List Text := r.plain.keys

/-- Where an item stands once the item at the place `gap` is taken out. -/
def lowered (gap place : Nat) : Nat := if gap < place then place - 1 else place

/-- Takes the item of a key out of its place, if an item stands there. -/
def remove? (r : Indexed α) (key : Text) (gap : Nat) : Option (Indexed α) :=
  if gap < r.items.length then
    some ⟨r.items.eraseIdx gap, (r.places.erase key).map fun _ => lowered gap⟩
  else
    none

/-- Puts an item at the end, and notes its place. -/
def push (r : Indexed α) (item : α) : Indexed α :=
  ⟨r.items ++ [item], r.places.insert (Keyed.key item) r.items.length⟩

/-- Registers an item at the end, takes out the item its key had before, and says
whether there was one. -/
def insert? (r : Indexed α) (item : α) : Option (Indexed α × Bool) :=
  match r.places[Keyed.key item]? with
  | none => some (r.push item, false)
  | some gap => (r.remove? (Keyed.key item) gap).map fun rest => (rest.push item, true)

/-- Registers items in order. -/
def insertAll? (r : Indexed α) : List α → Option (Indexed α)
  | [] => some r
  | item :: rest => (r.insert? item).bind fun (next, _) => next.insertAll? rest

/-- The item of a key, or that there is none. -/
def item? (r : Indexed α) (key : Text) : Option (Option α) :=
  match r.places[key]? with
  | none => some none
  | some place => r.items[place]?.map some

/-- The key has an item. -/
def contains (r : Indexed α) (key : Text) : Bool := r.places.contains key

end Indexed

end Directives.Registry
