/-
References between the nodes of a document.

Anchors get numbers as they come, and a number is the count of different names
so far. A name that is given again therefore shares its new number with the next
new name, and then both stand for the node that starts last; references follow
the numbers.

* `Yaml.Linked`: a node whose references are numbers, with the nodes they mean.
* `Yaml.link?`: links the references of a node, if each has an anchor before it.
* `Yaml.Node.events`: how many starts, ends, scalars and references a node has.
-/
import Directives.Yaml.Node

namespace Directives.Yaml

/-- The anchors met so far: the number of each name, the last one first, and the
nodes that have numbers, the one that starts last first. -/
structure Anchors where
  numbers : List (Text × Nat) := []
  nodes : List (Nat × Node Nat) := []

namespace Anchors

/-- Gives a number to a name. -/
def add (a : Anchors) (name : Text) : Nat × Anchors :=
  let number := a.numbers.length
  (number, { a with numbers := (name, number) :: a.numbers.filter (·.1 != name) })

/-- Gives a node to a number. The nodes met inside it start later than it does,
those met before it start earlier. -/
def define (inside : Anchors) (number : Nat) (node : Node Nat)
    (before : List (Nat × Node Nat)) : Anchors :=
  { inside with nodes := inside.nodes ++ (number, node) :: before }

end Anchors

mutual

/-- Links the references of a node. The number of an anchor is known inside its
node already. -/
def linkFrom? (a : Anchors) : Node Text → Option (Node Nat × Anchors)
  | .scalar tag style text => some (.scalar tag style text, a)
  | .list tag items => do
      let (items, a) ← linkItems? a items
      return (.list tag items, a)
  | .map tag entries => do
      let (entries, a) ← linkEntries? a entries
      return (.map tag entries, a)
  | .anchored name node => do
      let (number, named) := a.add name
      let (node, inside) ← linkFrom? { named with nodes := [] } node
      return (node, inside.define number node a.nodes)
  | .alias name => do return (.alias (← a.numbers.lookup name), a)

/-- Links the references of nodes in order. -/
def linkItems? (a : Anchors) : List (Node Text) → Option (List (Node Nat) × Anchors)
  | [] => some ([], a)
  | item :: rest => do
      let (item, a) ← linkFrom? a item
      let (rest, a) ← linkItems? a rest
      return (item :: rest, a)

/-- Links the references of keys and values in order. -/
def linkEntries? (a : Anchors) :
    List (Node Text × Node Text) → Option (List (Node Nat × Node Nat) × Anchors)
  | [] => some ([], a)
  | (key, value) :: rest => do
      let (key, a) ← linkFrom? a key
      let (value, a) ← linkFrom? a value
      let (rest, a) ← linkEntries? a rest
      return ((key, value) :: rest, a)

end

mutual

/-- How many scalars, references, starts and ends a node has. -/
def Node.events {ref : Type} : Node ref → Nat
  | .scalar _ _ _ => 1
  | .list _ items => 2 + eventsOfItems items
  | .map _ entries => 2 + eventsOfEntries entries
  | .anchored _ node => node.events
  | .alias _ => 1

/-- How many of these nodes have together. -/
def eventsOfItems {ref : Type} : List (Node ref) → Nat
  | [] => 0
  | item :: rest => item.events + eventsOfItems rest

/-- How many of these keys and values have together. -/
def eventsOfEntries {ref : Type} : List (Node ref × Node ref) → Nat
  | [] => 0
  | (key, value) :: rest => key.events + value.events + eventsOfEntries rest

end

/-- A node whose references are numbers, with the nodes that the numbers mean. -/
structure Linked where
  root : Node Nat
  nodes : List (Nat × Node Nat)
  /-- How often references may be followed in all. -/
  jumps : Nat

/-- Links the references of a node. They may be followed a hundred times as often
as the node has events. -/
def link? (node : Node Text) : Option Linked := do
  let (root, anchors) ← linkFrom? {} node
  return ⟨root, anchors.nodes, 100 * node.events⟩

end Directives.Yaml
