/-
Reading nodes in places of a known shape.

What a scalar stands for depends on the place it stands in: where a text is
expected every scalar is one, so `5` and `~` are texts there, and an empty plain
scalar is an empty collection where a collection is expected. Where nothing is
expected the core schema decides. A node read at a shape is a datum.

* `Yaml.Shape`: what is expected in a place.
* `Yaml.Reader`: reading with a bound on the references that are followed.
* `Yaml.Linked.read?`: the datum of a document at a shape.
-/
import Directives.Yaml.Core
import Directives.Yaml.Link

namespace Directives.Yaml

/-- What is expected in a place. -/
inductive Shape
  /-- A text. -/
  | text
  /-- A text, or nothing. -/
  | optionalText
  /-- A truth value. -/
  | flag
  /-- One of several words. -/
  | word
  /-- A list with items of a shape. -/
  | list (item : Shape)
  /-- A map from texts, with values of a shape. -/
  | map (value : Shape)
  /-- A map with the given fields. Other fields are passed over. -/
  | record (fields : List (Text × Shape))
  /-- Anything; the core schema decides. -/
  | any

/-- The most levels of lists and maps that a node may have where it is read. -/
def maxDepth : Nat := 128

/-- Reading with a count of the references that may still be followed. -/
abbrev Reader := StateT Nat Option

/-- The node that a reference means, or the node itself. -/
def follow (nodes : List (Nat × Node Nat)) : Node Nat → Reader (Node Nat)
  | .alias number => do
      match ← get with
      | 0 => failure
      | jumps + 1 => do
          set jumps
          nodes.lookup number
  | node => pure node

/-- The tag names a choice. -/
def isChoiceTag (tag : Option Tag) : Bool := (tag.bind Tag.choice?).isSome

/-- The datum of a scalar where anything is expected. -/
def scalarDatum? (tag : Option Tag) (style : Style) (text : Text) : Option Datum :=
  match tag with
  | none => if style = .plain then plainDatum? text else some (.text text)
  | some tag =>
      if isChoiceTag (some tag) then none
      else if tag = .core "bool" then (bool? text).map .bool
      else if tag = .core "int" then
        match (integer? text).map (width text) with
        | some (.small n) => some (.nat n)
        | some .signed => some .number
        | _ => none
      else if tag = .core "float" then if isDouble text then some .number else none
      else if tag = .core "null" then if isNull text then some .null else none
      else if tag.isLocal && style = .plain then plainDatum? text
      else some (.text text)

/-- The datum of a scalar that is nothing or a text. -/
def optionalDatum? (tag : Option Tag) (style : Style) (text : Text) : Option Datum :=
  if style ≠ .plain then some (.text text)
  else
    match tag with
    | some tag =>
        if tag = .core "null" then if isNull text then some .null else none
        else some (.text text)
    | none => some (if text.isEmpty || isNull text then .null else .text text)

/-- The datum of a scalar where a truth value is expected. -/
def flagDatum? (tag : Option Tag) (style : Style) (text : Text) : Option Datum :=
  if style = .plain || (style = .literal && tag = some (.core "bool")) then
    (bool? text).map .bool
  else none

/-- The datum of a scalar where one of several words is expected. The word may be
given as the tag of nothing. -/
def wordDatum? (tag : Option Tag) (style : Style) (text : Text) : Option Datum :=
  match tag.bind Tag.choice? with
  | some word =>
      if style = .plain && (text.isEmpty || isNull text) then some (.text word) else none
  | none => some (.text text)

/-- The datum of a scalar at a shape. -/
def Shape.scalar? (tag : Option Tag) (style : Style) (value : Text) : Shape → Option Datum
  | .text => some (.text value)
  | .optionalText => optionalDatum? tag style value
  | .flag => flagDatum? tag style value
  | .word => wordDatum? tag style value
  | .list _ => if value.isEmpty && style = .plain then some (.list []) else none
  | .map _ => if value.isEmpty && style = .plain then some (.map []) else none
  | .record _ => if value.isEmpty && style = .plain then some (.map []) else none
  | .any => scalarDatum? tag style value

/-- The text of a key where keys are texts. -/
def keyText (nodes : List (Nat × Node Nat)) (key : Node Nat) : Reader Text := do
  match ← follow nodes key with
  | .scalar _ _ text => pure text
  | _ => failure

/-- Reads a node at a shape, with at most `depth` levels of lists and maps. -/
def read (nodes : List (Nat × Node Nat)) : (depth : Nat) → Shape → Node Nat → Reader Datum
  | 0, shape, node => do
      match ← follow nodes node with
      | .scalar tag style text => shape.scalar? tag style text
      | _ => failure
  | depth + 1, shape, node => do
      match ← follow nodes node with
      | .scalar tag style text => shape.scalar? tag style text
      | .list tag items =>
          match shape with
          | .list item => return .list (← items.mapM (read nodes depth item))
          | .any =>
              if isChoiceTag tag then failure
              else return .list (← items.mapM (read nodes depth .any))
          | _ => failure
      | .map tag entries =>
          match shape with
          | .map value =>
              return .map (← entries.mapM fun (k, v) => do
                return (.text (← keyText nodes k), ← read nodes depth value v))
          | .record fields => do
              let entries ← entries.mapM fun (k, v) => do
                let key ← keyText nodes k
                match fields.lookup key with
                | some shape => return some (Datum.text key, ← read nodes depth shape v)
                | none => return none
              return .map (entries.filterMap id)
          | .any =>
              if isChoiceTag tag then failure
              else
                return .map (← entries.mapM fun (k, v) => do
                  return (← read nodes depth .any k, ← read nodes depth .any v))
          | _ => failure
      | _ => failure

/-- The datum of a document at a shape. -/
def Linked.read? (document : Linked) (shape : Shape) : Option Datum :=
  ((read document.nodes maxDepth shape document.root).run document.jumps).map Prod.fst

/-- The datum of a text at a shape, if the text is well formed. -/
def datum? (shape : Shape) (text : Text) : Option Datum := do
  (← link? (← document? text)).read? shape

end Directives.Yaml
