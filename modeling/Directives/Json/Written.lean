/-
JSON as it is written.

A written value keeps what a reader may or may not care about: number literals,
texts whose escapes are no characters, repeated fields. Values are taken out of
it where they are needed, and what is passed over is held to the grammar alone.

* `Written`: a value as it stands in a text.
* `Written.parse?`: the grammar, by a stack of open arrays and objects.
* `Written.value?`: the value, if its texts and numbers have one and its arrays
  and objects are not nested deeper than a bound.
* `Json.parse?`: the value of a text.
-/
import Directives.Json.Token

namespace Directives

open Json (Token)

/-- A JSON value as it is written. -/
inductive Written
  | null
  | bool (value : Bool)
  | number (literal : Text)
  | text (value : Option Text)
  | array (items : List Written)
  | object (fields : List (Option Text × Written))
  deriving Repr

namespace Written

/-- An array or object that is still open, with its members last one first. -/
inductive Frame
  | array (items : List Written)
  | object (fields : List (Option Text × Written)) (key : Option Text)

mutual

/-- Reads a value where one must stand. -/
def readValue (stack : List Frame) : List Token → Option Written
  | .null :: rest => readNext stack .null rest
  | .bool value :: rest => readNext stack (.bool value) rest
  | .number literal :: rest => readNext stack (.number literal) rest
  | .text value :: rest => readNext stack (.text value) rest
  | .openArray :: .closeArray :: rest => readNext stack (.array []) rest
  | .openArray :: rest => readValue (.array [] :: stack) rest
  | .openObject :: .closeObject :: rest => readNext stack (.object []) rest
  | .openObject :: .text key :: .colon :: rest => readValue (.object [] key :: stack) rest
  | _ => none

/-- Goes on behind a value: the next member, the end of the innermost open array
or object, or the end of the text. -/
def readNext : List Frame → Written → List Token → Option Written
  | [], value, [] => some value
  | .array items :: stack, value, .comma :: rest => readValue (.array (value :: items) :: stack) rest
  | .array items :: stack, value, .closeArray :: rest =>
      readNext stack (.array (value :: items).reverse) rest
  | .object fields key :: stack, value, .comma :: .text next :: .colon :: rest =>
      readValue (.object ((key, value) :: fields) next :: stack) rest
  | .object fields key :: stack, value, .closeObject :: rest =>
      readNext stack (.object ((key, value) :: fields).reverse) rest
  | _, _, _ => none

end

/-- The written value of a text. -/
def parse? (text : Text) : Option Written := do readValue [] (← Json.tokens text)

mutual

/-- The value of what is written, with at most `depth` levels of arrays and
objects. -/
def value? (depth : Nat) : Written → Option Json
  | null => some .null
  | bool b => some (.bool b)
  | number literal => (Number.ofLiteral? literal).map .number
  | text t => t.map .text
  | array items =>
      match depth with
      | 0 => none
      | depth + 1 => (values? depth items).map .array
  | object fields =>
      match depth with
      | 0 => none
      | depth + 1 => (fieldValues? depth fields).map Json.fields

/-- The values of items in order. -/
def values? (depth : Nat) : List Written → Option (List Json)
  | [] => some []
  | item :: rest => do return (← item.value? depth) :: (← values? depth rest)

/-- The values of fields in order. -/
def fieldValues? (depth : Nat) : List (Option Text × Written) → Option (List (Text × Json))
  | [] => some []
  | (key, item) :: rest => do
      return (← key, ← item.value? depth) :: (← fieldValues? depth rest)

end

end Written

/-- The most levels of arrays and objects a value may have. -/
def Json.maxDepth : Nat := 127

/-- The value of a JSON text. -/
def Json.parse? (text : Text) : Option Json := do
  (← Written.parse? text).value? Json.maxDepth

end Directives
