/-
JSON values and their texts.

* `Json`: a value. The fields of an object are in the order of their keys and
  no key occurs twice, as long as objects are made by `Json.fields`.
* `Json.fields`: an object from fields in any order, of which the last one of a
  key counts.
* `Json.compact`: the text without spaces; `Json.pretty`: the text with one
  member a line.
-/
import Directives.Json.Number

namespace Directives

/-- A JSON value. -/
inductive Json
  | null
  | bool (value : Bool)
  | number (value : Number)
  | text (value : Text)
  | array (items : List Json)
  | object (fields : List (Text × Json))
  deriving Repr

namespace Json

/-- Puts a field at the place of its key. A field of the same key gives way. -/
def insertField (key : Text) (value : Json) : List (Text × Json) → List (Text × Json)
  | [] => [(key, value)]
  | (k, v) :: rest =>
      if k = key then (key, value) :: rest
      else if Text.before key k then (key, value) :: (k, v) :: rest
      else (k, v) :: insertField key value rest

/-- An object with its fields in the order of their keys. The last field of a
key counts. -/
def fields (entries : List (Text × Json)) : Json :=
  object (entries.foldl (fun sorted (key, value) => insertField key value sorted) [])

/-- The number of a natural number. -/
def nat (n : Nat) : Json := number (.integer n)

/-- The value of a key in an object. -/
def field? (key : Text) : Json → Option Json
  | object fields => fields.lookup key
  | _ => none

/-! ### Texts -/

/-- A hexadecimal digit in lower case. -/
def hexDigit (n : Nat) : Char := Nat.digitChar n

/-- How a character is written inside quotes: quote, backslash and control
characters are escaped, all else stands for itself. -/
def quoteChar (c : Char) : Text :=
  if c = '"' then ['\\', '"']
  else if c = '\\' then ['\\', '\\']
  else if c = '\n' then ['\\', 'n']
  else if c = '\r' then ['\\', 'r']
  else if c = '\t' then ['\\', 't']
  else if c.toNat = 8 then ['\\', 'b']
  else if c.toNat = 12 then ['\\', 'f']
  else if c.toNat < 32 then
    ['\\', 'u', '0', '0', hexDigit (c.toNat / 16), hexDigit (c.toNat % 16)]
  else [c]

/-- A text between quotes. -/
def quote (text : Text) : Text := '"' :: (text.flatMap quoteChar ++ ['"'])

mutual

/-- The text of a value without spaces. -/
def compact : Json → Text
  | null => "null"
  | bool true => "true"
  | bool false => "false"
  | number n => n.text
  | text t => quote t
  | array items => '[' :: (compactItems items ++ [']'])
  | object fields => '{' :: (compactFields fields ++ ['}'])

/-- The texts of the items of an array, with commas between them. -/
def compactItems : List Json → Text
  | [] => []
  | [item] => item.compact
  | item :: next :: rest => item.compact ++ ',' :: compactItems (next :: rest)

/-- The texts of the fields of an object, with commas between them. -/
def compactFields : List (Text × Json) → Text
  | [] => []
  | [(key, value)] => quote key ++ ':' :: value.compact
  | (key, value) :: next :: rest =>
      quote key ++ ':' :: (value.compact ++ ',' :: compactFields (next :: rest))

end

/-- A new line with a margin of two spaces for each level. -/
def newLine (level : Nat) : Text := '\n' :: List.replicate (2 * level) ' '

mutual

/-- The text of a value with one member a line, at the given level. -/
def prettyAt (level : Nat) : Json → Text
  | array [] => "[]"
  | array (item :: rest) => '[' :: (prettyItems level (item :: rest) ++ newLine level ++ [']'])
  | object [] => ['{', '}']
  | object (field :: rest) => '{' :: (prettyFields level (field :: rest) ++ newLine level ++ ['}'])
  | null => "null"
  | bool true => "true"
  | bool false => "false"
  | number n => n.text
  | text t => quote t

/-- The texts of the items of an array, each on a line of the next level. -/
def prettyItems (level : Nat) : List Json → Text
  | [] => []
  | [item] => newLine (level + 1) ++ item.prettyAt (level + 1)
  | item :: next :: rest =>
      newLine (level + 1) ++ item.prettyAt (level + 1) ++ ',' :: prettyItems level (next :: rest)

/-- The texts of the fields of an object, each on a line of the next level. -/
def prettyFields (level : Nat) : List (Text × Json) → Text
  | [] => []
  | [(key, value)] => newLine (level + 1) ++ quote key ++ ": " ++ value.prettyAt (level + 1)
  | (key, value) :: next :: rest =>
      newLine (level + 1) ++ quote key ++ ": " ++ value.prettyAt (level + 1)
        ++ ',' :: prettyFields level (next :: rest)

end

/-- The text of a value with one member a line. -/
def pretty (value : Json) : Text := value.prettyAt 0

end Json

end Directives
