/-
Data: untyped values that definitions and configs are read from.

A datum keeps of a structured text what matters to its readers: texts are told
from words like `true` and from numbers, and of the numbers only those that may
stand for the place of a field are kept.

* `Datum`: null, booleans, numbers, texts, lists, maps.
* `Datum.ofJson`: the datum of a JSON value.
* `Datum.argument?`: a named part of a map, or of a list in the order of the
  names. A part is smaller than the whole (`argument?_lt`).
-/
import Directives.Json.Basic

namespace Directives

/-- An untyped value. -/
inductive Datum
  | null
  | bool (value : Bool)
  /-- A natural number of at most 64 bits. -/
  | nat (value : Nat)
  /-- Any other number. -/
  | number
  | text (value : Text)
  | list (items : List Datum)
  | map (entries : List (Datum × Datum))
  deriving Repr

namespace Datum

/-- The text of a datum that is one. -/
def text? : Datum → Option Text
  | text value => some value
  | _ => none

/-- The truth value of a datum that is one. -/
def bool? : Datum → Option Bool
  | bool value => some value
  | _ => none

/-- Reads a datum that may be null. -/
def nullOr? {α : Type} (read : Datum → Option α) : Datum → Option (Option α)
  | null => some none
  | d => (read d).map some

/-- Reads the items of a list in order. -/
def listOf? {α : Type} (read : Datum → Option α) : Datum → Option (List α)
  | list items => items.mapM read
  | _ => none

/-- Reads the entries of a map from texts, in order. -/
def entriesOf? {α : Type} (read : Datum → Option α) : Datum → Option (List (Text × α))
  | map entries => entries.mapM fun (key, value) => do return (← key.text?, ← read value)
  | _ => none

mutual

/-- The datum of a JSON value. -/
def ofJson : Json → Datum
  | .null => null
  | .bool b => bool b
  | .number (.integer n) => if 0 ≤ n then nat n.toNat else number
  | .number (.double _) => number
  | .text t => text t
  | .array items => list (ofItems items)
  | .object fields => map (ofFields fields)

/-- The data of JSON values in order. -/
def ofItems : List Json → List Datum
  | [] => []
  | item :: rest => ofJson item :: ofItems rest

/-- The entries of JSON fields in order. -/
def ofFields : List (Text × Json) → List (Datum × Datum)
  | [] => []
  | (key, value) :: rest => (text key, ofJson value) :: ofFields rest

end

/-! ### Named parts -/

/-- The name that a key gives, where `names` are the names that matter: a text
gives itself, and a number the name at its place. Other keys give none. -/
def keyName? (names : List Text) : Datum → Option Text
  | text name => some name
  | nat place => some (names.getD place [])
  | _ => none

/-- The values under a name. -/
def valuesOf (names : List Text) (name : Text) (entries : List (Datum × Datum)) : List Datum :=
  (entries.filter fun entry => keyName? names entry.1 == some name).map Prod.snd

/-- Every key of the entries gives a name, and none of `names` is given twice. -/
def isRecord (names : List Text) (entries : List (Datum × Datum)) : Bool :=
  entries.all (fun entry => (keyName? names entry.1).isSome)
    && names.all (fun name => (valuesOf names name entries).length ≤ 1)

/-- The datum may be read as a record with the given names: a map with proper
keys, or a list of at most as many items. -/
def isArguments (names : List Text) : Datum → Bool
  | map entries => isRecord names entries
  | list items => items.length ≤ names.length
  | _ => false

/-- The part of a name: its value in a map, or the item at its place in a list. -/
def argument? (names : List Text) (name : Text) : Datum → Option Datum
  | map entries => (valuesOf names name entries).head?
  | list items => (names.findIdx? (· == name)).bind (items[·]?)
  | _ => none

/-- A part is smaller than the whole. -/
theorem argument?_lt {names : List Text} {name : Text} {d part : Datum}
    (h : argument? names name d = some part) : sizeOf part < sizeOf d := by
  unfold argument? at h
  split at h
  · rename_i entries
    have hmem : part ∈ valuesOf names name entries := List.mem_of_head? h
    unfold valuesOf at hmem
    obtain ⟨entry, hentry, rfl⟩ := List.mem_map.1 hmem
    have h1 := List.sizeOf_lt_of_mem (List.mem_filter.1 hentry).1
    obtain ⟨key, value⟩ := entry
    simp only [Prod.mk.sizeOf_spec, Datum.map.sizeOf_spec] at h1 ⊢
    omega
  · rename_i items
    rw [Option.bind_eq_some_iff] at h
    obtain ⟨place, _, h⟩ := h
    have h1 := List.sizeOf_lt_of_mem (List.mem_of_getElem? h)
    simp only [Datum.list.sizeOf_spec]
    omega
  · cases h

/-- Reads a named part that must be there. -/
def required? {α : Type} (names : List Text) (name : Text) (read : Datum → Option α) (d : Datum) :
    Option α := do
  read (← d.argument? names name)

/-- Reads a named part, or takes `default` where it is missing. -/
def orElse? {α : Type} (names : List Text) (name : Text) (read : Datum → Option α) (default : α)
    (d : Datum) : Option α :=
  match d.argument? names name with
  | none => some default
  | some part => read part

/-- The word of a datum that names one of several choices: a text or the place
of a word, alone or as the key of a map to null. -/
def choice? (words : List Text) : Datum → Option Text
  | text word => if words.contains word then some word else none
  | map [(key, null)] =>
      match key with
      | text word => if words.contains word then some word else none
      | nat place => words[place]?
      | _ => none
  | _ => none

end Datum

end Directives
