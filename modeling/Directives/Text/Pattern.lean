/-
Patterns and the search for their matches.

A pattern is a row of character classes, each taken once or any number of times. A match
takes the classes in order from the start of a text. A class that repeats takes as many
characters as it can, and gives characters back where the classes behind it find no match
otherwise. A search goes through a text from the left: a match is taken where one starts,
and the search goes on behind it.

* `Pattern.Item`: one class of the row; `Pattern`: a row whose first class is taken once, so
  that no match is empty.
* `Pattern.longest?`: characters of a class, as many as what follows them allows.
* `Pattern.readItems?`, `Pattern.read?`: the match a text starts with, part by part.
* `Pattern.Match`: a place where a pattern matches.
* `Pattern.search`: the matches in a text; `Pattern.searchFrom` is the walk behind it.
-/
import Directives.Text.Basic

namespace Directives

/-- A class of characters in a pattern. -/
inductive Pattern.Item
  /-- One character of the class. -/
  | once (p : Char → Bool)
  /-- Any number of characters of the class. -/
  | many (p : Char → Bool)

/-- The shape of the texts that are searched for. -/
structure Pattern where
  /-- The class of the first character. -/
  first : Char → Bool
  /-- What follows the first character. -/
  items : List Pattern.Item

namespace Pattern

/-- The most characters of a class that leave a text on which `next` has an answer, and
that answer. -/
def longest? {α : Type} (p : Char → Bool) (next : Text → Option α) : Text → Option (Text × α)
  | [] => (next []).map fun answer => ([], answer)
  | c :: rest =>
      let fewest := (next (c :: rest)).map fun answer => ([], answer)
      if p c then
        match longest? p next rest with
        | some (part, answer) => some (c :: part, answer)
        | none => fewest
      else
        fewest

/-- The parts that the items take from the start of a text, and the text behind them. -/
def readItems? : List Item → Text → Option (List Text × Text)
  | [], text => some ([], text)
  | .once _ :: _, [] => none
  | .once p :: items, c :: rest =>
      if p c then (readItems? items rest).map fun (parts, rest) => ([c] :: parts, rest) else none
  | .many p :: items, text =>
      (longest? p (readItems? items) text).map fun (part, parts, rest) => (part :: parts, rest)

/-- The classes of the pattern in order. -/
def row (pattern : Pattern) : List Item := .once pattern.first :: pattern.items

/-- The match a text starts with, part by part, and the text behind it. -/
def read? (pattern : Pattern) (text : Text) : Option (List Text × Text) :=
  readItems? pattern.row text

/-- A place where a pattern matches. -/
structure Match where
  /-- How many characters stand in front of the match. -/
  start : Nat
  /-- What each item takes. -/
  parts : List Text
  deriving Repr, DecidableEq

/-- How many characters stand in front of the text behind the match. -/
def Match.stop (m : Match) : Nat := m.start + m.parts.flatten.length

/-- The matches in a text with `start` characters in front of it. The first `skip` characters
still belong to the match found last. -/
def searchFrom (pattern : Pattern) : (skip start : Nat) → Text → List Match
  | _, _, [] => []
  | skip + 1, start, _ :: rest => pattern.searchFrom skip (start + 1) rest
  | 0, start, c :: rest =>
      match pattern.read? (c :: rest) with
      | some (parts, _) =>
          ⟨start, parts⟩ :: pattern.searchFrom (parts.flatten.length - 1) (start + 1) rest
      | none => pattern.searchFrom 0 (start + 1) rest

/-- The matches in a text, from the left and without overlap. -/
def search (pattern : Pattern) (text : Text) : List Match := pattern.searchFrom 0 0 text

end Pattern

end Directives
