/-
Tags of YAML nodes.

A tag is text in which percent escapes spell single bytes. Escapes that together
spell no character leave a gap in the tag, and a null character ends it. A tag
behind an exclamation mark names a choice, unless it has gaps.

* `Yaml.Tag`: characters and gaps.
* `Yaml.Tag.ofText`, `Yaml.Tag.text?`: the tag of a text, and the text of a tag.
* `Yaml.Tag.core`: the tags of the core schema.
* `Yaml.Tag.unescape?`: the tag that a text with escapes spells.
* `Yaml.Tag.choice?`: the word that a tag chooses.
-/
import Directives.Yaml.Source

namespace Directives.Yaml

/-- A tag: its characters in order, with `none` for bytes that spell none. -/
structure Tag where
  characters : List (Option Char)
  deriving Repr, DecidableEq

namespace Tag

/-- The tag of a text. -/
def ofText (text : Text) : Tag := ⟨text.map some⟩

/-- The text of a tag without gaps. -/
def text? (tag : Tag) : Option Text := tag.characters.mapM id

/-- One tag behind the other. -/
def append (start suffix : Tag) : Tag := ⟨start.characters ++ suffix.characters⟩

/-- The tag has no characters. -/
def isEmpty (tag : Tag) : Bool := tag.characters.isEmpty

/-- The exclamation mark alone. -/
def bare : Tag := ofText ['!']

/-- What the tags of the core schema start with. -/
def coreStart : Tag := ofText "tag:yaml.org,2002:"

/-- A tag of the core schema. -/
def core (name : Text) : Tag := coreStart.append (ofText name)

/-- The tag starts with an exclamation mark. -/
def isLocal (tag : Tag) : Bool := tag.characters.head? == some (some '!')

/-- The word that a tag chooses: its text behind the exclamation mark. -/
def choice? (tag : Tag) : Option Text := if tag.isLocal then tag.text?.map (·.drop 1) else none

/-! ### Percent escapes -/

/-- A part of a tag as it is written. -/
inductive Part
  /-- A character that stands for itself. -/
  | char (c : Char)
  /-- A byte that an escape spells. -/
  | byte (value : Nat)
  deriving Repr, DecidableEq

/-- The parts of a text, if each percent sign has two hexadecimal digits. -/
def parts? : Text → Option (List Part)
  | [] => some []
  | '%' :: a :: b :: rest => do
      let high ← Text.digitValue? 16 a
      let low ← Text.digitValue? 16 b
      return .byte (high * 16 + low) :: (← parts? rest)
  | c :: rest => if c = '%' then none else do return .char c :: (← parts? rest)

/-- The number of bytes of a character that starts with the given byte. -/
def byteCount? (first : Nat) : Option Nat :=
  if first < 0x80 then some 1
  else if 0xc0 ≤ first && first < 0xe0 then some 2
  else if 0xe0 ≤ first && first < 0xf0 then some 3
  else if 0xf0 ≤ first && first < 0xf8 then some 4
  else none

/-- The byte goes on with a character. -/
def continues (byte : Nat) : Bool := 0x80 ≤ byte && byte < 0xc0

/-- The character that bytes spell, given last byte first. -/
def spelled? (bytes : List Nat) : Option Char := do
  (← String.fromUTF8? ⟨(bytes.reverse.map UInt8.ofNat).toArray⟩).toList.head?

/-- The characters of parts. The bytes read of a character stand in `bytes`, last
one first, and it lacks `missing` more of them. -/
def characters? (bytes : List Nat) (missing : Nat) : List Part → Option (List (Option Char))
  | [] => if missing = 0 then some [] else none
  | .char c :: rest =>
      if missing = 0 then do return some c :: (← characters? [] 0 rest) else none
  | .byte b :: rest =>
      match missing with
      | 0 => do
          match ← byteCount? b with
          | count + 2 => characters? [b] (count + 1) rest
          | _ => return some (Char.ofNat b) :: (← characters? [] 0 rest)
      | missing + 1 =>
          if !continues b then none
          else if missing = 0 then do return spelled? (b :: bytes) :: (← characters? [] 0 rest)
          else characters? (b :: bytes) missing rest

/-- The tag that a text with escapes spells, up to its first null character. -/
def unescape? (text : Text) : Option Tag := do
  return ⟨(← characters? [] 0 (← parts? text)).takeWhile (· != some '\x00')⟩

end Tag

end Directives.Yaml
