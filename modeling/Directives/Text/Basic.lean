/-
Texts as lists of characters.

Every payload, key and document of the library is a list of characters, so a
law about texts is a law about lists and needs no theory of encodings.

* `Text`: a list of Unicode scalar values; string literals coerce to it.
* `Text.join`: texts with a separator between them.
* `Text.replaceAll`: every occurrence of a pattern, from the left, replaced.
* `Text.startsWith`, `Text.contains`: a pattern at the start, or anywhere.
* `Text.padRight`: blanks up to a width counted in characters.
* `Text.ofNat`: the decimal numeral of a number.
-/
namespace Directives

/-- A text is the list of its characters. -/
abbrev Text := List Char

/-- A string literal stands for the list of its characters. -/
instance : Coe String Text := ⟨String.toList⟩

namespace Text

/-- The parts in order with `separator` between neighbours. -/
def join (separator : Text) : List Text → Text
  | [] => []
  | [part] => part
  | part :: next :: rest => part ++ separator ++ join separator (next :: rest)

/-- `pattern` stands at the start of the text. -/
def startsWith (pattern text : Text) : Bool := pattern.isPrefixOf text

/-- `pattern` stands somewhere in the text. -/
def contains (pattern : Text) : Text → Bool
  | [] => pattern.isEmpty
  | c :: rest => startsWith pattern (c :: rest) || contains pattern rest

/-- What is left of the text when `pattern` is taken off its start. -/
def dropStart? (pattern text : Text) : Option Text :=
  if startsWith pattern text then some (text.drop pattern.length) else none

/-- What is left of the text when `pattern` is taken off its end. -/
def dropEnd? (pattern text : Text) : Option Text :=
  if pattern.isSuffixOf text then some (text.take (text.length - pattern.length)) else none

/-- The walk behind `replaceAll`: `skip` characters still belong to the
occurrence found last. -/
def replaceFrom (pattern replacement : Text) : Nat → Text → Text
  | _, [] => []
  | skip + 1, _ :: rest => replaceFrom pattern replacement skip rest
  | 0, c :: rest =>
      if startsWith pattern (c :: rest) then
        replacement ++ replaceFrom pattern replacement (pattern.length - 1) rest
      else
        c :: replaceFrom pattern replacement 0 rest

/-- Every occurrence of `pattern`, taken from the left without overlap, gives
way to `replacement`. The empty pattern occurs before every character and at the end. -/
def replaceAll (pattern replacement text : Text) : Text :=
  if pattern.isEmpty then
    text.foldr (fun c rest => replacement ++ c :: rest) replacement
  else
    replaceFrom pattern replacement 0 text

/-- The text followed by as many spaces as it falls short of `width`. -/
def padRight (width : Nat) (text : Text) : Text :=
  text ++ List.replicate (width - text.length) ' '

/-- The number with zeros in front up to `width` digits. -/
def padZeros (width : Nat) (digits : Text) : Text :=
  List.replicate (width - digits.length) '0' ++ digits

/-- The decimal numeral of a number. -/
def ofNat (n : Nat) : Text := Nat.toDigits 10 n

/-- The order of code points, shorter first where one text starts the other. -/
def before : Text → Text → Bool
  | [], [] => false
  | [], _ :: _ => true
  | _ :: _, [] => false
  | a :: as, b :: bs => a < b || (a == b && before as bs)

/-- An ASCII letter, of either case. -/
def isLetter (c : Char) : Bool := ('a' ≤ c && c ≤ 'z') || ('A' ≤ c && c ≤ 'Z')

/-- An ASCII digit. -/
def isDigit (c : Char) : Bool := '0' ≤ c && c ≤ '9'

/-- The value of a digit in a base up to sixteen, if the character is one. -/
def digitValue? (base : Nat) (c : Char) : Option Nat :=
  let value :=
    if isDigit c then c.toNat - '0'.toNat
    else if 'a' ≤ c && c ≤ 'f' then c.toNat - 'a'.toNat + 10
    else if 'A' ≤ c && c ≤ 'F' then c.toNat - 'A'.toNat + 10
    else base
  if value < base then some value else none

/-- The number a run of digits denotes in a base. The empty run denotes none. -/
def toNat? (base : Nat) (digits : Text) : Option Nat :=
  if digits.isEmpty then none
  else digits.foldl (fun value c => do return (← value) * base + (← digitValue? base c)) (some 0)

end Text

end Directives
