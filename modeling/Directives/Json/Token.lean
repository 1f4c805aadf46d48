/-
Tokens of JSON text.

The characters are read once from left to right. A quoted text is kept even if
its escapes name half of a surrogate pair only; it then has no characters, which
matters where the text is used and not where it is passed over.

* `Json.Token`: punctuation, words, number literals, quoted texts.
* `Json.pairSurrogates`: the characters of code units, if they pair up.
* `Json.tokens`: the tokens of a text, if it has any division into tokens.
-/
import Directives.Json.Basic

namespace Directives.Json

/-- A token of JSON text. -/
inductive Token
  | openObject
  | closeObject
  | openArray
  | closeArray
  | comma
  | colon
  | null
  | bool (value : Bool)
  /-- A number literal. -/
  | number (literal : Text)
  /-- A quoted text, or none where its escapes are no characters. -/
  | text (value : Option Text)
  deriving Repr, DecidableEq

/-- The characters of a sequence of code points, in which a high surrogate and a
low surrogate that follow one another make up one character. -/
def pairSurrogates : List Nat → Option Text
  | [] => some []
  | [unit] => if Nat.isValidChar unit then some [Char.ofNat unit] else none
  | unit :: next :: rest =>
      if 0xd800 ≤ unit && unit < 0xdc00 then
        if 0xdc00 ≤ next && next < 0xe000 then
          (pairSurrogates rest).map
            (Char.ofNat (0x10000 + (unit - 0xd800) * 0x400 + (next - 0xdc00)) :: ·)
        else
          none
      else if Nat.isValidChar unit then
        (pairSurrogates (next :: rest)).map (Char.ofNat unit :: ·)
      else
        none

/-- A character between tokens. -/
def isSpace (c : Char) : Bool := c == ' ' || c == '\t' || c == '\n' || c == '\r'

/-- A character of a word or a number literal. -/
def isBare (c : Char) : Bool :=
  Text.isLetter c || Text.isDigit c || c == '+' || c == '-' || c == '.'

/-- The token of a word or a number literal. -/
def bareToken? (run : Text) : Option Token :=
  if run = "null".toList then some .null
  else if run = "true".toList then some (.bool true)
  else if run = "false".toList then some (.bool false)
  else if Number.isLiteral run then some (.number run)
  else none

/-- The token of a punctuation character. -/
def punctuation? (c : Char) : Option Token :=
  match c with
  | '{' => some .openObject
  | '}' => some .closeObject
  | '[' => some .openArray
  | ']' => some .closeArray
  | ',' => some .comma
  | ':' => some .colon
  | _ => none

/-- The code point of a one-letter escape. -/
def escape? (c : Char) : Option Nat :=
  match c with
  | '"' => some 0x22
  | '\\' => some 0x5c
  | '/' => some 0x2f
  | 'b' => some 0x08
  | 'f' => some 0x0c
  | 'n' => some 0x0a
  | 'r' => some 0x0d
  | 't' => some 0x09
  | _ => none

mutual

/-- The tokens of a text, from a place between tokens. -/
def tokens : Text → Option (List Token)
  | [] => some []
  | c :: rest =>
      if isSpace c then tokens rest
      else if c = '"' then quotedTokens [] rest
      else if isBare c then bareTokens [c] rest
      else do return (← punctuation? c) :: (← tokens rest)

/-- The tokens of a text, from inside a word or a number literal of which
`run` is read already, last character first. -/
def bareTokens (run : Text) : Text → Option (List Token)
  | [] => do return [← bareToken? run.reverse]
  | c :: rest =>
      if isBare c then bareTokens (c :: run) rest
      else if isSpace c then do return (← bareToken? run.reverse) :: (← tokens rest)
      else do return (← bareToken? run.reverse) :: (← punctuation? c) :: (← tokens rest)

/-- The tokens of a text, from inside quotes of which `units` are read already,
last unit first. -/
def quotedTokens (units : List Nat) : Text → Option (List Token)
  | [] => none
  | '"' :: rest => do return .text (pairSurrogates units.reverse) :: (← tokens rest)
  | '\\' :: 'u' :: a :: b :: c :: d :: rest => do
      quotedTokens ((← Text.toNat? 16 [a, b, c, d]) :: units) rest
  | '\\' :: c :: rest => do quotedTokens ((← escape? c) :: units) rest
  | c :: rest => if c.toNat < 32 || c = '\\' then none else quotedTokens (c.toNat :: units) rest

end

end Directives.Json
