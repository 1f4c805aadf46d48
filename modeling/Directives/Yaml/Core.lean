/-
The core schema: what a plain scalar stands for.

* `Yaml.isNull`, `Yaml.bool?`: the words for null and for truth values.
* `Yaml.integer?`: decimal, hexadecimal, octal and binary integers.
* `Yaml.isDouble`: the numbers of a double, infinities and the non-number.
* `Yaml.plainDatum?`: the datum of a plain scalar. Integers beyond 64 bits that
  fit 128 bits have none.
-/
import Directives.Datum
import Directives.Json.Number

namespace Directives.Yaml

/-- A word for null. -/
def isNull (text : Text) : Bool := (["~", "null", "Null", "NULL"] : List Text).contains text

/-- The truth value of a word. -/
def bool? (text : Text) : Option Bool :=
  if (["true", "True", "TRUE"] : List Text).contains text then some true
  else if (["false", "False", "FALSE"] : List Text).contains text then some false
  else none

/-- The text without a sign in front. -/
def unsigned : Text → Text
  | '+' :: rest => rest
  | '-' :: rest => rest
  | text => text

/-- Digits with a zero in front. They make no integer, and a double only where one
is asked for. -/
def isZeroLed (text : Text) : Bool :=
  match unsigned text with
  | '0' :: c :: rest => (c :: rest).all Text.isDigit
  | _ => false

/-- The integer of a text: a sign, a base, digits. -/
def integer? (text : Text) : Option Int :=
  if isZeroLed text then none
  else
    let negative := text.head? == some '-'
    let magnitude :=
      match unsigned text with
      | '0' :: 'x' :: rest => Text.toNat? 16 rest
      | '0' :: 'o' :: rest => Text.toNat? 8 rest
      | '0' :: 'b' :: rest => Text.toNat? 2 rest
      | rest => Text.toNat? 10 rest
    magnitude.map fun n => if negative then -(n : Int) else n

/-- The least number that rounds to no double, `2 ^ 1024 - 2 ^ 970`. -/
def doubleBound : Nat := Nat.pow 2 1024 - Nat.pow 2 970

/-- The number `digits * 10 ^ exponent` rounds to a double. Exponents beyond the
digits by more than 400 places are decided without computing the number. -/
def isWithinDoubles (digits : Text) (exponent : Int) : Bool :=
  let value := (Text.toNat? 10 digits).getD 0
  if value = 0 then true
  else
    let point := ((Text.ofNat value).length : Int) + exponent
    if point ≤ 300 then true
    else if 400 ≤ point then false
    else value * Nat.pow 10 exponent.toNat < doubleBound * Nat.pow 10 (-exponent).toNat

/-- The text is a decimal number within the doubles: digits with or without a
point, at least one, and perhaps an exponent. -/
def isDecimal (text : Text) : Bool :=
  let whole := text.takeWhile Text.isDigit
  let afterWhole := text.dropWhile Text.isDigit
  let hasPoint := afterWhole.head? == some '.'
  let fraction := if hasPoint then (afterWhole.drop 1).takeWhile Text.isDigit else []
  let afterFraction := if hasPoint then (afterWhole.drop 1).dropWhile Text.isDigit else afterWhole
  if whole.isEmpty && fraction.isEmpty then false
  else
    match afterFraction with
    | [] => isWithinDoubles (whole ++ fraction) (-(fraction.length : Int))
    | e :: exponent =>
        (e == 'e' || e == 'E') && !(unsigned exponent).isEmpty
          && (unsigned exponent).all Text.isDigit
          && isWithinDoubles (whole ++ fraction)
            (Number.exponentOf exponent - (fraction.length : Int))

/-- The text is a number of a double, an infinity or the non-number. -/
def isDouble (text : Text) : Bool :=
  if ([".nan", ".NaN", ".NAN"] : List Text).contains text then true
  else ([".inf", ".Inf", ".INF"] : List Text).contains (unsigned text) || isDecimal (unsigned text)

/-- What becomes of an integer. -/
inductive Width
  /-- A natural number of at most 64 bits, written without a minus sign. -/
  | small (value : Nat)
  /-- Another integer of 64 bits. -/
  | signed
  /-- An integer that fits 128 bits only. -/
  | wide
  /-- An integer beyond that, which counts as a double if it is a decimal one. -/
  | beyond

/-- What becomes of the integer of a text. -/
def width (text : Text) (n : Int) : Width :=
  if text.head? != some '-' then
    if n < (UInt64.size : Int) then .small n.toNat
    else if n < (Nat.pow 2 128 : Int) then .wide else .beyond
  else
    if -(Nat.pow 2 63 : Int) ≤ n then .signed
    else if -(Nat.pow 2 127 : Int) ≤ n then .wide else .beyond

/-- The datum of a text that is neither null, a truth value, nor an integer. -/
def doubleOrText (text : Text) : Datum :=
  if isDouble text && !isZeroLed text then .number else .text text

/-- The datum of a plain scalar. -/
def plainDatum? (text : Text) : Option Datum :=
  if text.isEmpty || isNull text then some .null
  else
    match bool? text, (integer? text).map (width text) with
    | some b, _ => some (.bool b)
    | none, some (.small n) => some (.nat n)
    | none, some .signed => some .number
    | none, some .wide => none
    | none, some .beyond => some (doubleOrText text)
    | none, none => some (doubleOrText text)

end Directives.Yaml
