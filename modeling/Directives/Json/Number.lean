/-
JSON numbers.

An integer that fits 64 bits, signed or unsigned, is kept as it is; every other
number is a double. The digits of a literal are read into 64 bits, digits beyond
that are dropped, and the power of ten is applied in double arithmetic, so the
result may be off by one place from the nearest double. A magnitude beyond the
doubles is no number. `-0` is a double, because integers have one zero.

* `Number`: an integer or a double.
* `Number.isLiteral`: the grammar of literals.
* `Number.ofLiteral?`: the number of a literal.
* `Number.text`: the shortest text of a number, positional from `1e-5` below
  `1e+16` and with an exponent elsewhere.
-/
import Directives.Text.Basic
import Directives.Decimal.Shortest

namespace Directives

/-- A JSON number. -/
inductive Number
  | integer (value : Int)
  | double (value : Float)
  deriving Repr

namespace Number

/-! ### Literals -/

/-- The text after a run of at least one digit. -/
def afterDigits? (text : Text) : Option Text :=
  match text with
  | c :: _ => if Text.isDigit c then some (text.dropWhile Text.isDigit) else none
  | [] => none

/-- The text after the integer part of a literal, which has no leading zero. -/
def afterInteger? : Text → Option Text
  | '0' :: rest => some rest
  | text => afterDigits? text

/-- The text after the fraction of a literal, if it has one. -/
def afterFraction? : Text → Option Text
  | '.' :: rest => afterDigits? rest
  | text => some text

/-- An exponent without its sign. -/
def dropSign : Text → Text
  | '+' :: rest => rest
  | '-' :: rest => rest
  | text => text

/-- The text after the exponent of a literal, if it has one. -/
def afterExponent? : Text → Option Text
  | [] => some []
  | c :: rest => if c = 'e' || c = 'E' then afterDigits? (dropSign rest) else some (c :: rest)

/-- The literal without a minus sign in front. -/
def magnitude : Text → Text
  | '-' :: rest => rest
  | text => text

/-- The text is a number literal. -/
def isLiteral (text : Text) : Bool :=
  match do afterExponent? (← afterFraction? (← afterInteger? (magnitude text))) with
  | some [] => true
  | _ => false

/-! ### Values -/

/-- The digits that fit 64 bits, as a number, and how many digits of the run
they leave out. Once one digit did not fit, those after it are left out too. -/
def digitsWithin (value : Nat) : Text → Nat × Nat
  | [] => (value, 0)
  | c :: rest =>
      let next := value * 10 + (c.toNat - '0'.toNat)
      if next < UInt64.size then digitsWithin next rest else (value, (c :: rest).length)

/-- A double scaled by a power of ten. One factor reaches at most `1e308`, so
smaller scales divide first by that; there is no result beyond the doubles. -/
def scaled? (f : Float) (exponent : Int) : Option Float :=
  if exponent.natAbs ≤ 308 then
    let power := Float.ofScientific 1 false exponent.natAbs
    if exponent ≥ 0 then
      let g := f * power
      if g.isInf then none else some g
    else
      some (f / power)
  else if f == 0.0 then some f
  else if exponent ≥ 0 then none
  else scaled? (f / 1e308) (exponent + 308)
termination_by exponent.natAbs
decreasing_by omega

/-- The exponent of a literal with its sign. A run of digits beyond 31 bits
counts as the largest number of 31 bits. -/
def exponentOf (text : Text) : Int :=
  let digits := dropSign text
  let size : Nat := min ((Text.toNat? 10 digits).getD 0) 2147483647
  if text.head? = some '-' then -(size : Int) else size

/-- The double of a literal, given by its integer digits, its fraction digits
and its exponent. -/
def double? (whole fraction : Text) (exponent : Int) : Option Float :=
  let (significand, dropped) := digitsWithin 0 whole
  let (significand, missing) := digitsWithin significand fraction
  let taken := fraction.length - missing
  scaled? (UInt64.ofNat significand).toFloat (exponent + dropped - taken)

/-- The number of a literal. -/
def ofLiteral? (text : Text) : Option Number :=
  let negative := text.head? = some '-'
  let unsigned := magnitude text
  let whole := unsigned.takeWhile Text.isDigit
  let afterWhole := unsigned.dropWhile Text.isDigit
  let fraction :=
    if afterWhole.head? = some '.' then (afterWhole.drop 1).takeWhile Text.isDigit else []
  let afterFraction :=
    if afterWhole.head? = some '.' then (afterWhole.drop 1).dropWhile Text.isDigit else afterWhole
  let value := (Text.toNat? 10 whole).getD 0
  if afterWhole.isEmpty && !negative && value < UInt64.size then
    some (integer value)
  else if afterWhole.isEmpty && negative && 0 < value && value ≤ Nat.pow 2 63 then
    some (integer (-(value : Int)))
  else
    let exponent := if afterFraction.isEmpty then 0 else exponentOf (afterFraction.drop 1)
    (double? whole fraction exponent).map fun f => double (if negative then -f else f)

/-! ### Texts -/

/-- The text of an integer. -/
def integerText (value : Int) : Text :=
  if value < 0 then '-' :: Text.ofNat value.natAbs else Text.ofNat value.natAbs

/-- The text of an exponent, which always has a sign. -/
def exponentText (exponent : Int) : Text :=
  if exponent < 0 then integerText exponent else '+' :: integerText exponent

/-- The text of a decimal: positional if its point stands at most five places
before and sixteen places after its first digit, with an exponent elsewhere. -/
def decimalText (d : Decimal) : Text :=
  let digits := Text.ofNat d.digits
  let count : Int := digits.length
  let point := count + d.exponent
  if 0 ≤ d.exponent && point ≤ 16 then
    digits ++ List.replicate d.exponent.toNat '0' ++ ".0"
  else if 0 < point && point ≤ 16 then
    digits.take point.toNat ++ '.' :: digits.drop point.toNat
  else if -5 < point && point ≤ 0 then
    ("0." : Text) ++ List.replicate (-point).toNat '0' ++ digits
  else
    let mantissa := if digits.length ≤ 1 then digits else digits.take 1 ++ '.' :: digits.drop 1
    mantissa ++ 'e' :: exponentText (point - 1)

/-- The text of a finite double. Zero keeps its sign. -/
def doubleText (f : Float) : Text :=
  let body :=
    match Binary.ofFloat? f with
    | none => "0.0"
    | some b => decimalText b.shortest
  if f.toBits.toNat < Nat.pow 2 63 then body else '-' :: body

/-- The text of a number. -/
def text : Number → Text
  | integer value => integerText value
  | double value => doubleText value

end Number

end Directives
