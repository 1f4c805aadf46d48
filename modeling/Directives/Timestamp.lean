/-
Timestamps in universal time.

A timestamp is read from the text of a date, a time and an offset, with blanks
allowed between the parts, and is written in universal time with as many digits
of a second as it takes, in groups of three. A leap second counts as the second
before it, with a thousand million nanoseconds more.

* `Timestamp`: seconds since 1970 and nanoseconds.
* `Timestamp.dayOf`, `Timestamp.dateOf`: days and dates of the calendar.
* `Timestamp.parse?`: the timestamp of a text.
* `Timestamp.text`, `Timestamp.brief`: the text, and the text without fraction.
-/
import Directives.Text.Blank

namespace Directives

/-- A moment in universal time. -/
structure Timestamp where
  /-- The seconds since the start of 1970. -/
  seconds : Int
  /-- The nanoseconds since then, beyond a thousand million in a leap second. -/
  nanoseconds : Nat
  deriving Repr, DecidableEq

/-- A day of the calendar. -/
structure CalendarDate where
  year : Int
  month : Nat
  day : Nat
  deriving Repr, DecidableEq

namespace Timestamp

/-! ### Calendar -/

/-- The year has a 29th of February. -/
def isLeapYear (year : Int) : Bool := year % 4 == 0 && (year % 100 != 0 || year % 400 == 0)

/-- The number of days of a month. -/
def monthLength (year : Int) (month : Nat) : Nat :=
  if month = 2 then (if isLeapYear year then 29 else 28)
  else if month ∈ [4, 6, 9, 11] then 30
  else 31

/-- The days from the start of 1970 to a date. Years are counted from March, so
that the day that leap years have comes last. -/
def dayOf (date : CalendarDate) : Int :=
  let year := if date.month ≤ 2 then date.year - 1 else date.year
  let month : Int := (date.month + 9) % 12
  let dayOfYear := (153 * month + 2) / 5 + date.day - 1
  365 * year + year / 4 - year / 100 + year / 400 + dayOfYear - 719468

/-- The date that comes the given number of days after the start of 1970. -/
def dateOf (day : Int) : CalendarDate :=
  let shifted := day + 719468
  let era := shifted / 146097
  let dayOfEra := shifted % 146097
  let yearOfEra := (dayOfEra - dayOfEra / 1460 + dayOfEra / 36524 - dayOfEra / 146096) / 365
  let dayOfYear := dayOfEra - (365 * yearOfEra + yearOfEra / 4 - yearOfEra / 100)
  let month := (5 * dayOfYear + 2) / 153
  let calendarMonth := if month < 10 then month + 3 else month - 9
  { year := yearOfEra + era * 400 + if calendarMonth ≤ 2 then 1 else 0,
    month := calendarMonth.toNat,
    day := (dayOfYear - (153 * month + 2) / 5 + 1).toNat }

/-- The first year of the calendar. -/
def firstYear : Int := -262143

/-- The last year of the calendar. -/
def lastYear : Int := 262142

/-- The year belongs to the calendar. -/
def isYear (year : Int) : Bool := firstYear ≤ year && year ≤ lastYear

/-- The second of universal time belongs to the calendar. -/
def isInCalendar (seconds : Int) : Bool := isYear (dateOf (seconds / 86400)).year

/-! ### Reading -/

/-- The number of a run of at least one digit, `most` digits at the most, and the
text behind it. -/
def readNumber? (most : Nat) (text : Text) : Option (Nat × Text) :=
  let digits := (text.takeWhile Text.isDigit).take most
  (Text.toNat? 10 digits).map (·, text.drop digits.length)

/-- A number behind blanks. -/
def readField? (most : Nat) (text : Text) : Option (Nat × Text) := readNumber? most text.trimStart

/-- A year behind blanks. With a sign it may have any number of digits. -/
def readYear? (text : Text) : Option (Int × Text) :=
  match text.trimStart with
  | '-' :: rest => (readNumber? rest.length rest).map fun (n, rest) => (-(n : Int), rest)
  | '+' :: rest => (readNumber? rest.length rest).map fun (n, rest) => ((n : Int), rest)
  | rest => (readNumber? 4 rest).map fun (n, rest) => ((n : Int), rest)

/-- The text behind a character, which may stand behind blanks. -/
def skip? (c : Char) (text : Text) : Option Text :=
  match text.trimStart with
  | d :: rest => if d = c then some rest else none
  | [] => none

/-- A date and the text behind it. -/
def readDate? (text : Text) : Option (CalendarDate × Text) := do
  let (year, text) ← readYear? text
  let (month, text) ← readField? 2 (← skip? '-' text)
  let (day, text) ← readField? 2 (← skip? '-' text)
  if 1 ≤ month && month ≤ 12 && 1 ≤ day && day ≤ monthLength year month && isYear year then
    return (⟨year, month, day⟩, text)
  else none

/-- The nanoseconds of a fraction, if there is one. Digits beyond the ninth are
cut off. -/
def readFraction? : Text → Option (Nat × Text)
  | '.' :: rest => do
      let digits := (rest.takeWhile Text.isDigit).take 9
      let n ← Text.toNat? 10 digits
      return (n * Nat.pow 10 (9 - digits.length), rest.dropWhile Text.isDigit)
  | text => some (0, text)

/-- The seconds and nanoseconds of a time of day, and the text behind it. -/
def readTime? (text : Text) : Option (Nat × Nat × Text) := do
  let (hour, text) ← readField? 2 text
  let (minute, text) ← readField? 2 (← skip? ':' text)
  let (second, text) ← readField? 2 (← skip? ':' text)
  let (fraction, text) ← readFraction? text
  if hour ≤ 23 && minute ≤ 59 && second ≤ 60 then
    let leap := if second = 60 then 1 else 0
    return (hour * 3600 + minute * 60 + second - leap, leap * 1000000000 + fraction, text)
  else none

/-- Two digits as a number, and the text behind them. -/
def readPair? : Text → Option (Nat × Text)
  | a :: b :: rest => do
      return ((← Text.digitValue? 10 a) * 10 + (← Text.digitValue? 10 b), rest)
  | _ => none

/-- The sign of an offset. -/
def readSign? : Text → Option (Int × Text)
  | '+' :: rest => some (1, rest)
  | '-' :: rest => some (-1, rest)
  | '\u2212' :: rest => some (-1, rest)
  | _ => none

/-- The word for universal time in any case. -/
def isUniversal (text : Text) : Bool :=
  match text with
  | [a, b, c] => (a == 'U' || a == 'u') && (b == 'T' || b == 't') && (c == 'C' || c == 'c')
  | _ => false

/-- An offset in seconds, and the text behind it. -/
def readOffset? (text : Text) : Option (Int × Text) :=
  if isUniversal (text.take 3) then some (0, text.drop 3)
  else
    match text with
    | 'Z' :: rest => some (0, rest)
    | 'z' :: rest => some (0, rest)
    | text => do
        let (sign, text) ← readSign? text
        let (hours, text) ← readPair? text
        let (minutes, text) ← readPair? (text.dropWhile fun c => c == ':' || isBlank c)
        if hours ≤ 23 && minutes ≤ 59 then
          return (sign * (hours * 3600 + minutes * 60 : Nat), text)
        else none

/-- The timestamp of a text. Its date and its date in universal time both belong to
the calendar. -/
def parse? (text : Text) : Option Timestamp := do
  let (date, text) ← readDate? text
  let text ←
    match text with
    | c :: rest => if c = 'T' || c = 't' || c = ' ' then some rest else none
    | [] => none
  let (seconds, nanoseconds, text) ← readTime? text
  let (offset, text) ← readOffset? text.trimStart
  let universal := dayOf date * 86400 + seconds - offset
  if text.isBlankText && isInCalendar universal then return ⟨universal, nanoseconds⟩ else none

/-! ### Writing -/

/-- A number with at least two digits. -/
def twoDigits (n : Nat) : Text := Text.padZeros 2 (Text.ofNat n)

/-- A year with at least four digits. It has a sign unless it has four. -/
def yearText (year : Int) : Text :=
  let digits := Text.padZeros 4 (Text.ofNat year.natAbs)
  if year < 0 then '-' :: digits
  else if 9999 < year then '+' :: digits
  else digits

/-- The date of a timestamp. -/
def date (t : Timestamp) : CalendarDate := dateOf (t.seconds / 86400)

/-- The text of the date of a timestamp. -/
def dateText (t : Timestamp) : Text :=
  yearText t.date.year ++ '-' :: twoDigits t.date.month ++ '-' :: twoDigits t.date.day

/-- The text of the time of day of a timestamp, in whole seconds. -/
def timeText (t : Timestamp) : Text :=
  let second := (t.seconds % 86400).toNat
  twoDigits (second / 3600) ++ ':' :: twoDigits (second / 60 % 60)
    ++ ':' :: twoDigits (second % 60 + t.nanoseconds / 1000000000)

/-- The text of a fraction of a second: none, or three, six or nine digits. -/
def fractionText (nanoseconds : Nat) : Text :=
  if nanoseconds = 0 then []
  else if nanoseconds % 1000000 = 0 then '.' :: Text.padZeros 3 (Text.ofNat (nanoseconds / 1000000))
  else if nanoseconds % 1000 = 0 then '.' :: Text.padZeros 6 (Text.ofNat (nanoseconds / 1000))
  else '.' :: Text.padZeros 9 (Text.ofNat nanoseconds)

/-- The text of a timestamp. -/
def text (t : Timestamp) : Text :=
  t.dateText ++ 'T' :: t.timeText ++ fractionText (t.nanoseconds % 1000000000) ++ ['Z']

/-- The text of a timestamp without fraction and offset. -/
def brief (t : Timestamp) : Text := t.dateText ++ ' ' :: t.timeText

end Timestamp

end Directives
