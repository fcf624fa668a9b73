import Enrolment.Text.Blank

/-!
Instants in UTC, to the nanosecond, and their text.

An instant is kept as its civil date and time. Text is read with any offset from UTC and written in
UTC with the fewest of 0, 3, 6 or 9 decimals of a second that lose nothing. A sixtieth second stands
for a leap second.
-/

namespace Enrolment

structure CivilTime where
  year : Int
  month : Nat
  day : Nat
  hour : Nat
  minute : Nat
  second : Nat
  nano : Nat
deriving DecidableEq

namespace CivilTime

def isLeapYear (year : Int) : Bool := year % 4 = 0 && (year % 100 ≠ 0 || year % 400 = 0)

/-- The number of days of a month, by its number; zero for no month. -/
def daysInMonth (year : Int) (month : Nat) : Nat :=
  if month = 2 then if isLeapYear year then 29 else 28
  else if month = 4 || month = 6 || month = 9 || month = 11 then 30
  else if 1 ≤ month && month ≤ 12 then 31
  else 0

def firstYear : Int := -262143

def lastYear : Int := 262142

/-- Whether the fields name an instant of the calendar. -/
def isValid (t : CivilTime) : Bool :=
  firstYear ≤ t.year && t.year ≤ lastYear && 1 ≤ t.day && t.day ≤ daysInMonth t.year t.month
    && t.hour < 24 && t.minute < 60 && t.second ≤ 60 && t.nano < 1000000000

def dayBefore (t : CivilTime) : CivilTime :=
  if 1 < t.day then { t with day := t.day - 1 }
  else if 1 < t.month then
    { t with month := t.month - 1, day := daysInMonth t.year (t.month - 1) }
  else { t with year := t.year - 1, month := 12, day := 31 }

def dayAfter (t : CivilTime) : CivilTime :=
  if t.day < daysInMonth t.year t.month then { t with day := t.day + 1 }
  else if t.month < 12 then { t with month := t.month + 1, day := 1 }
  else { t with year := t.year + 1, month := 1, day := 1 }

/-- The time `minutes` later, for less than a day either way. -/
def addMinutes (t : CivilTime) (minutes : Int) : CivilTime :=
  let total : Int := t.hour * 60 + t.minute + minutes
  let (total, t) :=
    if total < 0 then (total + 1440, t.dayBefore)
    else if 1440 ≤ total then (total - 1440, t.dayAfter)
    else (total, t)
  { t with hour := total.toNat / 60, minute := total.toNat % 60 }

end CivilTime

/-- An instant in UTC. -/
structure Timestamp where
  civil : CivilTime
  isValid_civil : civil.isValid = true
deriving DecidableEq

namespace Timestamp

/-- The instant with these fields, if there is one. -/
def ofCivil? (t : CivilTime) : Option Timestamp :=
  if h : t.isValid = true then some ⟨t, h⟩ else none

def epoch : Timestamp := ⟨⟨1970, 1, 1, 0, 0, 0, 0⟩, by decide⟩

instance : Inhabited Timestamp := ⟨epoch⟩

/-- A decimal numeral of at least `width` digits. -/
def padded (width n : Nat) : List Char :=
  let numeral := Nat.toDigits 10 n
  List.replicate (width - numeral.length) '0' ++ numeral

/-- Four digits for the years 0 to 9999, and a sign before at least four digits otherwise. -/
def renderYear (year : Int) : List Char :=
  if 0 ≤ year && year ≤ 9999 then padded 4 year.toNat
  else (if year < 0 then '-' else '+') :: padded 4 year.natAbs

def renderNanos (nano : Nat) : List Char :=
  if nano = 0 then []
  else if nano % 1000000 = 0 then '.' :: padded 3 (nano / 1000000)
  else if nano % 1000 = 0 then '.' :: padded 6 (nano / 1000)
  else '.' :: padded 9 nano

def renderChars (t : Timestamp) : List Char :=
  let c := t.civil
  renderYear c.year ++ '-' :: padded 2 c.month ++ '-' :: padded 2 c.day ++ 'T' :: padded 2 c.hour
    ++ ':' :: padded 2 c.minute ++ ':' :: padded 2 c.second ++ renderNanos c.nano ++ ['Z']

def render (t : Timestamp) : String := String.ofList t.renderChars

/-- The number made of the decimal digits at the head, at least one and at most `most` of them. -/
def scanNumber? (most : Nat) (cs : List Char) : Option (Nat × List Char) :=
  let numeral := (cs.take most).takeWhile Char.isDigit
  if numeral.isEmpty then none
  else some (numeral.foldl (fun n c => 10 * n + (c.toNat - 48)) 0, cs.drop numeral.length)

/-- Drops one given character, blanks before it being allowed. -/
def scanMark? (mark : Char) (cs : List Char) : Option (List Char) :=
  match Text.trimLeft cs with
  | c :: rest => if c = mark then some rest else none
  | [] => none

/-- A field of one or two digits, blanks before it being allowed. -/
def scanField? (cs : List Char) : Option (Nat × List Char) := scanNumber? 2 (Text.trimLeft cs)

/-- A year: at most four digits, or a sign and any number of digits. -/
def scanYear? (cs : List Char) : Option (Int × List Char) :=
  match Text.trimLeft cs with
  | '-' :: rest => do
    let (n, rest) ← scanNumber? rest.length rest
    return (-(n : Int), rest)
  | '+' :: rest => do
    let (n, rest) ← scanNumber? rest.length rest
    return (n, rest)
  | rest => do
    let (n, rest) ← scanNumber? 4 rest
    return (n, rest)

/-- The decimals of a second, if there are any; those beyond the ninth are dropped. -/
def scanNanos? : List Char → Option (Nat × List Char)
  | '.' :: rest => do
    let (n, more) ← scanNumber? 9 rest
    let places := rest.length - more.length
    return (n * Nat.pow 10 (9 - places), more.dropWhile Char.isDigit)
  | rest => some (0, rest)

/-- The value of two decimal digits. -/
def twoDigits? (high low : Char) : Option Nat :=
  if high.isDigit && low.isDigit then some (10 * (high.toNat - 48) + (low.toNat - 48)) else none

/-- Hours and minutes of an offset, with blanks or colons between them. -/
def scanHoursMinutes? : List Char → Option (Nat × List Char)
  | h1 :: h2 :: rest => do
    let hours ← twoDigits? h1 h2
    match rest.dropWhile fun c => c = ':' || Text.isBlank c with
    | m1 :: m2 :: rest =>
      let minutes ← twoDigits? m1 m2
      if minutes < 60 then some (60 * hours + minutes, rest) else none
    | _ => none
  | _ => none

/-- An offset from UTC in minutes: a zone letter or name for UTC itself, or a sign, hours and
minutes. -/
def scanOffset? (cs : List Char) : Option (Int × List Char) :=
  match cs with
  | 'Z' :: rest | 'z' :: rest => some (0, rest)
  | '+' :: rest => do
    let (n, rest) ← scanHoursMinutes? rest
    return (n, rest)
  | '-' :: rest | '\u2212' :: rest => do
    let (n, rest) ← scanHoursMinutes? rest
    return (-(n : Int), rest)
  | u :: t :: c :: rest =>
    if u.toLower = 'u' && t.toLower = 't' && c.toLower = 'c' then some (0, rest) else none
  | _ => none

/-- Reads the text of an instant with any offset, as characters. -/
def parseChars? (cs : List Char) : Option Timestamp := do
  let (year, cs) ← scanYear? cs
  let cs ← scanMark? '-' cs
  let (month, cs) ← scanField? cs
  let cs ← scanMark? '-' cs
  let (day, cs) ← scanField? cs
  let cs ← match cs with
    | 't' :: rest | 'T' :: rest | ' ' :: rest => some rest
    | _ => none
  let (hour, cs) ← scanField? cs
  let cs ← scanMark? ':' cs
  let (minute, cs) ← scanField? cs
  let cs ← scanMark? ':' cs
  let (second, cs) ← scanField? cs
  let (nano, cs) ← scanNanos? cs
  let (offset, cs) ← scanOffset? (Text.trimLeft cs)
  if (Text.trimLeft cs).isEmpty && offset.natAbs < 1440 then
    let locally ← ofCivil? ⟨year, month, day, hour, minute, second, nano⟩
    ofCivil? (locally.civil.addMinutes (-offset))
  else none

def parse? (s : String) : Option Timestamp := parseChars? s.toList

end Timestamp

end Enrolment
