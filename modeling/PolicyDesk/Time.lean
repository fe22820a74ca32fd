import PolicyDesk.Decimal
import PolicyDesk.Text

/-!
# Days and instants

The calendar that dates are counted in, and the instants that are written and read in it.
-/

namespace PolicyDesk.Calendar

/-! ## The civil calendar

Days are counted from 1970-01-01 in the proleptic Gregorian calendar. A year is taken to begin in
March, so that the leap day is its last day and the months repeat in a fixed pattern of lengths
(`daysBeforeMonth`). `dayNumber` counts the days before a date and `ofDayNumber` reads the date off
the count. -/

/-- A year, a month and a day as they are written; `Date.exists?` says whether the calendar has it.
-/
structure Date where
  year : Int
  month : Nat
  day : Nat
  deriving DecidableEq, Repr

def isLeapYear (year : Int) : Bool :=
  year % 4 = 0 ∧ (year % 100 ≠ 0 ∨ year % 400 = 0)

def daysInMonth (year : Int) (month : Nat) : Nat :=
  if month = 2 then (if isLeapYear year then 29 else 28)
  else if month = 4 ∨ month = 6 ∨ month = 9 ∨ month = 11 then 30
  else 31

/-- The years that a date may have. -/
def firstYear : Int := -262143

def lastYear : Int := 262142

/-- The year is one that a date may have, and the month and the day of it exist. The parts come from
a text, so any numbers may stand in them. -/
def Date.exists? (d : Date) : Bool :=
  decide (firstYear ≤ d.year) && decide (d.year ≤ lastYear) &&
    decide (1 ≤ d.month) && decide (d.month ≤ 12) &&
    decide (1 ≤ d.day) && decide (d.day ≤ daysInMonth d.year d.month)

/-- Days between 0000-03-01 and 1970-01-01. -/
def epoch : Int := 719468

/-- Days of 400 years: the pattern of leap years repeats after that many. -/
def daysPerEra : Int := 146097

/-- Days of a March year before its month of this number, March being number zero. From March on the
months come in groups of five with 153 days, which the rounding spreads over them. -/
def daysBeforeMonth (month : Nat) : Nat := (153 * month + 2) / 5

/-- Days from 1970-01-01 to the date. January and February count as the last two months of the year
before. -/
def Date.dayNumber (d : Date) : Int :=
  let year := if d.month ≤ 2 then d.year - 1 else d.year
  let month := if d.month ≤ 2 then d.month + 9 else d.month - 3
  let era := year.fdiv 400
  let yearOfEra := year - era * 400
  let dayOfEra := yearOfEra * 365 + yearOfEra / 4 - yearOfEra / 100 + daysBeforeMonth month +
    (d.day - 1 : Nat)
  era * daysPerEra + dayOfEra - epoch

/-- The date that lies so many days after 1970-01-01. The corrections by 1460, 36524 and 146096 take
out the leap days before the year is divided off. -/
def Date.ofDayNumber (days : Int) : Date :=
  let shifted := days + epoch
  let era := shifted.fdiv daysPerEra
  let dayOfEra := (shifted - era * daysPerEra).toNat
  let yearOfEra := (dayOfEra - dayOfEra / 1460 + dayOfEra / 36524 - dayOfEra / 146096) / 365
  let dayOfYear := dayOfEra - (365 * yearOfEra + yearOfEra / 4 - yearOfEra / 100)
  -- Months count from March, so that a leap day is the last day of its year.
  let month := (5 * dayOfYear + 2) / 153
  { year := yearOfEra + era * 400 + if month < 10 then 0 else 1
    month := if month < 10 then month + 3 else month - 9
    day := dayOfYear - daysBeforeMonth month + 1 }

end PolicyDesk.Calendar

namespace PolicyDesk

/-! ## Instants

An instant is a count of seconds since 1970-01-01T00:00:00Z and of nanoseconds within the second. A
leap second is counted with the second before it and has nanoseconds from one thousand million on.

- `Instant.text` writes an instant in UTC, with no, three, six or nine places of a second, the
  fewest that hold it.
- `Instant.read?` reads a date and a time with an offset from UTC. It takes blanks around the parts,
  numbers without their leading zeros and years with a sign; what lies beyond the nanoseconds is cut
  off. -/

section

open Decimal (splitDigits ofDigits padded)
open Calendar (Date)

/-- Seconds may be negative; the nanoseconds always count forward from the second. -/
structure Instant where
  seconds : Int
  nanos : Nat
  deriving DecidableEq, Repr

namespace Instant

def secondsPerDay : Int := 86400

/-- Nanoseconds in a second. -/
def nanosPerSecond : Nat := 1000000000

/-- Earlier or equal. -/
def le (a b : Instant) : Bool :=
  decide (a.seconds < b.seconds) || (decide (a.seconds = b.seconds) && decide (a.nanos ≤ b.nanos))

/-- The first instant of the calendar. -/
def first : Instant := ⟨Date.dayNumber ⟨Calendar.firstYear, 1, 1⟩ * secondsPerDay, 0⟩

/-- The instant just after the calendar. -/
def afterLast : Instant := ⟨Date.dayNumber ⟨Calendar.lastYear + 1, 1, 1⟩ * secondsPerDay, 0⟩

instance : LE Instant := ⟨fun a b => a.le b = true⟩

instance (a b : Instant) : Decidable (a ≤ b) := inferInstanceAs (Decidable (a.le b = true))

/-- Years of four digits are written bare, others with a sign. -/
def yearText (year : Int) : String :=
  if 0 ≤ year ∧ year ≤ 9999 then padded 4 year.toNat
  else (if year < 0 then "-" else "+") ++ padded 4 year.natAbs

/-- The places of a second, in groups of three and without trailing groups of zeros. A leap second
is taken off before, so there are at most nine places. -/
def fractionText (nanos : Nat) : String :=
  if nanos = 0 then ""
  else if nanos % 1000000 = 0 then "." ++ padded 3 (nanos / 1000000)
  else if nanos % 1000 = 0 then "." ++ padded 6 (nanos / 1000)
  else "." ++ padded 9 nanos

/-- The instant in UTC. A leap second is second 60. -/
def text (t : Instant) : String :=
  let days := t.seconds.fdiv secondsPerDay
  let ofDay := (t.seconds - days * secondsPerDay).toNat
  let date := Date.ofDayNumber days
  let leap := t.nanos / nanosPerSecond
  yearText date.year ++ "-" ++ padded 2 date.month ++ "-" ++ padded 2 date.day ++
    "T" ++ padded 2 (ofDay / 3600) ++ ":" ++ padded 2 (ofDay / 60 % 60) ++ ":" ++
    padded 2 (ofDay % 60 + leap) ++ fractionText (t.nanos % nanosPerSecond) ++ "Z"

/-- Exactly `count` digits and the rest. -/
def readDigits? (count : Nat) (cs : List Char) : Option (Nat × List Char) :=
  let ds := (splitDigits (cs.take count)).1
  if ds.length = count then some (ofDigits ds, cs.drop count) else none

def skipBlanks (cs : List Char) : List Char := cs.dropWhile Text.isBlankChar

/-- A number of one to `most` digits and the rest; blanks may stand before it. What follows the
digits is for the next reader to refuse. -/
def readNumber? (most : Nat) (cs : List Char) : Option (Nat × List Char) :=
  let cs := skipBlanks cs
  match (splitDigits (cs.take most)).1 with
  | [] => none
  | ds => some (ofDigits ds, cs.drop ds.length)

/-- The rest after a character of the given kind. -/
def readMark? (allowed : List Char) : List Char → Option (List Char)
  | c :: cs => if c ∈ allowed then some cs else none
  | [] => none

/-- The rest after a mark between two numbers; blanks may stand before it. -/
def readDivider? (mark : Char) (cs : List Char) : Option (List Char) :=
  readMark? [mark] (skipBlanks cs)

/-- The digits of a year after its sign, as many as there are, and the rest. -/
def readSignedYear? (cs : List Char) : Option (Nat × List Char) :=
  match splitDigits cs with
  | ([], _) => none
  | (ds, rest) => some (ofDigits ds, rest)

/-- A year of one to four digits, or a sign and any number of digits. -/
def readYear? (cs : List Char) : Option (Int × List Char) :=
  match skipBlanks cs with
  | '+' :: cs => (readSignedYear? cs).map fun (year, rest) => ((year : Int), rest)
  | '-' :: cs => (readSignedYear? cs).map fun (year, rest) => (-(year : Int), rest)
  | cs => (readNumber? 4 cs).map fun (year, rest) => ((year : Int), rest)

def readDate? (cs : List Char) : Option (Date × List Char) := do
  let (year, cs) ← readYear? cs
  let cs ← readDivider? '-' cs
  let (month, cs) ← readNumber? 2 cs
  let cs ← readDivider? '-' cs
  let (day, cs) ← readNumber? 2 cs
  let date : Date := ⟨year, month, day⟩
  if date.exists? then some (date, cs) else none

/-- The places of a second that follow a point, cut to nanoseconds. A point without a digit after it
is refused. -/
def readFraction? : List Char → Option (Nat × List Char)
  | '.' :: cs =>
    match splitDigits cs with
    | ([], _) => none
    | (ds, rest) => some (ofDigits ((ds ++ List.replicate 9 0).take 9), rest)
  | cs => some (0, cs)

/-- The second of the day and the nanoseconds. Second 60 may stand in any minute: it is kept as the
second before with a thousand million nanoseconds more. -/
def readTime? (cs : List Char) : Option ((Nat × Nat) × List Char) := do
  let (hour, cs) ← readNumber? 2 cs
  let cs ← readDivider? ':' cs
  let (minute, cs) ← readNumber? 2 cs
  let cs ← readDivider? ':' cs
  let (second, cs) ← readNumber? 2 cs
  let (nanos, cs) ← readFraction? cs
  if 24 ≤ hour ∨ 60 ≤ minute ∨ 61 ≤ second then none
  else
    let leap := second / 60
    some ((hour * 3600 + minute * 60 + (second - leap), nanos + leap * nanosPerSecond), cs)

/-- A sign before an offset means that local time is ahead of UTC; the minus sign of typography
means the same as the hyphen. -/
def isAhead? (sign : Char) : Option Bool :=
  if sign = '+' then some true else if sign = '-' ∨ sign = '−' then some false else none

/-- The seconds by which local time is ahead of UTC: `Z` or `UTC` in any case, or a sign, two digits
of hours and two of minutes, with any number of colons and blanks between them. The two digits of
the minutes must be there. -/
def readOffset? (cs : List Char) : Option (Int × List Char) :=
  if Text.sameCode "UTC" (String.ofList (cs.take 3)) then some (0, cs.drop 3)
  else match cs with
  | 'Z' :: cs | 'z' :: cs => some (0, cs)
  | sign :: cs => do
    let ahead ← isAhead? sign
    let (hours, cs) ← readDigits? 2 cs
    let (minutes, cs) ← readDigits? 2 (cs.dropWhile fun c => c = ':' || Text.isBlankChar c)
    if 24 ≤ hours ∨ 60 ≤ minutes then none
    else
      let size : Int := hours * 3600 + minutes * 60
      some (if ahead then size else -size, cs)
  | [] => none

/-- Reads a whole text: date, `T` or a blank, time, offset. Only blanks may follow, and the instant
lies within the calendar in UTC too. -/
def read? (s : String) : Option Instant := do
  let (date, cs) ← readDate? s.toList
  let cs ← readMark? ['T', 't', ' '] cs
  let ((ofDay, nanos), cs) ← readTime? cs
  let (offset, cs) ← readOffset? (skipBlanks cs)
  let t : Instant := ⟨date.dayNumber * secondsPerDay + ofDay - offset, nanos⟩
  if (skipBlanks cs).isEmpty ∧ first.seconds ≤ t.seconds ∧ t.seconds < afterLast.seconds then some t
  else none

end Instant

end

end PolicyDesk
