import Tenancy.Text.Blank

/-!
# Instants

An instant is written as RFC 3339 asks: a date, a time of day, and how far the clock is ahead of UTC.
Reading is lenient about blanks, leading zeros and the letters' case; writing is always in UTC, in
whole seconds. Dates are those of the Gregorian calendar from the year -262143 to the year 262142,
counted in days from 1970-01-01:
`daysOfDate` and `dateOfDays` go from one to the other by the cycle of 400 years, which has 146097
days, with years that start in March so that a leap day comes last.
-/

namespace Tenancy

/-- A second in UTC. A leap second is the one that follows `seconds`. -/
structure Instant where
  /-- The seconds since the start of 1970. -/
  seconds : Int
  leap : Bool := false
  deriving DecidableEq, Repr, Inhabited

namespace Instant

/-! ## The calendar -/

/-- The days from 1970-01-01 to a date. -/
def daysOfDate (year : Int) (month day : Nat) : Int :=
  let y := if month ≤ 2 then year - 1 else year
  let cycle := y.fdiv 400
  let yearOfCycle := y - cycle * 400
  let monthFromMarch : Int := (month + 9) % 12
  let dayOfYear := (153 * monthFromMarch + 2) / 5 + day - 1
  let dayOfCycle := yearOfCycle * 365 + yearOfCycle / 4 - yearOfCycle / 100 + dayOfYear
  cycle * 146097 + dayOfCycle - 719468

/-- The date so many days after 1970-01-01. -/
def dateOfDays (days : Int) : Int × Nat × Nat :=
  let n := days + 719468
  let cycle := n.fdiv 146097
  let dayOfCycle := n - cycle * 146097
  let yearOfCycle :=
    (dayOfCycle - dayOfCycle / 1460 + dayOfCycle / 36524 - dayOfCycle / 146096) / 365
  let dayOfYear := dayOfCycle - (365 * yearOfCycle + yearOfCycle / 4 - yearOfCycle / 100)
  let monthFromMarch := (5 * dayOfYear + 2) / 153
  let day := dayOfYear - (153 * monthFromMarch + 2) / 5 + 1
  let month := if monthFromMarch < 10 then monthFromMarch + 3 else monthFromMarch - 9
  let year := yearOfCycle + cycle * 400 + (if month ≤ 2 then 1 else 0)
  (year, month.toNat, day.toNat)

def isLeapYear (year : Int) : Bool :=
  year % 4 = 0 && (year % 100 ≠ 0 || year % 400 = 0)

def daysOfMonth (year : Int) (month : Nat) : Nat :=
  if month = 2 then (if isLeapYear year then 29 else 28)
  else if [4, 6, 9, 11].contains month then 30
  else 31

/-- The first second of the first date. -/
def minSeconds : Int := daysOfDate (-262143) 1 1 * 86400

/-- The last second of the last date. -/
def maxSeconds : Int := daysOfDate 262142 12 31 * 86400 + 86399

/-! ## Reading -/

def digitsValue (ds : List Char) : Nat := ds.foldl (fun n c => n * 10 + (c.toNat - 48)) 0

/-- Blanks, then a number of one to `width` digits. -/
def number (width : Nat) (cs : List Char) : Option (Nat × List Char) :=
  let cs := cs.dropWhile Text.isBlank
  let digits := (cs.take width).takeWhile Char.isDigit
  if digits.isEmpty then none else some (digitsValue digits, cs.drop digits.length)

/-- Blanks, then a year: four digits at most, or any number of them after a sign. -/
def year (cs : List Char) : Option (Int × List Char) :=
  match cs.dropWhile Text.isBlank with
  | '-' :: rest => signed (-1) rest
  | '+' :: rest => signed 1 rest
  | rest => (number 4 rest).map fun p => ((p.1 : Int), p.2)
where
  signed (sign : Int) (rest : List Char) : Option (Int × List Char) :=
    let digits := rest.takeWhile Char.isDigit
    if digits.isEmpty then none
    else some (sign * (digitsValue digits : Int), rest.drop digits.length)

/-- Blanks, then a certain character. -/
def mark (c : Char) (cs : List Char) : Option (List Char) :=
  match cs.dropWhile Text.isBlank with
  | d :: rest => if d = c then some rest else none
  | [] => none

/-- The fraction of a second, if one follows. -/
def skipFraction : List Char → Option (List Char)
  | '.' :: rest =>
    let digits := rest.takeWhile Char.isDigit
    if digits.isEmpty then none else some (rest.drop digits.length)
  | cs => some cs

def twoDigits : List Char → Option (Nat × List Char)
  | a :: b :: rest => if a.isDigit && b.isDigit then some (digitsValue [a, b], rest) else none
  | _ => none

/-- How many seconds the clock is ahead of UTC. -/
def offset (cs : List Char) : Option (Int × List Char) :=
  match cs with
  | 'Z' :: rest => some (0, rest)
  | 'z' :: rest => some (0, rest)
  | '+' :: rest => hoursAndMinutes 1 rest
  | '-' :: rest => hoursAndMinutes (-1) rest
  | '\u2212' :: rest => hoursAndMinutes (-1) rest
  | u :: t :: c :: rest =>
    if [u.toUpper, t.toUpper, c.toUpper] = ['U', 'T', 'C'] then some (0, rest) else none
  | _ => none
where
  hoursAndMinutes (sign : Int) (rest : List Char) : Option (Int × List Char) := do
    let (h, rest) ← twoDigits rest
    let (m, rest) ← twoDigits (rest.dropWhile fun c => c = ':' || Text.isBlank c)
    if m < 60 ∧ h < 24 then some (sign * ((h : Int) * 3600 + m * 60), rest) else none

/-- The instant that a text gives. The date has to be one of the calendar both where the clock stands
and in UTC. -/
def ofText? (s : String) : Option Instant := do
  let (y, cs) ← year s.toList
  let cs ← mark '-' cs
  let (mo, cs) ← number 2 cs
  let cs ← mark '-' cs
  let (d, cs) ← number 2 cs
  let cs ← match cs with
    | c :: rest => if c = 't' ∨ c = 'T' ∨ c = ' ' then some rest else none
    | [] => none
  let (h, cs) ← number 2 cs
  let cs ← mark ':' cs
  let (mi, cs) ← number 2 cs
  let cs ← mark ':' cs
  let (sec, cs) ← number 2 cs
  let cs ← skipFraction cs
  let (ahead, cs) ← offset (cs.dropWhile Text.isBlank)
  if (cs.dropWhile Text.isBlank).isEmpty ∧ -262143 ≤ y ∧ y ≤ 262142 ∧ 1 ≤ mo ∧ mo ≤ 12 ∧ 1 ≤ d ∧
      d ≤ daysOfMonth y mo ∧ h < 24 ∧ mi < 60 ∧ sec ≤ 60 then
    let ofDay : Int := h * 3600 + mi * 60 + min sec 59
    let seconds := daysOfDate y mo d * 86400 + ofDay - ahead
    if minSeconds ≤ seconds ∧ seconds ≤ maxSeconds then some ⟨seconds, sec = 60⟩ else none
  else none

/-! ## Writing -/

/-- A number with at least `width` digits. -/
def padded (width n : Nat) : String :=
  let ds := Nat.toDigits 10 n
  String.ofList (List.replicate (width - ds.length) '0' ++ ds)

/-- A year: four digits, or a sign and the digits where four do not do. -/
def yearText (y : Int) : String :=
  if 0 ≤ y ∧ y ≤ 9999 then padded 4 y.toNat
  else (if y < 0 then "-" else "+") ++ padded 4 y.natAbs

def toText (t : Instant) : String :=
  let days := t.seconds.fdiv 86400
  let ofDay := (t.seconds - days * 86400).toNat
  let (y, mo, d) := dateOfDays days
  let sec := ofDay % 60 + (if t.leap then 1 else 0)
  yearText y ++ "-" ++ padded 2 mo ++ "-" ++ padded 2 d ++ "T" ++ padded 2 (ofDay / 3600) ++ ":" ++
    padded 2 (ofDay / 60 % 60) ++ ":" ++ padded 2 sec ++ "Z"

end Instant

end Tenancy
