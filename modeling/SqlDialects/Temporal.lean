import SqlDialects.Text.Ascii
import SqlDialects.Text.Blank
import SqlDialects.Tree.Scalar

/-!
# Constant dates and times

* `Temporal.Field` : the items of a date format;
* `Temporal.Reading` : what was read so far;
* `Temporal.isValid` : whether a text is a date, a time or a timestamp.

A format is a list of items. Blanks before a number are skipped; a blank in a format stands for any
number of blanks; other characters stand for themselves. The whole text has to be used.
-/

namespace SqlDialects.Temporal

open Text

/-- An item of a date format. -/
inductive Field where
  | year
  | month
  | day
  | hour
  | minute
  | second
  /-- Nothing, or a point and digits. -/
  | fraction
  /-- `Z`, or a sign, hours, and minutes unless the text ends. -/
  | zone
  /-- Any number of blanks. -/
  | blanks
  /-- This character. -/
  | mark (c : Char)
deriving DecidableEq, Repr

/-- What was read so far. The offset from universal time is in seconds. -/
structure Reading where
  year : Int := 0
  month : Nat := 1
  day : Nat := 1
  hour : Nat := 0
  minute : Nat := 0
  second : Nat := 0
  zone : Int := 0
deriving DecidableEq, Repr

/-! ## Items -/

/-- A number of at least one and at most `most` digits at the head of a text. -/
def digitsUpTo (most : Nat) (cs : List Char) : Option (Nat × List Char) :=
  let run := (cs.take most).takeWhile Char.isDigit
  if run.isEmpty then none else some (digitsFrom 0 run, cs.drop run.length)

/-- A year: up to four digits, or a sign and any number of them. -/
def yearOf (cs : List Char) : Option (Int × List Char) :=
  match trimLeft cs with
  | '-' :: rest => (digitsUpTo rest.length rest).map fun (n, rest) => (-n, rest)
  | '+' :: rest => (digitsUpTo rest.length rest).map fun (n, rest) => (n, rest)
  | rest => (digitsUpTo 4 rest).map fun (n, rest) => (n, rest)

/-- A number of one or two digits within bounds. -/
def pairOf (low high : Nat) (cs : List Char) : Option (Nat × List Char) :=
  match digitsUpTo 2 (trimLeft cs) with
  | some (n, rest) => if low ≤ n && n ≤ high then some (n, rest) else none
  | none => none

/-- The text behind a fraction of a second. -/
def afterFraction : List Char → Option (List Char)
  | '.' :: rest => (digitsUpTo rest.length rest).map Prod.snd
  | rest => some rest

/-- The number that exactly two digits write. -/
def twoDigits (a b : Char) : Option Nat :=
  if a.isDigit && b.isDigit then some (digitsFrom 0 [a, b]) else none

/-- Hours and minutes behind the sign of a zone, in seconds. -/
def zoneSeconds : List Char → Option (Nat × List Char)
  | a :: b :: rest =>
    match twoDigits a b, rest.dropWhile (fun c => c == ':' || isBlank c) with
    | some hours, [] => some (3600 * hours, [])
    | some hours, c :: d :: rest =>
      match twoDigits c d with
      | some minutes => if minutes < 60 then some (3600 * hours + 60 * minutes, rest) else none
      | none => none
    | _, _ => none
  | _ => none

/-- A zone as its offset in seconds. -/
def zoneOf (cs : List Char) : Option (Int × List Char) :=
  match trimLeft cs with
  | sign :: rest =>
    if sign == 'Z' || sign == 'z' then some (0, rest)
    else if sign == '+' then (zoneSeconds rest).map fun (n, rest) => (n, rest)
    else if sign == '-' || sign == Char.ofNat 0x2212 then
      (zoneSeconds rest).map fun (n, rest) => (-n, rest)
    else none
  | [] => none

/-- Reads one item. -/
def Field.read (f : Field) (r : Reading) (cs : List Char) : Option (Reading × List Char) :=
  match f with
  | .year => (yearOf cs).map fun (y, rest) => ({ r with year := y }, rest)
  | .month => (pairOf 1 12 cs).map fun (m, rest) => ({ r with month := m }, rest)
  | .day => (pairOf 1 31 cs).map fun (d, rest) => ({ r with day := d }, rest)
  | .hour => (pairOf 0 23 cs).map fun (h, rest) => ({ r with hour := h }, rest)
  | .minute => (pairOf 0 59 cs).map fun (m, rest) => ({ r with minute := m }, rest)
  | .second => (pairOf 0 60 cs).map fun (s, rest) => ({ r with second := s }, rest)
  | .fraction => (afterFraction cs).map fun rest => (r, rest)
  | .zone => (zoneOf cs).map fun (z, rest) => ({ r with zone := z }, rest)
  | .blanks => some (r, trimLeft cs)
  | .mark c => if cs.head? == some c then some (r, cs.tail) else none

/-- Reads a whole text by a format. -/
def readAll (r : Reading) : List Field → List Char → Option Reading
  | [], [] => some r
  | [], _ :: _ => none
  | f :: fs, cs =>
    match f.read r cs with
    | some (r, rest) => readAll r fs rest
    | none => none

/-! ## The calendar -/

/-- The first year of the calendar. -/
def minYear : Int := -262143

/-- The last year of the calendar. -/
def maxYear : Int := 262142

/-- Whether a year has a leap day. -/
def isLeap (y : Int) : Bool := y % 4 == 0 && (y % 100 != 0 || y % 400 == 0)

/-- The number of days of a month. -/
def daysIn (y : Int) (m : Nat) : Nat :=
  if m == 2 then (if isLeap y then 29 else 28)
  else if m == 4 || m == 6 || m == 9 || m == 11 then 30
  else 31

/-- Whether the date read exists. -/
def Reading.hasDate (r : Reading) : Bool :=
  minYear ≤ r.year && r.year ≤ maxYear && r.day ≤ daysIn r.year r.month

/-- Whether the zone read is less than a day away from universal time, and the moment read does
not leave the calendar there. -/
def Reading.hasZone (r : Reading) : Bool :=
  let second : Int := 3600 * r.hour + 60 * r.minute + min r.second 59 - r.zone
  let first := r.year == minYear && r.month == 1 && r.day == 1
  let last := r.year == maxYear && r.month == 12 && r.day == 31
  r.zone.natAbs < 86400 && !(first && second < 0) && !(last && 86400 ≤ second)

/-! ## Formats -/

/-- Year, month and day with hyphens. -/
def dateFormat : List Field := [.year, .mark '-', .month, .mark '-', .day]

/-- Hours and minutes. -/
def clockFormat : List Field := [.hour, .mark ':', .minute]

/-- Hours, minutes, seconds and a fraction. -/
def timeFormat : List Field := clockFormat ++ [.mark ':', .second, .fraction]

/-- Whether `text` is a date by `format`. -/
def isDate (format : List Field) (text : String) : Bool :=
  (readAll {} format text.toList).any Reading.hasDate

/-- Whether `text` is a date with a zone by `format`. -/
def isZonedDate (format : List Field) (text : String) : Bool :=
  (readAll {} format text.toList).any fun r => r.hasDate && r.hasZone

/-- Whether `text` is a time by `format`. -/
def isTime (format : List Field) (text : String) : Bool :=
  (readAll {} format text.toList).isSome

/-- Whether `text` is a constant of the given kind. A timestamp may be a date alone. -/
def isValid (kind : TemporalKind) (text : String) : Bool :=
  match kind with
  | .date => isDate dateFormat text
  | .time => isTime timeFormat text || isTime clockFormat text
  | .timestamp =>
    isDate (dateFormat ++ .blanks :: timeFormat) text ||
    isDate (dateFormat ++ .mark 'T' :: timeFormat) text ||
    isZonedDate (dateFormat ++ .blanks :: timeFormat ++ [.zone]) text ||
    isDate dateFormat text

end SqlDialects.Temporal
