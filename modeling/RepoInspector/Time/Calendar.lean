namespace RepoInspector
namespace Time

/-!
# Calendar dates

Dates of the proleptic Gregorian calendar, with a year before the year 1
counted as 0, -1 and so on.  A `Date` carries the proof that its day exists
and that its year lies in the supported range, so the neighbours of a date
are partial only at the two ends of that range.
-/

def isLeapYear (year : Int) : Bool :=
  year % 4 == 0 && (year % 100 != 0 || year % 400 == 0)

/-- The number of days of a month, and none for a number that names no month. -/
def daysInMonth (year : Int) : Nat -> Nat
  | 1 | 3 | 5 | 7 | 8 | 10 | 12 => 31
  | 4 | 6 | 9 | 11 => 30
  | 2 => if isLeapYear year then 29 else 28
  | _ => 0

def leastYear : Int := -262143

def greatestYear : Int := 262142

/-- Whether a year, month and day name a supported calendar date. -/
def isDate (year : Int) (month day : Nat) : Bool :=
  leastYear ≤ year && year ≤ greatestYear && 1 ≤ day && day ≤ daysInMonth year month

structure Date where
  year : Int
  month : Nat
  day : Nat
  exists_day : isDate year month day = true
deriving DecidableEq

namespace Date

def of? (year : Int) (month day : Nat) : Option Date :=
  if known : isDate year month day = true then some ⟨year, month, day, known⟩ else none

/-- The next day, which starts a new month or year where the old one ends. -/
def next? (date : Date) : Option Date :=
  if date.day < daysInMonth date.year date.month then of? date.year date.month (date.day + 1)
  else if date.month < 12 then of? date.year (date.month + 1) 1
  else of? (date.year + 1) 1 1

/-- The day before, which is the last of the previous month on a first. -/
def previous? (date : Date) : Option Date :=
  if 1 < date.day then of? date.year date.month (date.day - 1)
  else if 1 < date.month then
    of? date.year (date.month - 1) (daysInMonth date.year (date.month - 1))
  else of? (date.year - 1) 12 31

end Date
end Time
end RepoInspector
