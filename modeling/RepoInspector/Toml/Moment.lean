import RepoInspector.Decimal.Nearest
import RepoInspector.Time.Calendar
import RepoInspector.Toml.Layout

namespace RepoInspector
namespace Toml

/-!
# Dates and times

A date is four, two and two digits with hyphens, a time of day is hours,
minutes and seconds with colons and perhaps a fraction.  A date may be followed
by a time and that by an offset.  After a year and its hyphen only a date can
follow, and after an hour and its colon only a time.

A reader gives the rest of the text after what it read, or nothing where
something else stands.
-/

/-- Read a number of exactly `width` digits. -/
def fixedNumber? (width : Nat) (text : List Char) : Option (Nat × List Char) :=
  let digits := text.take width
  if digits.length = width && digits.all Char.isDigit then
    some (Decimal.ofDigits digits, text.drop width)
  else none

/-- Read a number of two digits between two bounds. -/
def twoDigits? (low high : Nat) (text : List Char) : Option (Nat × List Char) :=
  (fixedNumber? 2 text).filter fun found => low ≤ found.1 && found.1 ≤ high

/-- Read a number of two digits where nothing else can stand. -/
def twoDigits (low high : Nat) (text : List Char) : Except Fault (Nat × List Char) :=
  match twoDigits? low high text with
  | some found => .ok found
  | none => .error (.closed text)

/-- Read the month and the day of a date. -/
def monthAndDay (year : Nat) (text : List Char) : Except Fault (List Char) := do
  let (month, rest) ← twoDigits 1 12 text
  let rest ← expect '-' rest
  let (_, rest) ← twoDigits 1 (Time.daysInMonth year month) rest
  .ok rest

/-- Read a date. -/
def date (text : List Char) : Except Fault (Option (List Char)) :=
  match fixedNumber? 4 text with
  | some (year, '-' :: rest) => do
      let rest ← monthAndDay year rest
      .ok (some rest)
  | _ => .ok none

/-- The rest after a fraction of a second, or the text itself without one. -/
def skipFraction : List Char -> List Char
  | '.' :: rest =>
      if (rest.takeWhile Char.isDigit).isEmpty then '.' :: rest
      else rest.dropWhile Char.isDigit
  | text => text

/-- Read the hours and the colon of a time or an offset. -/
def hours? (text : List Char) : Option (List Char) :=
  match twoDigits? 0 23 text with
  | some (_, ':' :: rest) => some rest
  | _ => none

/-- Read a time of day. -/
def time (text : List Char) : Except Fault (Option (List Char)) :=
  match hours? text with
  | none => .ok none
  | some rest => do
      let (_, rest) ← twoDigits 0 59 rest
      let rest ← expect ':' rest
      let (_, rest) ← twoDigits 0 60 rest
      .ok (some (skipFraction rest))

/-- Read an offset from universal time, if one follows. -/
def offset (text : List Char) : Except Fault (List Char) :=
  match text with
  | [] => .ok []
  | c :: rest =>
      if c = 'Z' || c = 'z' then .ok rest
      else if c = '+' || c = '-' then do
        let (_, rest) ← twoDigits 0 23 rest
        let rest ← expect ':' rest
        let (_, rest) ← twoDigits 0 59 rest
        .ok rest
      else .ok (c :: rest)

/-- Read the time that follows a date, if one does. -/
def timeAfterDate (text : List Char) : Except Fault (List Char) :=
  match text with
  | [] => .ok []
  | c :: rest =>
      if c = 'T' || c = 't' || c = ' ' then do
        match ← time rest with
        | some rest => offset rest
        | none => .ok (c :: rest)
      else .ok (c :: rest)

/-- Read a date, a time, or both. -/
def moment (text : List Char) : Except Fault (Option (List Char)) := do
  match ← date text with
  | some rest => do
      let rest ← timeAfterDate rest
      .ok (some rest)
  | none => time text

end Toml
end RepoInspector
