import RepoInspector.Decimal.Nearest
import RepoInspector.Text.Blank
import RepoInspector.Time.Fault
import RepoInspector.Time.Instant

namespace RepoInspector
namespace Time

open Text

/-!
# Reading timestamps

A timestamp is a date, a time of day and an offset from universal time.  The
reader is lenient about layout: blanks may stand before a number or a mark,
numbers may lack their leading zeros, the date and the time may be joined by
a letter or a blank, and the offset may be separated in several ways.  It is
strict about meaning: each number has to fit its part, the date has to exist,
and the instant has to lie in the calendar.

Each reader below takes the text that is left and gives its result together
with the text after it.  A range is checked as soon as its number is read, so
of two faults the earlier one in the text is reported.
-/

/-- The greatest number that the reader holds. -/
def greatestNumber : Nat := Nat.pow 2 63 - 1

/-- A run of at least one digit and at most `limit` of them. -/
def readDigits (limit : Option Nat) (text : List Char) : Except Fault (List Char × List Char) :=
  let run :=
    match limit with
    | some limit => (text.take limit).takeWhile Char.isDigit
    | none => text.takeWhile Char.isDigit
  if text.isEmpty then .error .tooShort
  else if run.isEmpty then .error .invalid
  else if greatestNumber < Decimal.ofDigits run then .error .outOfRange
  else .ok (run, text.drop run.length)

def readNumber (limit : Option Nat) (text : List Char) : Except Fault (Nat × List Char) := do
  let (run, rest) ← readDigits limit text
  .ok (Decimal.ofDigits run, rest)

/-- Years are counted in 32 bits, one of them for the sign. -/
def yearLimit : Int := 2147483648

/-- A year has up to four digits, or a sign and any number of them. -/
def readYear (text : List Char) : Except Fault (Int × List Char) := do
  let (value, rest) ←
    match skipBlanks text with
    | '-' :: rest => do
        let (value, rest) ← readNumber none rest
        .ok (-(value : Int), rest)
    | '+' :: rest => do
        let (value, rest) ← readNumber none rest
        .ok ((value : Int), rest)
    | text => do
        let (value, rest) ← readNumber (some 4) text
        .ok ((value : Int), rest)
  if -yearLimit ≤ value && value < yearLimit then .ok (value, rest) else .error .outOfRange

/-- A number of up to two digits between `low` and `high`. -/
def readPart (low high : Nat) (text : List Char) : Except Fault (Nat × List Char) := do
  let (value, rest) ← readNumber (some 2) (skipBlanks text)
  if low ≤ value && value ≤ high then .ok (value, rest) else .error .outOfRange

/-- A mark between two numbers, with blanks allowed before it. -/
def readMark (expected : Char) (text : List Char) : Except Fault (Unit × List Char) :=
  match skipBlanks text with
  | [] => .error .tooShort
  | c :: rest => if c = expected then .ok ((), rest) else .error .invalid

/-- The join of date and time. -/
def readJoin (text : List Char) : Except Fault (Unit × List Char) :=
  match text with
  | [] => .error .tooShort
  | c :: rest => if c = 'T' || c = 't' || c = ' ' then .ok ((), rest) else .error .invalid

/-- The fraction of a second in nanoseconds.  Nine digits count, and further
ones are passed over. -/
def readFraction (text : List Char) : Except Fault (Nat × List Char) :=
  match text with
  | '.' :: rest => do
      let (run, rest) ← readDigits (some 9) rest
      .ok (Decimal.ofDigits run * Nat.pow 10 (9 - run.length), rest.dropWhile Char.isDigit)
  | _ => .ok (0, text)

/-- Exactly two digits, where `highest` bounds the first of them. -/
def readDigitPair (highest : Char) (text : List Char) : Except Fault (Nat × List Char) :=
  match text with
  | [] => .error .tooShort
  | [c] => if c.toNat < 128 then .error .tooShort else .error .invalid
  | a :: b :: rest =>
      if a.isDigit && b.isDigit then
        if a ≤ highest then .ok (Decimal.ofDigits [a, b], rest) else .error .outOfRange
      else .error .invalid

/-- A signed offset in minutes. -/
def readSignedOffset (text : List Char) : Except Fault (Int × List Char) := do
  let (negative, rest) ←
    match text with
    | [] => .error .tooShort
    | c :: rest =>
        if c = '+' then .ok (false, rest)
        else if c = '-' || c = '\u2212' then .ok (true, rest)
        else .error .invalid
  let (hours, rest) ← readDigitPair '9' rest
  let (minutes, rest) ← readDigitPair '5' (rest.dropWhile fun c => c = ':' || isBlank c)
  let minutes : Int := hours * 60 + minutes
  .ok (if negative then -minutes else minutes, rest)

/-- An offset in minutes: a name of universal time, or a signed offset. -/
def readOffset (text : List Char) : Except Fault (Int × List Char) :=
  match text with
  | a :: b :: c :: rest =>
      if a.toUpper = 'U' && b.toUpper = 'T' && c.toUpper = 'C' then .ok (0, rest)
      else if a = 'Z' || a = 'z' then .ok (0, b :: c :: rest)
      else readSignedOffset text
  | a :: rest => if a = 'Z' || a = 'z' then .ok (0, rest) else readSignedOffset text
  | [] => .error .tooShort

/-- The parts of a timestamp as written, before they are put together. -/
structure Written where
  year : Int
  month : Nat
  day : Nat
  hour : Nat
  minute : Nat
  second : Nat
  nanosecond : Nat
  offset : Int
deriving DecidableEq

/-- A whole text as a timestamp, with nothing but blanks after it. -/
def Written.ofText (text : List Char) : Except Fault Written := do
  let (year, rest) ← readYear text
  let ((), rest) ← readMark '-' rest
  let (month, rest) ← readPart 1 12 rest
  let ((), rest) ← readMark '-' rest
  let (day, rest) ← readPart 1 31 rest
  let ((), rest) ← readJoin rest
  let (hour, rest) ← readPart 0 23 rest
  let ((), rest) ← readMark ':' rest
  let (minute, rest) ← readPart 0 59 rest
  let ((), rest) ← readMark ':' rest
  let (second, rest) ← readPart 0 60 rest
  let (nanosecond, rest) ← readFraction rest
  let (offset, rest) ← readOffset (skipBlanks rest)
  if (skipBlanks rest).isEmpty then
    .ok { year, month, day, hour, minute, second, nanosecond, offset }
  else .error .tooLong

/-- The instant that the parts of a timestamp denote.  The offset has to be
less than a day. -/
def Written.instant (written : Written) : Except Fault Instant :=
  match Date.of? written.year written.month written.day with
  | none => .error .outOfRange
  | some date =>
      if fits : written.hour < 24 ∧ written.minute < 60 ∧ written.second < 61 ∧
          written.nanosecond < 1000000000 ∧ written.offset.natAbs < 1440 then
        let clock : Clock :=
          { hour := ⟨written.hour, fits.1⟩
            minute := ⟨written.minute, fits.2.1⟩
            second := ⟨written.second, fits.2.2.1⟩
            nanosecond := ⟨written.nanosecond, fits.2.2.2.1⟩ }
        match Instant.ofLocal? date clock written.offset with
        | some instant => .ok instant
        | none => .error .impossible
      else .error .outOfRange

/-- The instant that a text denotes. -/
def Instant.ofText (text : String) : Except Fault Instant := do
  let written ← Written.ofText text.toList
  written.instant

end Time
end RepoInspector
