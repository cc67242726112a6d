import RepoInspector.Time.Instant

namespace RepoInspector
namespace Time

/-!
# Writing timestamps

A payload holds a timestamp with its fraction, in the shortest of the three
widths of three, six and nine digits that loses nothing, and with a letter for
universal time.
-/

/-- The digits of a number, with zeros before them up to a width. -/
def padded (width n : Nat) : List Char :=
  let digits := Nat.toDigits 10 n
  List.replicate (width - digits.length) '0' ++ digits

/-- A year has four digits.  One that needs more, or lies before the year 0,
has a sign, so a reader can tell how many digits belong to it. -/
def yearText (year : Int) : List Char :=
  if year < 0 then '-' :: padded 4 year.natAbs
  else if year ≤ 9999 then padded 4 year.natAbs
  else '+' :: padded 4 year.natAbs

def Date.text (date : Date) : List Char :=
  yearText date.year ++ '-' :: padded 2 date.month ++ '-' :: padded 2 date.day

/-- Hours, minutes and seconds. -/
def Clock.text (clock : Clock) : List Char :=
  padded 2 clock.hour ++ ':' :: padded 2 clock.minute ++ ':' :: padded 2 clock.second

/-- The fraction of a second, in the fewest groups of three digits. -/
def fractionText (nanosecond : Nat) : List Char :=
  if nanosecond = 0 then []
  else if nanosecond % 1000000 = 0 then '.' :: padded 3 (nanosecond / 1000000)
  else if nanosecond % 1000 = 0 then '.' :: padded 6 (nanosecond / 1000)
  else '.' :: padded 9 nanosecond

/-- The form in which a payload holds an instant. -/
def Instant.text (instant : Instant) : String :=
  String.ofList (instant.date.text ++ 'T' :: instant.clock.text ++
    fractionText instant.clock.nanosecond ++ ['Z'])

end Time
end RepoInspector
