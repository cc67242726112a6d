import RepoInspector.Time.Instant

namespace RepoInspector
namespace Time

/-!
# Patterns

A summary shows a timestamp by a pattern, in which a percent sign and a letter
stand for a part of it and every other character for itself.  The parts have
rules of their own.  A payload is not written by any of them.
-/

/-- What a part of a pattern stands for. -/
inductive Part
  | year
  | month
  | day
  | hour
  | minute
  | second
  | mark (c : Char)
deriving DecidableEq, Repr

namespace Part

/-- The part for which a letter stands behind a percent sign. -/
def ofLetter? : Char -> Option Part
  | 'Y' => some .year
  | 'm' => some .month
  | 'd' => some .day
  | 'H' => some .hour
  | 'M' => some .minute
  | 'S' => some .second
  | _ => none

/-- The parts of a pattern, if each percent sign has a letter that stands for one. -/
def ofPattern? : List Char -> Option (List Part)
  | [] => some []
  | ['%'] => none
  | '%' :: letter :: rest => do
      let part ← ofLetter? letter
      let parts ← ofPattern? rest
      some (part :: parts)
  | c :: rest => (ofPattern? rest).map (.mark c :: ·)

end Part

/-- A digit, by the distance of its code from that of zero. -/
def digitFrom (n : Nat) : Char := Char.ofNat (48 + n)

/-- A number below a hundred, with its tens whatever they are. -/
def twoDigits (n : Nat) : List Char := [digitFrom (n / 10), digitFrom (n % 10)]

/-- A number in at least so many characters, with zeros between its sign and its
digits.  A number that is not negative has a sign if it is asked for. -/
def zeroFilled (width : Nat) (always : Bool) (n : Int) : List Char :=
  let sign := if n < 0 then ['-'] else if always then ['+'] else []
  let digits := Nat.toDigits 10 n.natAbs
  sign ++ List.replicate (width - (sign.length + digits.length)) '0' ++ digits

/-- A year of four digits is written in two halves.  Any other is filled up with
zeros, and has a sign if four digits are not enough for it. -/
def filledYear (year : Int) : List Char :=
  if 1000 ≤ year ∧ year ≤ 9999 then
    twoDigits (year.toNat / 100) ++ twoDigits (year.toNat % 100)
  else if 0 ≤ year ∧ year < 10000 then zeroFilled 4 false year
  else zeroFilled 5 true year

/-- What a part shows of an instant. -/
def Part.chars (instant : Instant) : Part -> List Char
  | .year => filledYear instant.date.year
  | .month => twoDigits instant.date.month
  | .day => twoDigits instant.date.day
  | .hour => twoDigits instant.clock.hour
  | .minute => twoDigits instant.clock.minute
  | .second => twoDigits instant.clock.second
  | .mark c => [c]

/-- A pattern that can be shown, with its parts. -/
structure Pattern where
  text : String
  parts : List Part
  means : Part.ofPattern? text.toList = some parts

/-- What a pattern shows of an instant. -/
def Pattern.chars (pattern : Pattern) (instant : Instant) : List Char :=
  pattern.parts.flatMap (Part.chars instant)

/-- The pattern of a summary: a date and a time of day without its fraction. -/
def summaryPattern : Pattern where
  text := "%Y-%m-%d %H:%M:%S"
  parts :=
    [.year, .mark '-', .month, .mark '-', .day, .mark ' ',
      .hour, .mark ':', .minute, .mark ':', .second]
  means := by decide

/-- The form in which a summary shows an instant. -/
def Instant.summary (instant : Instant) : String :=
  String.ofList (summaryPattern.chars instant)

end Time
end RepoInspector
