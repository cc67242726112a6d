import RepoInspector.Toml.Moment
import RepoInspector.Toml.Text
import RepoInspector.Toml.Value

namespace RepoInspector
namespace Toml

/-!
# Numbers

A number is a decimal integer, which may be extended to a floating point
number, or an integer to the base sixteen, eight or two after its mark.
Underscores may stand between two digits.  A decimal integer does not begin
with a zero unless that is all of it.
-/

/-- Read further digits, where an underscore must be followed by a digit. -/
def moreDigits (isDigit : Char -> Bool) : List Char -> Except Fault (List Char × List Char)
  | [] => .ok ([], [])
  | ['_'] => .error (.closed [])
  | '_' :: c :: rest =>
      if isDigit c then push c (moreDigits isDigit rest) else .error (.closed (c :: rest))
  | c :: rest =>
      if isDigit c then push c (moreDigits isDigit rest) else .ok ([], c :: rest)

/-- Read digits where nothing else can stand. -/
def someDigits (isDigit : Char -> Bool) : List Char -> Except Fault (List Char × List Char)
  | [] => .error (.closed [])
  | c :: rest =>
      if isDigit c then push c (moreDigits isDigit rest) else .error (.closed (c :: rest))

/-- The rest after a sign, and whether the sign is a minus. -/
def signed : List Char -> Bool × List Char
  | '-' :: rest => (true, rest)
  | '+' :: rest => (false, rest)
  | text => (false, text)

/-- Read the digits of a decimal integer. -/
def wholeDigits : List Char -> Except Fault (List Char × List Char)
  | [] => .error (.open [])
  | c :: rest =>
      if c = '0' then .ok (['0'], rest)
      else if c.isDigit then push c (moreDigits Char.isDigit rest)
      else .error (.open (c :: rest))

/-- Read a point and digits, if a point follows. -/
def fractionDigits : List Char -> Except Fault (Option (List Char) × List Char)
  | '.' :: rest => do
      let (digits, rest) ← someDigits Char.isDigit rest
      .ok (some digits, rest)
  | text => .ok (none, text)

/-- Read an exponent, if one follows. -/
def exponentPart (text : List Char) : Except Fault (Option Int × List Char) :=
  match text with
  | [] => .ok (none, [])
  | c :: rest =>
      if c = 'e' || c = 'E' then do
        let (negative, rest) := signed rest
        let (digits, rest) ← someDigits Char.isDigit rest
        let magnitude : Int := Decimal.ofDigits digits
        .ok (some (if negative then -magnitude else magnitude), rest)
      else .ok (none, c :: rest)

/-- The end of the range of integers, on the side of the zero. -/
def integerLimit : Nat := Nat.pow 2 63

/-- Whether an integer is in range. -/
def inRange (negative : Bool) (magnitude : Nat) : Bool :=
  magnitude < integerLimit || (negative && magnitude = integerLimit)

/-- The integer of a sign and a magnitude, if it is in range. -/
def integer? (negative : Bool) (magnitude : Nat) : Option Value :=
  if inRange negative magnitude then
    some (.integer (if negative then -(magnitude : Int) else magnitude))
  else none

/-- The floating point number that decimals denote.  There is none beyond the
largest, while below the smallest it is minus infinity. -/
def float? (negative : Bool) (whole fraction : List Char) (exponent : Int) : Option Value :=
  let digits := Decimal.ofDigits (whole ++ fraction)
  let x := Decimal.nearest negative digits (exponent - fraction.length)
  if x.isInf && !negative then none else some (.float x)

/-- A number that is read, unless it is out of range. -/
def orOutOfRange (start : List Char) (rest : List Char) :
    Option Value -> Except Fault (Value × List Char)
  | some value => .ok (value, rest)
  | none => .error (.closed start)

/-- A number that is not written with digits. -/
def namedFloat? (text : List Char) : Option (Value × List Char) :=
  let (negative, rest) := signed text
  let infinity : Float := Float.ofScientific 1 false 400
  match word? ['i', 'n', 'f'] rest, word? ['n', 'a', 'n'] rest with
  | some rest, _ => some (.float (if negative then -infinity else infinity), rest)
  | none, some rest => some (.float (infinity - infinity), rest)
  | none, none => none

/-- The base of an integer after its mark. -/
def base? (text : List Char) : Option Nat :=
  match text with
  | '0' :: 'x' :: _ => some 16
  | '0' :: 'o' :: _ => some 8
  | '0' :: 'b' :: _ => some 2
  | _ => none

/-- Whether a character is a digit to a base. -/
def isDigitTo (base : Nat) (c : Char) : Bool :=
  (hexDigit? c).any fun digit => digit < base

/-- The number that digits to a base denote. -/
def numberTo (base : Nat) (digits : List Char) : Nat :=
  digits.foldl (fun value c => base * value + (hexDigit? c).getD 0) 0

/-- Read a decimal number. -/
def decimal (text : List Char) : Except Fault (Value × List Char) := do
  let (negative, afterSign) := signed text
  let (whole, afterWhole) ← wholeDigits afterSign
  let (fraction, afterFraction) ← fractionDigits afterWhole
  let (exponent, rest) ← exponentPart afterFraction
  orOutOfRange text rest <|
    if fraction.isNone && exponent.isNone then integer? negative (Decimal.ofDigits whole)
    else float? negative whole (fraction.getD []) (exponent.getD 0)

/-- Read an integer to another base than ten. -/
def integerTo (base : Nat) (text : List Char) : Except Fault (Value × List Char) := do
  let (digits, rest) ← someDigits (isDigitTo base) (text.drop 2)
  orOutOfRange text rest (integer? false (numberTo base digits))

/-- Read a number, a date or a time. -/
def numberOrMoment (text : List Char) : Except Fault (Value × List Char) := do
  match ← moment text with
  | some rest => .ok (.moment, rest)
  | none =>
      match base? text, namedFloat? text with
      | some base, _ => integerTo base text
      | none, some found => .ok found
      | none, none => decimal text

end Toml
end RepoInspector
