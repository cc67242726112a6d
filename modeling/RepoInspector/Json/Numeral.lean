namespace RepoInspector
namespace Json

/-!
# Numerals and the numbers they denote

A numeral is kept as its digits, so what it denotes is a matter of arithmetic
on them.  A numeral without fraction and exponent denotes a whole number, and
does so exactly when the number fits 64 bits: unsigned without a sign, signed
below zero with one.  Every other numeral denotes a floating point number,
computed from as many leading digits as fit 64 unsigned bits and one scaling
by a power of ten.
-/

abbrev Digit := Fin 10

/-- The number that decimal digits denote, most significant first. -/
def Digit.value (digits : List Digit) : Nat :=
  digits.foldl (fun value digit => 10 * value + digit.val) 0

inductive Sign
  | plus
  | minus
deriving DecidableEq, Repr

/-- The exponent of a numeral, with its sign if one is written. -/
structure Exponent where
  sign : Option Sign
  digits : List Digit
deriving DecidableEq, Repr

/-- A number as it is spelled. -/
structure Numeral where
  negative : Bool
  whole : List Digit
  fraction : Option (List Digit)
  exponent : Option Exponent
deriving DecidableEq, Repr

/-- A number as readers tell them apart. -/
inductive Number
  | natural (n : UInt64)
  | negative (n : Int64)
  | float (x : Float)

/-- The end of the range of unsigned numbers of 64 bits. -/
def wordLimit : Nat := Nat.pow 2 64

/-- Extend a significand by digits for as long as it fits a word, and give the
digits that are left. -/
def extendSignificand : Nat -> List Digit -> Nat × List Digit
  | significand, [] => (significand, [])
  | significand, digit :: digits =>
      if 10 * significand + digit.val < wordLimit then
        extendSignificand (10 * significand + digit.val) digits
      else (significand, digit :: digits)

/-- A power of ten between 0 and 308 as a double. -/
def powerOfTen (n : Nat) : Float := Float.ofScientific 1 false n

/-- Divide by `10 ^ n`, in steps that a double can express. -/
def divideByPower (x : Float) (n : Nat) : Float :=
  if n ≤ 308 then x / powerOfTen n
  else if x == 0 then x
  else divideByPower (x / powerOfTen 308) (n - 308)
termination_by n

/-- Why a numeral denotes no number: its magnitude is beyond the doubles. -/
inductive RangeFault
  /-- The number as a whole is out of range. -/
  | whole
  /-- The first `count` digits of the exponent alone are. -/
  | exponentDigits (count : Nat)
deriving DecidableEq, Repr

/-- `significand * 10 ^ power` as a double. -/
def scaleSignificand (significand : Nat) (power : Int) : Except RangeFault Float :=
  let x := (UInt64.ofNat significand).toFloat
  if power < 0 then .ok (divideByPower x power.natAbs)
  else if power ≤ 308 then
    let scaled := x * powerOfTen power.natAbs
    if scaled.isInf then .error .whole else .ok scaled
  else if x == 0 then .ok x
  else .error .whole

/-- The end of the range of exponents that are computed with. -/
def exponentLimit : Nat := Nat.pow 2 31

/-- The number of leading digits of an exponent after which it is out of range. -/
def exponentOverflow? (digits : List Digit) : Option Nat :=
  (List.range (digits.length + 1)).find? fun count =>
    exponentLimit ≤ Digit.value (digits.take count)

namespace Numeral

/-- The magnitude of a numeral as a double. -/
def magnitude (numeral : Numeral) : Except RangeFault Float :=
  let (wholePart, beyond) := extendSignificand 0 numeral.whole
  let fraction := numeral.fraction.getD []
  let (significand, ignored) := extendSignificand wholePart fraction
  let power : Int := beyond.length - (fraction.length - ignored.length : Nat)
  match numeral.exponent with
  | none => scaleSignificand significand power
  | some exponent =>
      let shrinks := exponent.sign == some .minus
      match exponentOverflow? exponent.digits with
      | some count =>
          if significand != 0 && !shrinks then .error (.exponentDigits count)
          else .ok 0
      | none =>
          let shift : Int := Digit.value exponent.digits
          scaleSignificand significand (if shrinks then power - shift else power + shift)

/-- The number that a numeral denotes. -/
def number (numeral : Numeral) : Except RangeFault Number :=
  let n := Digit.value numeral.whole
  if numeral.fraction.isNone && numeral.exponent.isNone && !numeral.negative &&
      n < wordLimit then
    .ok (.natural (UInt64.ofNat n))
  else if numeral.fraction.isNone && numeral.exponent.isNone && numeral.negative &&
      0 < n && 2 * n ≤ wordLimit then
    .ok (.negative (Int64.ofInt (-n)))
  else do
    let magnitude ← numeral.magnitude
    .ok (.float (if numeral.negative then -magnitude else magnitude))

/-- The number of bytes in which a numeral is spelled. -/
def width (numeral : Numeral) : Nat :=
  (if numeral.negative then 1 else 0) + numeral.whole.length +
    (match numeral.fraction with
      | some digits => 1 + digits.length
      | none => 0) +
    match numeral.exponent with
    | some exponent => 1 + (if exponent.sign.isSome then 1 else 0) + exponent.digits.length
    | none => 0

end Numeral
end Json
end RepoInspector
