namespace RepoInspector
namespace Decimal

/-!
# Shortest decimals of binary floating point numbers

A finite double stands for every real number that rounds to it.  Its shortest
decimal is the one with the fewest digits in that interval, and among those
the one nearest to the double itself.  The search below works in exact
natural number arithmetic, from coarse decimal grids to fine ones, so the
first grid that has a point in the interval gives the fewest digits.

How the digits are laid out afterwards (where positional notation ends, how
an exponent is written) is a `Layout`, chosen by the text that shows them.
-/

/-- A positive binary fraction `mantissa * 2 ^ exponent`.  `narrowBelow` holds
at a power of two, whose lower neighbour is only half as far away. -/
structure Binary where
  mantissa : Nat
  exponent : Int
  narrowBelow : Bool

/-- A positive decimal `digits * 10 ^ exponent`. -/
structure Scaled where
  digits : Nat
  exponent : Int

/-- The number, and the ends of the interval that rounds to it, as numerators
over the one denominator `unit`. -/
structure Interval where
  low : Nat
  value : Nat
  high : Nat
  unit : Nat
  closed : Bool

/-- The ends lie half way to the neighbours.  They round to an even mantissa
only, because a tie goes to the even side. -/
def Binary.interval (x : Binary) : Interval :=
  let up := Nat.pow 2 (x.exponent - 2).toNat
  let below := if x.narrowBelow then 1 else 2
  { low := (4 * x.mantissa - below) * up
    value := 4 * x.mantissa * up
    high := (4 * x.mantissa + 2) * up
    unit := Nat.pow 2 (2 - x.exponent).toNat
    closed := x.mantissa % 2 == 0 }

/-- Whether `numerator / denominator` rounds to the number. -/
def Interval.holds (i : Interval) (numerator denominator : Nat) : Bool :=
  let low := i.low * denominator
  let high := i.high * denominator
  let point := numerator * i.unit
  if i.closed then low ≤ point && point ≤ high else low < point && point < high

/-- Which of two equally near decimals is taken. -/
inductive Tie
  | even
  | greater
deriving DecidableEq, Repr

/-- Whether the smaller of two equally near neighbours on a grid is taken. -/
def Tie.takesFloor (floor : Nat) : Tie -> Bool
  | .even => floor % 2 == 0
  | .greater => false

/-- The point of the grid of multiples of `10 ^ exponent` that represents the
number, if the grid has one: of the two neighbours of the number on the grid
the nearer. -/
def Interval.onGrid? (tie : Tie) (i : Interval) (exponent : Int) : Option Scaled :=
  let step := Nat.pow 10 exponent.toNat
  let parts := Nat.pow 10 (-exponent).toNat
  let floor := i.value * parts / (i.unit * step)
  let floorFits := floor != 0 && i.holds (floor * step) parts
  let nextFits := i.holds ((floor + 1) * step) parts
  let twice := 2 * i.value * parts
  let middle := (2 * floor + 1) * step * i.unit
  let preferFloor := twice < middle || (twice == middle && tie.takesFloor floor)
  if floorFits && (preferFloor || !nextFits) then some ⟨floor, exponent⟩
  else if nextFits then some ⟨floor + 1, exponent⟩
  else none

/-- Try the grids from `10 ^ start` downwards, `fuel` of them. -/
def Interval.search (tie : Tie) (i : Interval) : Nat -> Int -> Option Scaled
  | 0, _ => none
  | fuel + 1, start =>
      match i.onGrid? tie start with
      | some found => some found
      | none => i.search tie fuel (start - 1)

/-- Every double has a point on a grid between `10 ^ 309` and `10 ^ (-400)`. -/
def Binary.shortest (tie : Tie) (x : Binary) : Scaled :=
  (x.interval.search tie 710 309).getD ⟨0, 0⟩

/-- What a double is, apart from its sign. -/
inductive Magnitude
  | notANumber
  | infinite
  | zero
  | finite (x : Binary)

/-- The end of the range of the fraction bits of a double. -/
def fractionLimit : Nat := Nat.pow 2 52

/-- The sign bit of a double and what the other bits stand for. -/
def decodeDouble (x : Float) : Bool × Magnitude :=
  let bits : Nat := x.toBits.toNat
  let fraction : Nat := bits % fractionLimit
  let biased : Nat := bits / fractionLimit % Nat.pow 2 11
  let negative : Bool := bits / Nat.pow 2 63 == 1
  let magnitude :=
    if biased == 2047 then
      if fraction == 0 then .infinite else .notANumber
    else if biased == 0 then
      if fraction == 0 then .zero else .finite ⟨fraction, -1074, false⟩
    else .finite ⟨fractionLimit + fraction, (biased : Int) - 1075, fraction == 0 && biased > 1⟩
  (negative, magnitude)

/-- Which digits a decimal has, and how they are laid out. -/
structure Layout where
  tie : Tie
  /-- The least power of ten of a first digit that is still written without an exponent. -/
  leastPower : Option Int
  /-- The greatest such power. -/
  greatestPower : Option Int
  /-- Whether a whole number written without an exponent ends in a point and a zero. -/
  wholeMark : Bool
  /-- What stands before the digits of an exponent that is not negative. -/
  exponentPlus : String

/-- Digits with the decimal point after the first `whole` of them, padded with
zeros on either side where the point lies outside. -/
def positional (layout : Layout) (digits : List Char) (whole : Int) : List Char :=
  if whole ≤ 0 then
    '0' :: '.' :: List.replicate (-whole).toNat '0' ++ digits
  else if digits.length ≤ whole.toNat then
    digits ++ List.replicate (whole.toNat - digits.length) '0' ++
      (if layout.wholeMark then ['.', '0'] else [])
  else digits.take whole.toNat ++ '.' :: digits.drop whole.toNat

/-- One digit, the other digits after a point, and the power of ten. -/
def scientific (layout : Layout) (digits : List Char) (power : Int) : List Char :=
  digits.take 1 ++ (if digits.length ≤ 1 then [] else '.' :: digits.drop 1) ++
    'e' :: (if power < 0 then ['-'] else layout.exponentPlus.toList) ++
    (toString power.natAbs).toList

def Scaled.layOut (layout : Layout) (x : Scaled) : List Char :=
  let digits := (toString x.digits).toList
  let power := x.exponent + digits.length - 1
  if (layout.leastPower.all fun least => least ≤ power) &&
      (layout.greatestPower.all fun greatest => power ≤ greatest) then
    positional layout digits (power + 1)
  else scientific layout digits power

/-- The text of a double in a layout. -/
def Layout.text (layout : Layout) (x : Float) : String :=
  match decodeDouble x with
  | (_, .notANumber) => "NaN"
  | (negative, magnitude) =>
      let body : List Char :=
        match magnitude with
        | .notANumber => []
        | .infinite => ['i', 'n', 'f']
        | .zero => if layout.wholeMark then ['0', '.', '0'] else ['0']
        | .finite x => (x.shortest layout.tie).layOut layout
      String.ofList (if negative then '-' :: body else body)

/-- Positional from one hundred thousandth to just below ten to the sixteenth,
where a whole number is marked as a fraction and a positive power has a plus.
Of two equally near decimals the even one is taken. -/
def payload : Layout := ⟨.even, some (-5), some 15, true, "+"⟩

/-- Always positional, and a whole number is written without a point.  Of two
equally near decimals the greater one is taken. -/
def plain : Layout := ⟨.greater, none, none, false, ""⟩

end Decimal
end RepoInspector
