namespace RepoInspector
namespace Decimal

/-!
# The double nearest to a decimal
-/

/-- The number that decimal digits denote, most significant first. -/
def ofDigits (digits : List Char) : Nat :=
  digits.foldl (fun value c => 10 * value + (c.toNat - '0'.toNat)) 0

/-- A power of ten beyond which every decimal of one digit before the point is
infinite or zero as a double. -/
def powerLimit : Int := 400

/-- The double nearest to `digits * 10 ^ power`.  Powers that are far out of
range are told by their size alone. -/
def nearest (negative : Bool) (digits : Nat) (power : Int) : Float :=
  let first : Int := power + (toString digits).length
  let magnitude : Float :=
    if digits = 0 || first < -powerLimit then 0
    else if powerLimit < first then Float.ofScientific 1 false 400
    else Float.ofScientific digits (power < 0) power.natAbs
  if negative then -magnitude else magnitude

end Decimal
end RepoInspector
