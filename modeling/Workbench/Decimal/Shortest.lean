import Workbench.Decimal.Reading

/-!
**The shortest decimal text of a double.**

A finite double is written with the fewest significant digits that read back as the same double, and with
the nearest such digits, the greater ones of two that are equally near. The text is always positional,
without an exponent, and a whole number has no point. A number in the text of a data type is written in this
way (`value_text`).
-/

namespace Workbench.Decimal

/-- The significand and binary exponent of the finite magnitude with these bits. -/
def decode (bits : Nat) : Nat × Int :=
  let field : Nat := bits / Nat.pow 2 52
  let fraction : Nat := bits % Nat.pow 2 52
  if field = 0 then (fraction, -1074) else (fraction + Nat.pow 2 52, (field : Int) - 1075)

/-- The magnitude with these bits as a fraction. -/
def fractionOf (bits : Nat) : Nat × Nat :=
  let (significand, exponent) := decode bits
  if 0 ≤ exponent then (significand * Nat.pow 2 exponent.toNat, 1)
  else (significand, Nat.pow 2 ((-exponent).toNat))

/-- The power of ten just above `num / den`: the least `k` with `num / den < 10 ^ k`. -/
def decimalMagnitude (num den : Nat) : Int :=
  if den ≤ num then (Nat.toDigits 10 (num / den)).length
  else
    -- The quotient of the inverse has one digit more than there are zeros after the point, or
    -- as many if the fraction is an exact power of ten.
    let digits : Int := (Nat.toDigits 10 (den / num)).length
    if num * Nat.pow 10 (digits.toNat - 1) = den then 2 - digits else 1 - digits

/-- The digits `d` and exponent `e` with `d * 10 ^ e` next to the magnitude on the grid of `places`
significant digits that read back as the same bits. -/
def hitWith (bits : Nat) (num den : Nat) (magnitude : Int) (places : Nat) : Option (Nat × Int) :=
  let exponent := magnitude - places
  let (scaledNum, scaledDen) :=
    if 0 ≤ exponent then (num, den * Nat.pow 10 exponent.toNat)
    else (num * Nat.pow 10 ((-exponent).toNat), den)
  let low := scaledNum / scaledDen
  let readsBack (d : Nat) : Bool := scientificBits d exponent == bits
  let lowIsNearer : Bool := decide (2 * (scaledNum % scaledDen) < scaledDen)
  let (near, far) := if lowIsNearer then (low, low + 1) else (low + 1, low)
  if readsBack near then some (near, exponent)
  else if readsBack far then some (far, exponent)
  else none

/-- The shortest digits of a positive finite magnitude. Seventeen digits always suffice. -/
def shortest (bits : Nat) : Nat × Int :=
  let (num, den) := fractionOf bits
  let magnitude := decimalMagnitude num den
  ((List.range' 1 17).findSome? (hitWith bits num den magnitude)).getD (0, 0)

/-- Writes `digits * 10 ^ exponent` positionally. -/
def positional (digits : Nat) (exponent : Int) : String :=
  let spelled := Nat.toDigits 10 digits
  if 0 ≤ exponent then String.ofList (spelled ++ List.replicate exponent.toNat '0')
  else
    let places := (-exponent).toNat
    let padded := List.replicate (places + 1 - spelled.length) '0' ++ spelled
    let cut := padded.length - places
    let fraction := ((padded.drop cut).reverse.dropWhile (· == '0')).reverse
    let whole := padded.take cut
    if fraction.isEmpty then String.ofList whole
    else String.ofList (whole ++ '.' :: fraction)

/-- The decimal text of a double. -/
def render (x : Float) : String :=
  let bits := x.toBits.toNat
  let negative : Bool := decide (Nat.pow 2 63 ≤ bits)
  let magnitude := bits % Nat.pow 2 63
  if infinityBits < magnitude then "NaN"
  else
    let body :=
      if magnitude = infinityBits then "inf"
      else if magnitude = 0 then "0"
      else
        let (digits, exponent) := shortest magnitude
        positional digits exponent
    if negative then "-" ++ body else body

end Workbench.Decimal
