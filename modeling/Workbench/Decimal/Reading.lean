/-!
**Decimal numerals.**

A numeral is a sign, digits with at most one point among them and at least one digit, and an optional
exponent; or one of the words `inf`, `infinity` and `nan`. Letters may be in either case. It stands for the
double nearest to its value; of two equally near doubles, the one with the even last bit. All rounding is
done in exact arithmetic on natural numbers, and the result is given by its bit pattern. The image of a
number is read in this way (`number_or_text`).
-/

namespace Workbench.Decimal

/-- What a numeral says, before rounding: `digits * 10 ^ exponent` with a sign. -/
inductive Numeral where
  | nan
  | infinite (negative : Bool)
  | finite (negative : Bool) (digits : Nat) (exponent : Int)
deriving DecidableEq, Repr

/-! ### Spelling -/

/-- The number that a run of digits spells. -/
def digitsValue (cs : List Char) : Nat :=
  cs.foldl (fun n c => n * 10 + (c.toNat - '0'.toNat)) 0

/-- An optional sign; `true` for minus. -/
def readSign : List Char → Bool × List Char
  | '-' :: rest => (true, rest)
  | '+' :: rest => (false, rest)
  | cs => (false, cs)

/-- The exponent part at the end of a numeral. -/
def readExponent : List Char → Option Int
  | [] => some 0
  | c :: rest =>
    if c == 'e' || c == 'E' then
      let (negative, digits) := readSign rest
      if !digits.isEmpty && digits.all Char.isDigit then
        let n : Int := digitsValue digits
        some (if negative then -n else n)
      else none
    else none

/-- A numeral without its sign. -/
def readUnsigned (negative : Bool) (cs : List Char) : Option Numeral :=
  let word := cs.map Char.toLower
  if word == "inf".toList || word == "infinity".toList then some (.infinite negative)
  else if word == "nan".toList then some .nan
  else
    let whole := cs.takeWhile Char.isDigit
    let afterWhole := cs.dropWhile Char.isDigit
    let (fraction, rest) :=
      match afterWhole with
      | '.' :: tail => (tail.takeWhile Char.isDigit, tail.dropWhile Char.isDigit)
      | _ => ([], afterWhole)
    if whole.isEmpty && fraction.isEmpty then none
    else
      (readExponent rest).map fun exponent =>
        .finite negative (digitsValue (whole ++ fraction)) (exponent - fraction.length)

/-- Reads a numeral that makes up the whole text. -/
def read? (s : String) : Option Numeral :=
  let (negative, rest) := readSign s.toList
  readUnsigned negative rest

/-! ### Rounding -/

/-- The quotient rounded to the nearest natural number, a half to the even neighbour. -/
def roundDiv (num den : Nat) : Nat :=
  let q := num / den
  let twice := 2 * (num % den)
  if twice < den then q
  else if den < twice then q + 1
  else q + q % 2

/-- The bits of positive infinity. -/
def infinityBits : Nat := 0x7FF * Nat.pow 2 52

/-- The binary exponent `q` for which `num / den` has 53 bits before the point of `num / den / 2^q`,
but at least the exponent of the subnormal numbers. -/
def binaryExponent (num den : Nat) : Int :=
  let guess : Int := (Nat.log2 num : Int) - (Nat.log2 den : Int) - 52
  let isBelow : Bool :=
    if 0 ≤ guess then decide (num < den * Nat.pow 2 (guess.toNat + 52))
    else decide (num * Nat.pow 2 ((-guess).toNat) < den * Nat.pow 2 52)
  max (-1074) (if isBelow then guess - 1 else guess)

/-- The bits of the double nearest to the positive fraction `num / den`. A significand that rounds
up to the next power of two carries into the exponent bits, as it should. -/
def nearestBits (num den : Nat) : Nat :=
  if num = 0 then 0
  else
    let q := binaryExponent num den
    let significand :=
      if 0 ≤ q then roundDiv num (den * Nat.pow 2 q.toNat)
      else roundDiv (num * Nat.pow 2 ((-q).toNat)) den
    min infinityBits ((q + 1074).toNat * Nat.pow 2 52 + significand)

/-- The bits of the double nearest to `digits * 10 ^ exponent`. Values far outside the range of
doubles are settled by their number of digits. -/
def scientificBits (digits : Nat) (exponent : Int) : Nat :=
  let magnitude : Int := exponent + (Nat.toDigits 10 digits).length
  if digits = 0 then 0
  else if 310 < magnitude then infinityBits
  else if magnitude < -330 then 0
  else if 0 ≤ exponent then nearestBits (digits * Nat.pow 10 exponent.toNat) 1
  else nearestBits digits (Nat.pow 10 ((-exponent).toNat))

/-- The double that a numeral stands for. -/
def Numeral.toFloat : Numeral → Float
  | .nan => Float.ofBits 0x7FF8000000000000
  | .infinite negative => Float.ofBits (signed negative infinityBits)
  | .finite negative digits exponent => Float.ofBits (signed negative (scientificBits digits exponent))
where
  /-- The bit pattern with its sign bit. -/
  signed (negative : Bool) (bits : Nat) : UInt64 :=
    UInt64.ofNat (bits + if negative then Nat.pow 2 63 else 0)

/-- The double that a text spells, if it spells one. -/
def toFloat? (s : String) : Option Float :=
  (read? s).map Numeral.toFloat

end Workbench.Decimal
