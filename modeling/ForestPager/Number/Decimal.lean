/-!
# Decimal fractions

A number written with a point or an exponent, kept by its sign, digits and power
of ten. Nothing is rounded here; which value such a number stands for where only
binary fractions exist is said in `ForestPager.Number.Binary64`.

Results:

* `Decimal.text`: the written form, positional for common sizes and with an
  exponent for the others.
-/

namespace ForestPager

/-- The number `± digits · 10 ^ exponent`; zero has a sign, too. -/
structure Decimal where
  negative : Bool
  digits : Nat
  exponent : Int
deriving DecidableEq, Inhabited

namespace Decimal

/-- Cut trailing zeros off the digits, at most `n` of them, raising the exponent. -/
def stripZeros : Nat → Nat → Int → Nat × Int
  | 0, digits, exponent => (digits, exponent)
  | n + 1, digits, exponent =>
    if digits % 10 = 0 then stripZeros n (digits / 10) (exponent + 1) else (digits, exponent)

/-- Digits with a point after the first `n` of them; a place without a digit is
written as zero, on either side. -/
def placePoint (digits : List Char) (n : Int) : List Char :=
  let padded := List.replicate (1 - n).toNat '0' ++ digits
  let whole := (max n 1).toNat
  let left := padded.take whole
  let right := padded.drop whole
  left ++ List.replicate (whole - left.length) '0' ++
    '.' :: (if right.isEmpty then ['0'] else right)

/-- Digits with one of them before the point, and the power of ten that this
leaves, of at least two digits. A point without digits behind it is left out. -/
def placeExponent (digits : List Char) (power : Int) : List Char :=
  let exponent := Nat.toDigits 10 power.natAbs
  digits.take 1 ++ (if (digits.drop 1).isEmpty then [] else '.' :: digits.drop 1) ++
    'e' :: (if power < 0 then '-' else '+') ::
      (List.replicate (2 - exponent.length) '0' ++ exponent)

/-- The written form: positional from `0.0001` up to sixteen digits before the
point, with an exponent outside that range. -/
def text (d : Decimal) : String :=
  let sign := if d.negative then ['-'] else []
  if d.digits = 0 then String.ofList (sign ++ ['0', '.', '0'])
  else
    let length := (Nat.toDigits 10 d.digits).length
    let (digits, exponent) := stripZeros length d.digits d.exponent
    let cs := Nat.toDigits 10 digits
    let power := exponent + cs.length - 1
    if -4 ≤ power ∧ power < 16 then String.ofList (sign ++ placePoint cs (power + 1))
    else String.ofList (sign ++ placeExponent cs power)

end Decimal

end ForestPager
