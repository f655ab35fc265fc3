import ForestPager.Number.Decimal

/-!
# Binary fractions of 53 bits

The double-precision values: whole multiples of a power of two with at most 53
significant bits and an exponent from -1074 on, and two infinities. A decimal
number stands for the nearest of them; of two equally near ones the one with the
even multiple is taken, and what would need an exponent above 971 is infinite.

Results:

* `roundQuotient_near`: rounding a quotient moves it by half a unit at most.
* `roundQuotient_mul`: an exact quotient is not moved.
-/

namespace ForestPager

/-- The whole number nearest to `num / den`, the even one of two. -/
def roundQuotient (num den : Nat) : Nat :=
  let q := num / den
  let r := num % den
  if 2 * r < den ∨ (2 * r = den ∧ q % 2 = 0) then q else q + 1

/-- Rounding moves a quotient by half a unit at most. -/
theorem roundQuotient_near (num : Nat) {den : Nat} (h : 0 < den) :
    2 * (roundQuotient num den * den) ≤ 2 * num + den ∧
      2 * num ≤ 2 * (roundQuotient num den * den) + den := by
  have hq : den * (num / den) + num % den = num := Nat.div_add_mod num den
  have hr : num % den < den := Nat.mod_lt _ h
  unfold roundQuotient
  simp only
  have hc : num / den * den = den * (num / den) := Nat.mul_comm _ _
  split
  · next hs => rw [hc]; omega
  · next hs => rw [Nat.add_mul, hc]; omega

/-- An exact quotient is not moved. -/
theorem roundQuotient_mul (q : Nat) {den : Nat} (h : 0 < den) :
    roundQuotient (q * den) den = q := by
  have hd : q * den / den = q := Nat.mul_div_cancel q h
  have hm : q * den % den = 0 := Nat.mul_mod_left q den
  simp [roundQuotient, hd, hm, h]

/-- A double-precision value: the number `± significand · 2 ^ exponent`, an infinity, or the value
that is no number. -/
inductive Binary64
  | finite (negative : Bool) (significand : Nat) (exponent : Int)
  | infinite (negative : Bool)
  | nan
deriving DecidableEq, Inhabited

namespace Binary64

/-- The exponent at which `num / den` has 53 significant bits, or the least
exponent that there is. -/
def exponentOf (num den : Nat) : Int :=
  let l : Int := (Nat.log2 num : Int) - (Nat.log2 den : Int)
  let below : Bool :=
    if 0 ≤ l then decide (num < den * Nat.pow 2 l.toNat)
    else decide (num * Nat.pow 2 (-l).toNat < den)
  max (if below then l - 53 else l - 52) (-1074)

/-- The value `± m · 2 ^ e` in its one form: zero has exponent zero, and the first
significand of 54 bits is halved. Above the range it is infinite. -/
def ofParts (negative : Bool) (m : Nat) (e : Int) : Binary64 :=
  if m = 0 then .finite negative 0 0
  else
    let (m, e) := if m = Nat.pow 2 53 then (Nat.pow 2 52, e + 1) else (m, e)
    if 971 < e then .infinite negative else .finite negative m e

/-- The value nearest to `± num / den`. -/
def ofQuotient (negative : Bool) (num den : Nat) : Binary64 :=
  let e := exponentOf num den
  ofParts negative
    (if 0 ≤ e then roundQuotient num (den * Nat.pow 2 e.toNat)
      else roundQuotient (num * Nat.pow 2 (-e).toNat) den) e

/-- The value nearest to a decimal number. Sizes far outside the range are told
by the number of digits alone. -/
def ofDecimal (d : Decimal) : Binary64 :=
  let size : Int := (Nat.toDigits 10 d.digits).length + d.exponent
  if d.digits = 0 ∨ size < -330 then .finite d.negative 0 0
  else if 310 < size then .infinite d.negative
  else if 0 ≤ d.exponent then ofQuotient d.negative (d.digits * Nat.pow 10 d.exponent.toNat) 1
  else ofQuotient d.negative d.digits (Nat.pow 10 (-d.exponent).toNat)

/-- Whether the value is one of the two zeros. -/
def isZero : Binary64 → Bool
  | finite _ m _ => m == 0
  | _ => false

/-- The whole part of a finite value, cut toward zero. -/
def truncate? : Binary64 → Option Int
  | finite negative m e =>
    let whole : Nat := if 0 ≤ e then m * Nat.pow 2 e.toNat else m / Nat.pow 2 (-e).toNat
    some (if negative then -(whole : Int) else whole)
  | _ => none

/-- The exact value of a finite one. -/
def toDyadic? : Binary64 → Option Dyadic
  | finite negative m e => some (.ofIntWithPrec (if negative then -(m : Int) else m) (-e))
  | _ => none

end Binary64

end ForestPager
