import ForestPager.Number.Binary64

/-!
# The shortest decimal of a binary fraction

A double-precision value is written with the fewest digits that read back as it,
and of the decimals with that many digits the nearest one is taken. The search
goes over grids of multiples of a power of ten, from coarse to fine; seventeen
digits always suffice.

Results:

* `Binary64.text`: the written form of a value.
* `Binary64.reads_of_onGrid?`: what the search finds reads back as the value.
-/

namespace ForestPager.Binary64

/-- Whether a decimal reads back as a value. -/
def reads (x : Binary64) (d : Decimal) : Bool := ofDecimal d == x

/-- A multiple of `10 ^ p` next to `num / den` that reads back as `x`: the nearer
one if both do, and of two equally near ones the even one. -/
def onGrid? (x : Binary64) (negative : Bool) (num den : Nat) (p : Int) : Option Decimal :=
  let n := num * Nat.pow 10 (-p).toNat
  let d := den * Nat.pow 10 p.toNat
  let below := n / d
  let nearest := roundQuotient n d
  let other := if nearest = below then below + 1 else below
  [nearest, other].findSome? fun k =>
    let c : Decimal := ⟨negative, k, p⟩
    if x.reads c then some c else none

/-- The power of ten of the first digit of `num / den`, or the next one. -/
def leadingPower (num den : Nat) : Int :=
  if den ≤ num then (Nat.toDigits 10 (num / den)).length
  else 1 - (Nat.toDigits 10 (den / num)).length

/-- The shortest decimal of `± m · 2 ^ e`. -/
def shortest (negative : Bool) (m : Nat) (e : Int) : Decimal :=
  if m = 0 then ⟨negative, 0, 0⟩
  else
    let num := m * Nat.pow 2 e.toNat
    let den := Nat.pow 2 (-e).toNat
    let exact : Decimal := ⟨negative, num * Nat.pow 5 (-e).toNat, min e 0⟩
    ((List.range 20).findSome? fun (i : Nat) =>
      onGrid? (.finite negative m e) negative num den (leadingPower num den - i)).getD exact

/-- The written form of a value. -/
def text : Binary64 → String
  | finite negative m e => (shortest negative m e).text
  | infinite negative => if negative then "-inf" else "inf"
  | nan => "nan"

/-- What the search finds reads back as the value. -/
theorem reads_of_onGrid? {x : Binary64} {negative : Bool} {num den : Nat} {p : Int}
    {d : Decimal} (h : onGrid? x negative num den p = some d) : ofDecimal d = x := by
  unfold onGrid? at h
  obtain ⟨k, -, hk⟩ := List.exists_of_findSome?_eq_some h
  simp only [reads, beq_iff_eq, Option.ite_none_right_eq_some, Option.some.injEq] at hk
  obtain ⟨hr, rfl⟩ := hk
  exact hr

example : shortest true 1 (-1074) = ⟨true, 5, -324⟩ := by decide +kernel

example : shortest false (Nat.pow 2 52) (-96) = ⟨false, 5684341886080802, -29⟩ := by decide +kernel

end ForestPager.Binary64
