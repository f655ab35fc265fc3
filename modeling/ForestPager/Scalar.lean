import ForestPager.Json.Basic

/-!
# Scalars compared by value

Keys are compared by what they stand for, not by how they were written: whole
numbers, double-precision values and truth values are all numbers, and two numbers
are equal when their exact values are. The value that is no number equals itself
as a key. Arrays and objects are no scalars.

Results:

* `Json.scalar?_bool`: a truth value is the number one or zero.
-/

namespace ForestPager

/-- A value that can be compared as a key; a number is told by its exact value. -/
inductive Scalar
  | null
  | number (value : Dyadic)
  | infinite (negative : Bool)
  | nan
  | text (s : String)
deriving DecidableEq

namespace Json

/-- The scalar that a value stands for. -/
def scalar? : Json → Option Scalar
  | null => some .null
  | bool b => some (.number (if b then 1 else 0))
  | int n => some (.number n)
  | float (.infinite negative) => some (.infinite negative)
  | float .nan => some .nan
  | float (.finite negative m e) => (Binary64.finite negative m e).toDyadic?.map .number
  | str s => some (.text s)
  | arr _ => none
  | obj _ => none

theorem scalar?_bool (b : Bool) : (bool b).scalar? = (int (if b then 1 else 0)).scalar? := by
  cases b <;> rfl

example : (float (.ofDecimal ⟨false, 10, -1⟩)).scalar? = (bool true).scalar? := by decide +kernel

example : (float (.ofDecimal ⟨true, 0, 0⟩)).scalar? = (int 0).scalar? := by decide +kernel

example :
    (float (.ofDecimal ⟨false, 1, -1⟩)).scalar? ≠ (float (.ofDecimal ⟨false, 2, -1⟩)).scalar? := by
  decide +kernel

end Json

end ForestPager
