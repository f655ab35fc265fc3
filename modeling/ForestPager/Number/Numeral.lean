import ForestPager.Number.Binary64
import ForestPager.Text.Blank
import ForestPager.Text.Digit

/-!
# Written numbers

The forms in which a number may be written in a header or an argument: digits of
any script, single underscores between two digits, an optional sign, point and
exponent, and the words for the infinities and for no number. Blanks may stand
around it.

Results:

* `wholeValue_append`: what a further digit does to the value of a run of digits.
-/

namespace ForestPager

open Text (digitValue? trimNumeral)

/-- The digits at the front, and the rest. Behind a digit an underscore is passed
over if another digit follows; `inside` says that a digit stands before. -/
def digitRun : (inside : Bool) → List Char → List Nat × List Char
  | _, [] => ([], [])
  | _, [c] =>
    match digitValue? c with
    | some d => ([d], [])
    | none => ([], [c])
  | inside, c :: c' :: rest =>
    match digitValue? c with
    | some d =>
      let run := digitRun true (c' :: rest)
      (d :: run.1, run.2)
    | none =>
      if inside ∧ c = '_' then
        match digitValue? c' with
        | some d =>
          let run := digitRun true rest
          (d :: run.1, run.2)
        | none => ([], c :: c' :: rest)
      else ([], c :: c' :: rest)

/-- The whole number that digits write. -/
def wholeValue (digits : List Nat) : Nat := digits.foldl (fun n d => n * 10 + d) 0

/-- A further digit counts one, and those before it count ten times as much. -/
theorem wholeValue_append (ds : List Nat) (d : Nat) :
    wholeValue (ds ++ [d]) = wholeValue ds * 10 + d := by
  simp [wholeValue]

/-- A sign at the front, as "is it a minus", and the rest. -/
def readSign : List Char → Bool × List Char
  | '-' :: rest => (true, rest)
  | '+' :: rest => (false, rest)
  | cs => (false, cs)

/-- What a written number says. -/
inductive Numeral
  | decimal (d : Decimal)
  | infinite (negative : Bool)
  | nan
deriving DecidableEq

/-- The value of a written number. -/
def Numeral.toBinary64 : Numeral → Binary64
  | decimal d => .ofDecimal d
  | infinite negative => .infinite negative
  | nan => .nan

/-- An exponent at the end: `e`, an optional sign and digits. Nothing at all
counts as zero. -/
def readExponent? : List Char → Option Int
  | [] => some 0
  | c :: rest =>
    if c = 'e' ∨ c = 'E' then
      let (negative, cs) := readSign rest
      match digitRun false cs with
      | (d :: ds, []) =>
        some (if negative then -(wholeValue (d :: ds) : Int) else wholeValue (d :: ds))
      | _ => none
    else none

/-- Digits with an optional point among, before or behind them, and an optional
exponent. At least one digit has to be there. -/
def readDecimal? (negative : Bool) (cs : List Char) : Option Decimal :=
  let (whole, afterWhole) := digitRun false cs
  let (fraction, afterFraction) :=
    match afterWhole with
    | '.' :: rest => digitRun false rest
    | rest => ([], rest)
  if whole.isEmpty ∧ fraction.isEmpty then none
  else (readExponent? afterFraction).map fun e =>
    ⟨negative, wholeValue (whole ++ fraction), e - fraction.length⟩

/-- Read a number in any of its forms. -/
def readNumeral? (s : String) : Option Numeral :=
  let (negative, cs) := readSign (trimNumeral s.toList)
  let word := String.ofList (cs.map Char.toLower)
  if word = "inf" ∨ word = "infinity" then some (.infinite negative)
  else if word = "nan" then some .nan
  else (readDecimal? negative cs).map .decimal

/-- The most digits with which a whole number may be written. -/
def digitsAllowed : Nat := 4300

/-- The sign and the digits at the front of a text, and what stands behind them. -/
def integerRun (s : String) : Bool × List Nat × List Char :=
  let (negative, cs) := readSign (trimNumeral s.toList)
  (negative, digitRun false cs)

/-- The number of digits of a text, if they are more than allowed. -/
def excessDigits? (s : String) : Option Nat :=
  let (_, digits, rest) := integerRun s
  if digitsAllowed < digits.length ∧ rest.head? ≠ some '_' then some digits.length else none

/-- Read a whole number: an optional sign and digits, no more of them than allowed
where their number is `limited`. -/
def readInteger? (s : String) (limited : Bool := true) : Option Int :=
  match integerRun s with
  | (negative, d :: ds, []) =>
    if limited → ds.length < digitsAllowed then
      some (if negative then -(wholeValue (d :: ds) : Int) else wholeValue (d :: ds))
    else none
  | _ => none

example : readNumeral? " NaN" = some .nan := by decide +kernel

example : readNumeral? "-Infinity" = some (.infinite true) := by decide +kernel

example : readNumeral? "1_000.5e-1" = some (.decimal ⟨false, 10005, -2⟩) := by decide +kernel

end ForestPager
