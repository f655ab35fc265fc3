import ForestPager.Number.Numeral
import Mathlib.Algebra.Group.Nat.Defs
import Mathlib.Data.Int.Notation
import Mathlib.Data.Nat.Notation

/-!
# Reading back what was written

A whole number written in decimal is read back, as long as it has no more digits than
allowed where their number is limited.

Results:

* `digitRun_of_isDigit`: a run of ASCII digits is read to its end.
* `readInteger?_toString`: writing and reading back.
* `toString_injective`: two numbers are not written alike.
-/

namespace ForestPager

open Text (digitValue? isNumeralPadding trimNumeral)

/-- The characters of the ASCII digits are those of the numbers below ten. -/
theorem exists_fin_of_isDigit {c : Char} (h : c.isDigit = true) :
    ∃ d : Fin 10, c = Char.ofNat (48 + d) := by
  rw [Char.isDigit_iff_toNat] at h
  have h0 : '0'.toNat = 48 := rfl
  have h9 : '9'.toNat = 57 := rfl
  refine ⟨⟨c.toNat - 48, by omega⟩, ?_⟩
  rw [Nat.add_sub_cancel' (h0 ▸ h.1), Char.ofNat_toNat]

theorem digitValue?_of_isDigit {c : Char} (h : c.isDigit = true) :
    digitValue? c = some (c.toNat - 48) := by
  obtain ⟨d, rfl⟩ := exists_fin_of_isDigit h
  rw [Text.digitValue?_ascii]
  revert d
  decide

theorem isNumeralPadding_of_isDigit {c : Char} (h : c.isDigit = true) :
    isNumeralPadding c = false := by
  obtain ⟨d, rfl⟩ := exists_fin_of_isDigit h
  revert d
  decide

variable {cs : List Char}

/-- A run of ASCII digits is read to its end. -/
theorem digitRun_of_isDigit (h : ∀ c ∈ cs, c.isDigit = true) (inside : Bool) :
    digitRun inside cs = (cs.map fun c => c.toNat - 48, []) := by
  induction cs generalizing inside with
  | nil => rfl
  | cons c cs ih =>
    have hc := digitValue?_of_isDigit (h c List.mem_cons_self)
    cases cs with
    | nil => simp [digitRun, hc]
    | cons c' rest =>
      have hrest := ih (fun d hd => h d (List.mem_cons_of_mem _ hd)) true
      simp [digitRun, hc, hrest]

theorem trimNumeral_of_isDigit (h : ∀ c ∈ cs, c.isDigit = true) : trimNumeral cs = cs := by
  have hdrop : ∀ l : List Char, (∀ c ∈ l, c.isDigit = true) → l.dropWhile isNumeralPadding = l := by
    intro l hl
    cases l with
    | nil => rfl
    | cons c l =>
      rw [List.dropWhile_cons_of_neg]
      simp [isNumeralPadding_of_isDigit (hl c List.mem_cons_self)]
  rw [trimNumeral, hdrop cs h, hdrop, List.reverse_reverse]
  exact fun c hc => h c (List.mem_reverse.1 hc)

theorem readSign_of_isDigit (h : ∀ c ∈ cs, c.isDigit = true) : readSign cs = (false, cs) := by
  cases cs with
  | nil => rfl
  | cons c cs =>
    have hc := h c List.mem_cons_self
    unfold readSign
    split
    · next heq =>
      cases heq
      exact absurd hc (by decide)
    · next heq =>
      cases heq
      exact absurd hc (by decide)
    · rfl

theorem wholeValue_map_digits (cs : List Char) :
    wholeValue (cs.map fun c => c.toNat - 48) = Nat.ofDigitChars 10 cs 0 := by
  rw [wholeValue, List.foldl_map, Nat.ofDigitChars_eq_foldl]
  refine congrArg (fun f => cs.foldl f 0) ?_
  funext n c
  rw [Nat.mul_comm]
  rfl

/-- Writing a whole number and reading it back. -/
theorem readInteger?_toString {n : ℕ} {limited : Bool}
    (h : limited = true → n < 10 ^ digitsAllowed) :
    readInteger? (toString n) limited = some (n : ℤ) := by
  have hdigits : ∀ c ∈ Nat.toDigits 10 n, c.isDigit = true := fun c =>
    Nat.isDigit_of_mem_toDigits (by decide) (by decide)
  have hrun : integerRun (toString n) =
      (false, (Nat.toDigits 10 n).map fun c => c.toNat - 48, []) := by
    rw [integerRun, Nat.toString_eq_repr, Nat.toList_repr, trimNumeral_of_isDigit hdigits,
      readSign_of_isDigit hdigits]
    exact congrArg (Prod.mk false) (digitRun_of_isDigit hdigits false)
  have hvalue := wholeValue_map_digits (Nat.toDigits 10 n)
  rw [Nat.ofDigitChars_ten_toDigits] at hvalue
  have hlen : limited = true →
      ((Nat.toDigits 10 n).map fun c => c.toNat - 48).length ≤ digitsAllowed := fun hl => by
    rw [List.length_map]
    exact (Nat.length_toDigits_le_iff (by decide) (by decide)).2 (h hl)
  rw [readInteger?, hrun]
  cases hds : (Nat.toDigits 10 n).map fun c => c.toNat - 48 with
  | nil => simp at hds
  | cons d ds =>
    rw [hds] at hvalue hlen
    simp only [Bool.false_eq_true, if_false, hvalue]
    rw [if_pos]
    exact hlen

/-- Two numbers are not written alike. -/
theorem toString_injective {m n : ℕ} (h : toString m = toString n) : m = n := by
  rw [Nat.toString_eq_repr, Nat.toString_eq_repr, ← String.toList_inj, Nat.toList_repr,
    Nat.toList_repr] at h
  rw [← @Nat.ofDigitChars_ten_toDigits m, h, Nat.ofDigitChars_ten_toDigits]

end ForestPager
