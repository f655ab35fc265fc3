/-!
# White space

Two classes of characters that count as blank: the one by which an id is judged
blank, and the slightly smaller one that may stand around a written number.

Results:

* `isBlank_of_isWhitespace`: the four common ASCII blanks are blank.
* `isBlank_of_isNumeralPadding`: what may stand around a number is blank.
-/

namespace ForestPager.Text

/-- The ranges of blank code points, ends included. -/
def blankRanges : List (Nat × Nat) :=
  [(0x9, 0xd), (0x1c, 0x20), (0x85, 0x85), (0xa0, 0xa0), (0x1680, 0x1680), (0x2000, 0x200a),
   (0x2028, 0x2029), (0x202f, 0x202f), (0x205f, 0x205f), (0x3000, 0x3000)]

/-- Whether a character is white space. -/
def isBlank (c : Char) : Bool :=
  blankRanges.any fun r => decide (r.1 ≤ c.toNat) && decide (c.toNat ≤ r.2)

/-- Whether a text holds nothing but white space. The empty text does too. -/
def isBlankText (s : String) : Bool := s.toList.all isBlank

/-- Whether a character may surround a number: white space, except the four
information separators U+001C to U+001F. -/
def isNumeralPadding (c : Char) : Bool :=
  isBlank c && !(decide (0x1c ≤ c.toNat) && decide (c.toNat ≤ 0x1f))

/-- Drop the padding at both ends of a written number. -/
def trimNumeral (cs : List Char) : List Char :=
  ((cs.dropWhile isNumeralPadding).reverse.dropWhile isNumeralPadding).reverse

theorem isBlank_of_isWhitespace (c : Char) (h : c.isWhitespace = true) : isBlank c = true := by
  simp only [Char.isWhitespace, Bool.or_eq_true, decide_eq_true_eq] at h
  rcases h with ((h | h) | h) | h <;> subst h <;> decide

theorem isBlank_of_isNumeralPadding (c : Char) (h : isNumeralPadding c = true) :
    isBlank c = true := by
  simp only [isNumeralPadding, Bool.and_eq_true] at h
  exact h.1

end ForestPager.Text
