import ForestPager.Text.Unprintable

/-!
# Quoted texts in messages

Messages name ids in quotes, so that blanks and odd characters can be seen. A
text stands between single quotes, or between double quotes when it has a single
quote and no double one. The backslash and the quote in use are escaped, line
breaks and tabs get their short escapes, and other characters that do not print
are written by code point, in the shortest of the three widths that fits.

Results:

* `quote_plain`: a text without anything to escape stands between single quotes
  as it is.
-/

namespace ForestPager.Text

/-- The lower-case hexadecimal digits of `n`, at least `width` of them. -/
def hexDigits (width n : Nat) : List Char :=
  let digits := Nat.toDigits 16 n
  List.replicate (width - digits.length) '0' ++ digits

/-- A character by its code point: two, four or eight digits. -/
def escapeCodePoint (c : Char) : List Char :=
  if c.toNat ≤ 0xff then '\\' :: 'x' :: hexDigits 2 c.toNat
  else if c.toNat ≤ 0xffff then '\\' :: 'u' :: hexDigits 4 c.toNat
  else '\\' :: 'U' :: hexDigits 8 c.toNat

/-- One character as it stands between quotes `mark`. -/
def escapeChar (mark c : Char) : List Char :=
  if c = mark ∨ c = '\\' then ['\\', c]
  else if c = '\n' then ['\\', 'n']
  else if c = '\r' then ['\\', 'r']
  else if c = '\t' then ['\\', 't']
  else if isUnprintable c then escapeCodePoint c
  else [c]

/-- The quote that a text is put in. -/
def quoteMark (s : List Char) : Char :=
  if s.contains '\'' && !s.contains '"' then '"' else '\''

/-- A text in quotes. -/
def quote (s : String) : String :=
  let cs := s.toList
  let mark := quoteMark cs
  String.ofList (mark :: (cs.flatMap (escapeChar mark) ++ [mark]))

/-- Texts in quotes, separated by commas, between square brackets. -/
def quoteList (ss : List String) : String :=
  "[" ++ ", ".intercalate (ss.map quote) ++ "]"

theorem escapeChar_plain {mark c : Char} (h₁ : c ≠ mark) (h₂ : c ≠ '\\') (h₃ : c ≠ '\n')
    (h₄ : c ≠ '\r') (h₅ : c ≠ '\t') (h₆ : isUnprintable c = false) : escapeChar mark c = [c] := by
  simp [escapeChar, h₁, h₂, h₃, h₄, h₅, h₆]

/-- A text without anything to escape stands between single quotes as it is. -/
theorem quote_plain (s : String)
    (h : ∀ c ∈ s.toList, c ≠ '\'' ∧ c ≠ '\\' ∧ c ≠ '\n' ∧ c ≠ '\r' ∧ c ≠ '\t' ∧
      isUnprintable c = false) :
    quote s = String.ofList ('\'' :: (s.toList ++ ['\''])) := by
  have hm : quoteMark s.toList = '\'' := by
    have : '\'' ∉ s.toList := fun hc => (h _ hc).1 rfl
    simp [quoteMark, this]
  have hf : s.toList.flatMap (escapeChar '\'') = s.toList := by
    suffices ∀ cs : List Char, (∀ c ∈ cs, escapeChar '\'' c = [c]) →
        cs.flatMap (escapeChar '\'') = cs from
      this _ fun c hc =>
        have ⟨h₁, h₂, h₃, h₄, h₅, h₆⟩ := h c hc
        escapeChar_plain h₁ h₂ h₃ h₄ h₅ h₆
    intro cs hcs
    induction cs with
    | nil => rfl
    | cons c cs ih => simp [hcs c (by simp), ih fun d hd => hcs d (by simp [hd])]
  simp only [quote, hm, hf]

end ForestPager.Text
