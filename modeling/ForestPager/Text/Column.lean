/-!
# Columns of text

Cells of a table: texts filled up with spaces to a width counted in characters. A
text that is too long is kept whole.

Results:

* `length_padRight`, `length_padLeft`: a cell is as wide as asked, or as its text.
-/

namespace ForestPager.Text

/-- A text at the left of a cell. -/
def padRight (width : Nat) (s : String) : String :=
  String.ofList (s.toList ++ List.replicate (width - s.length) ' ')

/-- A text at the right of a cell. -/
def padLeft (width : Nat) (s : String) : String :=
  String.ofList (List.replicate (width - s.length) ' ' ++ s.toList)

theorem length_padRight (width : Nat) (s : String) :
    (padRight width s).length = max width s.length := by
  have h : s.toList.length = s.length := String.length_toList
  simp only [padRight, String.length_ofList, List.length_append, List.length_replicate, h]
  omega

theorem length_padLeft (width : Nat) (s : String) :
    (padLeft width s).length = max width s.length := by
  have h : s.toList.length = s.length := String.length_toList
  simp only [padLeft, String.length_ofList, List.length_append, List.length_replicate, h]
  omega

end ForestPager.Text
