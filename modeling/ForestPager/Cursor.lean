import ForestPager.Json.Basic
import ForestPager.QueryId

/-!
# Continuation cursors

A cursor is the token with which the service lets a sub-query be continued. It is
any JSON value but null, and only the service knows what it means. Where a
service may say "no further page", it does so by null or by silence; both are the
absence of a cursor here.

Results:

* `Cursor.ofJson?_isSome`: exactly the values other than null are cursors.
-/

namespace ForestPager

/-- The token by which a sub-query is continued, as the service gave it; it is never null. -/
structure Cursor where
  value : Json
  present : value.isNull = false
deriving DecidableEq

namespace Cursor

/-- A value as a cursor; null is none. -/
def ofJson? (v : Json) : Option Cursor :=
  if h : v.isNull = false then some ⟨v, h⟩ else none

/-- A text as a cursor. -/
def ofText (s : String) : Cursor := ⟨.str s, rfl⟩

instance : Inhabited Cursor := ⟨ofText ""⟩

theorem ofJson?_isSome (v : Json) : (ofJson? v).isSome = true ↔ v ≠ .null := by
  cases v <;> simp [ofJson?, Json.isNull]

@[simp] theorem ofJson?_value (c : Cursor) : ofJson? c.value = some c := by
  simp [ofJson?, c.present]

end Cursor

/-- The cursors of some sub-queries, in the order in which they came. -/
abbrev Cursors := OrderedMap QueryId Cursor

/-- Where to go on, sub-query by sub-query in the order in which it was said: a
cursor or explicitly none. -/
abbrev NextCursors := OrderedMap QueryId (Option Cursor)

end ForestPager
